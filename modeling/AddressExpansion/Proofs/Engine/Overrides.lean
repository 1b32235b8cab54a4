import AddressExpansion.Proofs.Engine.Addresses
import AddressExpansion.Proofs.Engine.Alike
import AddressExpansion.Proofs.Expansion.Extension

/-! # Overrides only rescue

An override is looked at only after the lookup of its name has failed, and where it is missing the
run fails. So overrides that are added make no difference to a run that gives a value without them,
whatever their names mean otherwise.
-/

namespace AddressExpansion.Engine

theorem extends_environment (engine : Engine) {overrides wider : Table Json.Value}
    (extends' : ∀ name value, Table.find? overrides name = some value →
      Table.find? wider name = some value) :
    (engine.environment wider).Extends (engine.environment overrides) :=
  ⟨fun _ => rfl, fun _ => rfl, extends'⟩

/-- If a run gives a value, a run with more overrides gives the same value, makes the same calls in
    the same order at the same times, and ends at the same time. -/
theorem overrides_only_rescue (engine : Engine) (options : Options) (wider : Table Json.Value)
    (items : List Json.Value) (cancelAt : Option Nat) (value : Rendered)
    (extends' : ∀ name value, Table.find? options.overrides name = some value →
      Table.find? wider name = some value)
    (succeeds : (engine.run options items cancelAt).ending = .value value) :
    let run := engine.run options items cancelAt
    let run' := engine.run { options with overrides := wider } items cancelAt
    run'.ending = .value value ∧ run'.calls = run.calls ∧ run'.elapsed = run.elapsed ∧
      run'.peak = run.peak := by
  obtain ⟨terms, atoms, parsed, same, -⟩ := exists_atoms_of_value succeeds
  have unfolds := Expansion.ofItems_eq_of_sound (engine.extends_environment extends')
    (Expansion.sound_of_atomsOfAll same)
  have alike : (engine.run options items cancelAt).Alike
      (engine.run { options with overrides := wider } items cancelAt) := by
    refine run_alike cancelAt parsed parsed rfl rfl ?_
    rw [unfolds]
    exact List.forall₂_same.mpr fun e _ => .refl fun _ _ => rfl
  exact ⟨alike.ending.symm.trans succeeds, alike.calls.symm, alike.elapsed.symm, alike.peak.symm⟩

/-- Overrides of a group, and of a name that can be looked up. -/
theorem overrides_only_rescue_never_a_group :
    let ip : Ip := ⟨.v4, 1, by decide⟩
    let engine : Engine :=
      { inventory := { groups := [("g", ["a"])] }, answer := fun _ => .after 5 (.addresses [ip]) }
    let wider : Table Json.Value := [("a", .string "0.0.0.2"), ("g", .null)]
    let run := engine.run { overrides := wider } [.string "g"] none
    run.ending = .value (.ips [.host ip]) ∧ run.calls = [⟨"a", 0⟩] ∧ run.elapsed = 5 := by
  intro ip engine wider run
  have parsed : parseItems [.string "g"] = .ok [.literal "g"] := rfl
  have unfolds : Expansion.ofItems (engine.environment []) 0 [.literal "g"] =
      [.group "g" (.list [.host "a" [ip]])] := rfl
  have atoms : Expansion.atomsOfAll (Expansion.ofItems (engine.environment []) 0 [.literal "g"]) =
      .ok (Atom.gather? [.single (.host ip) "a"] (some "g")).toList := by
    rw [unfolds]
    rfl
  have succeeds : (engine.run {} [.string "g"] none).ending = .value (.ips [.host ip]) :=
    (engine.run_of_atoms {} parsed atoms).1
  obtain ⟨ends, calls, elapsed, -⟩ :=
    overrides_only_rescue engine {} wider [.string "g"] none _ nofun succeeds
  refine ⟨ends, calls.trans ?_, elapsed.trans ?_⟩
  · decide +kernel
  · decide +kernel

end AddressExpansion.Engine
