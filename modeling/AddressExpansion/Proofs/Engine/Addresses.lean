import AddressExpansion.Proofs.Engine.Outcome
import AddressExpansion.Proofs.Expansion.Parts

/-! # Addresses of a run

The addresses that a run gives are those of all leaves that its items unfold to, each once, in the
order of first occurrence. Repetition that was dropped inside records, groups and overrides makes no
difference, and no leaf is left out.
-/

namespace AddressExpansion

namespace Expansion

variable {env : Environment} {terms : List Term} {atoms : List Atom}

theorem distinct_addressesOfAll
    (same : atomsOfAll (ofItems env 0 terms) = .ok atoms) :
    Rendered.flatten atoms = distinct (addressesOfAll (ofItems env 0 terms)) := by
  have worth : (list (ofItems env 0 terms)).worth = some atoms := by
    rw [Expansion.worth, Expansion.atoms, same]
    rfl
  exact distinct_addresses env worth

theorem sound_of_atomsOfAll (same : atomsOfAll (ofItems env 0 terms) = .ok atoms) :
    ∀ e ∈ ofItems env 0 terms, e.faults env = [] := by
  have worth : (list (ofItems env 0 terms)).worth ≠ none := by
    rw [Expansion.worth, Expansion.atoms, same]
    exact Option.some_ne_none atoms
  have sound : (list (ofItems env 0 terms)).faults env = [] := by
    by_contra faulty
    exact worth (worth_eq_none.mpr faulty)
  rw [faults_list, List.flatMap_eq_nil_iff] at sound
  exact sound

end Expansion

namespace Engine

/-- A run that gives addresses gives the distinct ones of all leaves, from left to right. Every
    leaf holds its literal or the whole answer to its name, and neither an answer nor an override
    that was followed is without addresses. -/
theorem run_gives_addresses_of_leaves (engine : Engine) (options : Options)
    (items : List Json.Value) (cancelAt : Option Nat) (value : Rendered)
    (format : options.format = .ips)
    (succeeds : (engine.run options items cancelAt).ending = .value value) :
    let env := engine.environment options.overrides
    ∃ terms, parseItems items = .ok terms ∧
      value = .ips (distinct (Expansion.addressesOfAll (Expansion.ofItems env 0 terms))) ∧
      ∀ whole ∈ Expansion.ofItems env 0 terms, ∀ e, Expansion.Inside e whole → e.Supplied env := by
  intro env
  obtain ⟨terms, atoms, parsed, same, rfl⟩ := exists_atoms_of_value succeeds
  refine ⟨terms, parsed, ?_, ?_⟩
  · rw [format, Rendered.ofAtoms, Expansion.distinct_addressesOfAll same]
  · intro whole member
    have sound := Expansion.sound_of_atomsOfAll same whole member
    obtain ⟨index, term, -, rfl⟩ := Expansion.mem_ofItems member
    exact Expansion.supplied_of_sound sound

/-- An address that is met as a member, in an answer and as an item is given once. -/
theorem run_gives_addresses_of_leaves_once :
    let first : Ip := ⟨.v4, 1, by decide⟩
    let second : Ip := ⟨.v4, 2, by decide⟩
    let engine : Engine :=
      { inventory := { groups := [("servers", ["0.0.0.1", "a"])] }
        answer := fun _ => .after 3 (.addresses [second, first]) }
    let items : List Json.Value := [.string "servers", .string "0.0.0.2"]
    (engine.run {} items none).ending = .value (.ips [.host first, .host second]) ∧
      ∃ terms, parseItems items = .ok terms ∧
        Rendered.ips [.host first, .host second] = .ips (distinct (Expansion.addressesOfAll
          (Expansion.ofItems (engine.environment []) 0 terms))) := by
  intro first second engine items
  have parsed : parseItems items = .ok [.literal "servers", .literal "0.0.0.2"] := rfl
  have unfolds : Expansion.ofItems (engine.environment []) 0
      [.literal "servers", .literal "0.0.0.2"] =
        [.group "servers" (.list [.literal "0.0.0.1" (.host first), .host "a" [second, first]]),
          .literal "0.0.0.2" (.host second)] := rfl
  have atoms : Expansion.atomsOfAll (Expansion.ofItems (engine.environment []) 0
      [.literal "servers", .literal "0.0.0.2"]) =
        .ok [⟨[.host first, .host second], some "servers", by simp, by simp [first, second]⟩,
          .single (.host second) "0.0.0.2"] := by
    rw [unfolds]
    rfl
  have succeeds : (engine.run {} items none).ending = .value (.ips [.host first, .host second]) :=
    (engine.run_of_atoms {} parsed atoms).1
  obtain ⟨terms, parsed, same, -⟩ :=
    run_gives_addresses_of_leaves engine {} items none _ rfl succeeds
  exact ⟨succeeds, terms, parsed, same⟩

end Engine

end AddressExpansion
