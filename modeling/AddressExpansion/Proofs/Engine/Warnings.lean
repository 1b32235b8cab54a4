import AddressExpansion.Proofs.Engine.Addresses
import AddressExpansion.Proofs.Expansion.Warnings
import AddressExpansion.Proofs.Task.Warnings

/-! # Warnings of a run

A run that gives a value has given every warning that its items are due, each once and no other,
whatever the order of events. So every lookup that failed is reported, although all were rescued.
-/

namespace AddressExpansion

def Message.isRescue : Message → Bool
  | .rescued .. => true
  | _ => false

open AddressExpansion.Task

namespace Task

variable {env : Environment} {terms : List Term} {lines : Nat} {p : Progress}

theorem dues_freshItems (index : Nat) :
    duesOfAll env (freshItems index terms) =
      Expansion.warningsOfAll (Expansion.ofItems env index terms) := by
  induction terms generalizing index with
  | nil => rfl
  | cons term terms ih =>
      rw [freshItems, duesOfAll, ih, Expansion.ofItems_cons, Expansion.warningsOfAll, dues]

theorem dues_start (untouched : Untouched lines p) :
    dues env (start terms p).1 = Expansion.warningsOfAll (Expansion.ofItems env 0 terms) := by
  rcases start_cases terms untouched with same | ⟨q, same, -⟩ <;>
    rw [same, dues, dues_freshItems]

theorem warnings_start (terms : List Term) (p : Progress) :
    (start terms p).2.warnings = p.warnings := by
  unfold start ofParts
  split <;> rfl

theorem Turns.warnings_perm {x y : Task × Progress} (turns : Turns env x y)
    (sound : worth env x.1 ≠ none) :
    (y.2.warnings ++ dues env y.1).Perm (x.2.warnings ++ dues env x.1) := by
  have kept := turns.keeps (P := fun task p => worth env task = worth env x.1 ∧
    (p.warnings ++ dues env task).Perm (x.2.warnings ++ dues env x.1)) ?_ ?_ ⟨rfl, .refl _⟩
  · exact kept.2
  · rintro task task' p p' step ⟨same, perm⟩
    exact ⟨step.worth_eq.trans same, (step.warnings_perm (same ▸ sound)).trans perm⟩
  · rintro task p p' ⟨-, log⟩ ⟨same, perm⟩
    refine ⟨same, ?_⟩
    rw [Progress.warnings, log]
    exact perm

end Task

theorem Run.warnings_ofTerms {env : Environment} {cancelAt : Option Nat} {terms : List Term}
    {p : Progress} (untouched : Untouched env.permits p) (silent : p.warnings = [])
    {atoms : List Atom} (succeeds : (ofTerms env cancelAt terms p).ending = .value atoms) :
    (ofTerms env cancelAt terms p).progress.warnings.Perm
      (Expansion.warningsOfAll (Expansion.ofItems env 0 terms)) := by
  rcases ofTerms_cases cancelAt terms untouched with
    ⟨outcome, q, same, turns⟩ | ⟨time, task, q, -, same, -⟩
  · rw [same] at succeeds ⊢
    cases outcome with
    | error => cases succeeds
    | ok =>
        have sound : worth env (start terms p).1 ≠ none := by
          rw [← turns.worth_eq]
          exact Option.some_ne_none _
        have kept := turns.warnings_perm sound
        rw [warnings_start, silent, dues_start untouched, dues, List.append_nil] at kept
        exact kept
  · rw [same] at succeeds
    cases succeeds

theorem Run.exists_of_conclude {α β : Type} {run : Run α} {f : α → β} {message : α → Message}
    {b : β} (succeeds : (run.conclude f message).ending = .value b) :
    ∃ a, run.ending = .value a ∧
      (run.conclude f message).progress = run.progress.say (message a) := by
  unfold conclude at succeeds ⊢
  cases ends : run.ending with
  | value a => exact ⟨a, rfl, rfl⟩
  | failure failure =>
      rw [ends] at succeeds
      cases succeeds
  | stalled =>
      rw [ends] at succeeds
      cases succeeds

namespace Engine

/-- The warnings of a run that gives a value are those that its items are due. -/
theorem warnings_run {engine : Engine} {options : Options} {items : List Json.Value}
    {terms : List Term} {cancelAt : Option Nat} {value : Rendered}
    (parsed : parseItems items = .ok terms)
    (succeeds : (engine.run options items cancelAt).ending = .value value) :
    ((engine.run options items cancelAt).log.filter (·.level = .warn)).Perm
      (Expansion.warningsOfAll
        (Expansion.ofItems (engine.environment options.overrides) 0 terms)) := by
  by_cases later : cancelAt = some 0
  · subst later
    cases succeeds
  change (engine.run options items cancelAt).progress.warnings.Perm _
  rw [engine.run_eq options parsed later] at succeeds ⊢
  obtain ⟨atoms, resolved, progress⟩ := Run.exists_of_conclude succeeds
  have silent : (engine.begun options terms).warnings = [] := Progress.warnings_say _ _
  have kept := Run.warnings_ofTerms ⟨rfl, rfl⟩ silent resolved
  have rendering : [Message.rendering atoms.length options.format].filter (·.level = .warn) = [] :=
    rfl
  rw [progress, Progress.warnings_say, rendering, List.append_nil]
  exact kept

theorem calls_of_value {engine : Engine} {options : Options} {items : List Json.Value}
    {terms : List Term} {cancelAt : Option Nat} {value : Rendered}
    (parsed : parseItems items = .ok terms)
    (succeeds : (engine.run options items cancelAt).ending = .value value) :
    ((engine.run options items cancelAt).calls.map Call.name).Perm (Expansion.lookupsOfAll
      (Expansion.ofItems (engine.environment options.overrides) 0 terms)) := by
  rcases engine.run_spec options cancelAt parsed with ⟨outcome, ends, agrees⟩ | ⟨-, cancelled⟩
  · rw [succeeds] at ends
    cases outcome with
    | error => cases ends
    | ok => exact agrees.calls rfl
  · rw [succeeds] at cancelled
    cases cancelled

private theorem countP_isRescue {env : Environment} {log : List Message} {names groups : List String}
    (warnings : (log.filter (·.level = .warn)).Perm
      (names.filterMap env.rescue? ++ groups.map .emptyGroup))
    (rescued : ∀ name ∈ names, ∀ reason, env.outcome name = .error reason →
      (env.rescue? name).isSome) :
    log.countP Message.isRescue = names.countP fun name => !(env.outcome name).isOk := by
  have warns : ∀ message : Message,
      (message.isRescue && decide (message.level = .warn)) = message.isRescue := by
    rintro (_ | _ | _ | _ | _ | _ | _) <;> rfl
  have rescues : ∀ message ∈ names.filterMap env.rescue?, message.isRescue := by
    intro message member
    obtain ⟨name, -, given⟩ := List.mem_filterMap.mp member
    unfold Environment.rescue? at given
    split at given
    · cases given
    · obtain ⟨value, -, rfl⟩ := Option.map_eq_some_iff.mp given
      rfl
  have none : (groups.map Message.emptyGroup).countP Message.isRescue = 0 := by
    rw [List.countP_eq_zero]
    rintro _ member
    obtain ⟨name, -, rfl⟩ := List.mem_map.mp member
    exact nofun
  calc log.countP Message.isRescue
      = (log.filter (·.level = .warn)).countP Message.isRescue := by
        rw [List.countP_filter]
        exact List.countP_congr fun message _ => by rw [warns]
    _ = (names.filterMap env.rescue?).countP Message.isRescue := by
        rw [warnings.countP_eq, List.countP_append, none, Nat.add_zero]
    _ = names.countP fun name => (env.rescue? name).isSome := by
        rw [List.countP_eq_length.mpr rescues, List.length_filterMap_eq_countP]
    _ = names.countP fun name => !(env.outcome name).isOk := by
        refine List.countP_congr fun name member => ?_
        cases outcome : env.outcome name with
        | ok => simp [Environment.rescue?, outcome, Except.isOk, Except.toBool]
        | error reason =>
            rw [rescued name member reason outcome]
            exact Iff.rfl

/-- A run that gives a value, traced or not, has given one warning for each lookup that failed,
    with its reason and the override that was used, and one for each group that yields no atom. It
    made every lookup that its items unfold to, and every one that failed has an override, so no
    failure is passed over. -/
theorem warnings_report_every_rescue (engine : Engine) (options : Options)
    (items : List Json.Value) (cancelAt : Option Nat) (value : Rendered)
    (succeeds : (engine.run options items cancelAt).ending = .value value) :
    let env := engine.environment options.overrides
    let run := engine.run options items cancelAt
    ∃ terms, parseItems items = .ok terms ∧
      let whole := Expansion.ofItems env 0 terms
      (run.log.filter (·.level = .warn)).Perm
        ((Expansion.lookupsOfAll whole).filterMap env.rescue? ++
          (Expansion.vacantGroupsOfAll whole).map .emptyGroup) ∧
      (run.calls.map Call.name).Perm (Expansion.lookupsOfAll whole) ∧
      (∀ name ∈ Expansion.lookupsOfAll whole, ∀ reason, env.outcome name = .error reason →
        ∃ value, env.override? name = some value ∧
          env.rescue? name = some (.rescued (.resolution name reason) value)) ∧
      run.log.countP Message.isRescue =
        run.calls.countP fun call => !(env.outcome call.name).isOk := by
  intro env run
  obtain ⟨terms, atoms, parsed, same, -⟩ := exists_atoms_of_value succeeds
  have clean := Expansion.sound_of_atomsOfAll same
  refine ⟨terms, parsed, ?_⟩
  intro whole
  have sound : (Expansion.list whole).faults env = [] := by
    rw [Expansion.faults_list, List.flatMap_eq_nil_iff]
    exact clean
  have supplied : ∀ part, Expansion.Inside part (.list whole) → part.Supplied env := by
    intro part inside
    cases inside with
    | whole => trivial
    | list member inside =>
        have clean := clean _ member
        obtain ⟨index, term, -, rfl⟩ := Expansion.mem_ofItems member
        exact Expansion.supplied_of_sound clean part inside
  have warnings : (run.log.filter (·.level = .warn)).Perm
      ((Expansion.lookupsOfAll whole).filterMap env.rescue? ++
        (Expansion.vacantGroupsOfAll whole).map .emptyGroup) :=
    (warnings_run parsed succeeds).trans (Expansion.warnings_perm sound supplied)
  have calls : (run.calls.map Call.name).Perm (Expansion.lookupsOfAll whole) :=
    calls_of_value parsed succeeds
  have rescued : ∀ name ∈ Expansion.lookupsOfAll whole, ∀ reason,
      env.outcome name = .error reason → ∃ value, env.override? name = some value ∧
        env.rescue? name = some (.rescued (.resolution name reason) value) :=
    fun name member reason => Expansion.exists_rescue_of_mem_lookups supplied member
  refine ⟨warnings, calls, rescued, ?_⟩
  rw [countP_isRescue warnings, ← calls.countP_eq, List.countP_map]
  · rfl
  · intro name member reason failed
    obtain ⟨value, -, given⟩ := rescued name member reason failed
    rw [given]
    rfl

/-- A group that is empty, and an override whose own token has to be rescued. -/
theorem warnings_report_every_rescue_of_nested :
    let engine : Engine :=
      { inventory := { groups := [("g", ["h", "a"]), ("h", [])] }
        answer := fun _ => .after 5 (.refusal "no") }
    let options : Options := { overrides := [("a", .string "b"), ("b", .string "::1")] }
    let run := engine.run options [.string "g"] none
    (run.log.filter (·.level = .warn)).Perm
      [.rescued (.resolution "a" (.refused "no")) (.string "b"),
        .rescued (.resolution "b" (.refused "no")) (.string "::1"), .emptyGroup "h"] ∧
      run.log.countP Message.isRescue = 2 := by
  intro engine options run
  have parsed : parseItems [.string "g"] = .ok [.literal "g"] := rfl
  have unfolds : Expansion.ofItems (engine.environment options.overrides) 0 [.literal "g"] =
      [.group "g" (.list [.group "h" (.list []),
        .rescue "a" (.refused "no") (.string "b") (.rescue "b" (.refused "no") (.string "::1")
          (.literal "::1" (.host ⟨.v6, 1, by decide⟩)))])] := rfl
  have atoms : ∃ atoms, Expansion.atomsOfAll
      (Expansion.ofItems (engine.environment options.overrides) 0 [.literal "g"]) = .ok atoms := by
    rw [unfolds]
    exact ⟨_, rfl⟩
  obtain ⟨atoms, same⟩ := atoms
  obtain ⟨terms, parsed', warnings, -, -, count⟩ :=
    warnings_report_every_rescue engine options [.string "g"] none _
      (engine.run_of_atoms options parsed same).1
  obtain rfl := Except.ok.inj (parsed.symm.trans parsed')
  rw [unfolds] at warnings
  refine ⟨warnings, count.trans ?_⟩
  decide +kernel

end Engine

end AddressExpansion
