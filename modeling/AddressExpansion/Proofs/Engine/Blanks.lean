import AddressExpansion.Proofs.Engine.Alike
import AddressExpansion.Proofs.Engine.Lines
import AddressExpansion.Proofs.Expansion.Blanks

/-! # Blanks around tokens make no difference

Two invocations that are the same but for blanks around tokens, in their items and in every
definition, run alike. In what comes of them a token is its trimmed text.
-/

namespace AddressExpansion

open AddressExpansion.Task Reading

namespace Expansion

variable {env : Environment}

theorem exists_of_mem_lookups {e : Expansion} {name : String} (member : name ∈ e.lookups) :
    ∃ part, Inside part e ∧ part.name? = some name := by
  induction e using induct with
  | literal | fault => cases member
  | host | lost =>
      obtain rfl := List.mem_singleton.mp member
      exact ⟨_, .whole, rfl⟩
  | rescue _ _ _ _ ih =>
      rcases List.mem_cons.mp member with rfl | member
      · exact ⟨_, .whole, rfl⟩
      · obtain ⟨part, inside, same⟩ := ih member
        exact ⟨part, .rescue inside, same⟩
  | group _ _ ih =>
      obtain ⟨part, inside, same⟩ := ih member
      exact ⟨part, .group inside, same⟩
  | var _ _ ih =>
      obtain ⟨part, inside, same⟩ := ih member
      exact ⟨part, .var inside, same⟩
  | record _ _ ih =>
      obtain ⟨part, inside, same⟩ := ih member
      exact ⟨part, .record inside, same⟩
  | list parts ih =>
      rw [lookups, lookupsOfAll_eq_flatMap] at member
      obtain ⟨e, given, member⟩ := List.mem_flatMap.mp member
      obtain ⟨part, inside, same⟩ := ih e given member
      exact ⟨part, .list given inside, same⟩

theorem trimmed_ofItems {terms : List Term} {e : Expansion} (member : e ∈ ofItems env 0 terms) :
    e.Trimmed := by
  obtain ⟨index, term, -, rfl⟩ := mem_ofItems member
  exact trimmed_inScope env _ term

theorem trimmed_list {parts : List Expansion} (each : ∀ part ∈ parts, part.Trimmed) :
    (list parts).Trimmed := by
  intro part here
  cases here with
  | whole => nofun
  | list member inside => exact each _ member part inside

end Expansion

theorem Task.Turns.calls_subset {env : Environment} {x y : Task × Progress}
    (turns : Turns env x y) : y.2.board.called ++ lookupsOf env (y.1.sites .main) ⊆
      x.2.board.called ++ lookupsOf env (x.1.sites .main) := by
  refine turns.keeps (P := fun task p => p.board.called ++ lookupsOf env (task.sites .main) ⊆
    x.2.board.called ++ lookupsOf env (x.1.sites .main)) ?_ ?_ (List.Subset.refl _)
  · exact fun step fewer => List.Subset.trans step.calls_subset fewer
  · rintro task p p' ⟨⟨time, board⟩, -⟩ fewer
    rw [board]
    exact fewer

/-- A run, however it ends, calls nothing but names that its items unfold to lookups of. -/
theorem Run.calls_subset {env : Environment} (cancelAt : Option Nat) (terms : List Term)
    {p : Progress} (untouched : Untouched env.permits p) :
    (ofTerms env cancelAt terms p).calls.map Call.name ⊆
      Expansion.lookupsOfAll (Expansion.ofItems env 0 terms) := by
  have account : Accounts env (Expansion.lookupsOfAll (Expansion.ofItems env 0 terms))
      ((start terms p).1.sites .main) (start terms p).2 := accounts_start untouched
  have called {task : Task} {q : Progress} (turns : Turns env (start terms p) (task, q)) :
      q.board.called ⊆ Expansion.lookupsOfAll (Expansion.ofItems env 0 terms) :=
    fun name member => account.subset (turns.calls_subset (List.mem_append_left _ member))
  rcases ofTerms_cases cancelAt terms untouched with
    ⟨outcome, q, same, turns⟩ | ⟨time, task, q, -, same, turns⟩
  · rw [same]
    exact called turns
  · rw [same]
    have before := called turns
    exact before

namespace Engine

variable {items : List Json.Value} {terms : List Term}

theorem calls_subset (engine : Engine) (options : Options) (cancelAt : Option Nat)
    (parsed : parseItems items = .ok terms) :
    (engine.run options items cancelAt).calls.map Call.name ⊆ Expansion.lookupsOfAll
      (Expansion.ofItems (engine.environment options.overrides) 0 terms) := by
  by_cases later : cancelAt = some 0
  · subst later
    exact List.nil_subset _
  · rw [Run.calls, engine.board_run options parsed later]
    exact Run.calls_subset cancelAt terms (engine.untouched_begun options terms)

theorem trimmed_of_run (engine : Engine) (options : Options) (items : List Json.Value)
    (cancelAt : Option Nat) :
    (∀ call ∈ (engine.run options items cancelAt).calls, Text.trim call.name = call.name) ∧
      ∀ failure, (engine.run options items cancelAt).ending = .failure failure →
        ∀ name, failure.name? = some name → Text.trim name = name := by
  constructor
  · intro call member
    cases parsed : parseItems items with
    | error failure =>
        rw [Run.calls, engine.board_of_unparsed options parsed cancelAt] at member
        cases member
    | ok terms =>
        have looked := engine.calls_subset options cancelAt parsed (List.mem_map_of_mem member)
        rw [Expansion.lookupsOfAll_eq_flatMap] at looked
        obtain ⟨e, given, looked⟩ := List.mem_flatMap.mp looked
        obtain ⟨part, inside, named⟩ := Expansion.exists_of_mem_lookups looked
        exact Expansion.trimmed_ofItems given part inside _ named
  · intro failure failed name named
    rcases fault_of_failure failed with rfl | ⟨index, fault, rfl⟩ | ⟨terms, -, e, member, met⟩
    · cases named
    · cases named
    · exact (Expansion.trimmed_ofItems member).of_fault met named

theorem explains_of_raw {engine : Engine} {options : Options} {cancelAt : Option Nat}
    {atoms : List Atom} (parsed : parseItems items = .ok terms)
    (succeeds : (engine.run options items cancelAt).ending = .value (.raw atoms)) {atom : Atom}
    (member : atom ∈ atoms) :
    (Expansion.list (Expansion.ofItems (engine.environment options.overrides) 0 terms)).Explains
      atom.comment := by
  obtain ⟨terms', atoms', parsed', same, rendered⟩ := exists_atoms_of_value succeeds
  obtain rfl := Except.ok.inj (parsed.symm.trans parsed')
  obtain rfl : atoms = atoms' := by
    cases format : options.format <;> rw [format] at rendered <;> cases rendered
    rfl
  have worth : (Expansion.list (Expansion.ofItems (engine.environment options.overrides) 0
      terms)).worth = some atoms := by
    rw [Expansion.worth, Expansion.atoms, same]
    rfl
  exact (Expansion.trimmed_list fun _ => Expansion.trimmed_ofItems).explains worth member

/-- Blanks around tokens make no difference. Two runs end with the same value or the same failure,
    after the same calls at the same times, if their items and all their definitions are the same
    but for blanks around tokens. Calls, and the names that failures are about, are trimmed, and so
    are the comments of atoms that no record gives. -/
theorem blanks_make_no_difference (engine engine' : Engine) (options options' : Options)
    (items items' : List Json.Value) (cancelAt : Option Nat)
    (definitions : (engine.environment options.overrides).Respaced
      (engine'.environment options'.overrides))
    (format : options.format = options'.format)
    (given : List.Forall₂ Json.Value.Respaced items items') :
    let env := engine.environment options.overrides
    let run := engine.run options items cancelAt
    let run' := engine'.run options' items' cancelAt
    run.ending = run'.ending ∧ run.calls = run'.calls ∧ run.elapsed = run'.elapsed ∧
      run.peak = run'.peak ∧
      (∀ call ∈ run.calls, Text.trim call.name = call.name) ∧
      (∀ failure, run.ending = .failure failure → ∀ name, failure.name? = some name →
        Text.trim name = name) ∧
      ∀ terms atoms, parseItems items = .ok terms → run.ending = .value (.raw atoms) →
        ∀ atom ∈ atoms, (Expansion.list (Expansion.ofItems env 0 terms)).Explains atom.comment := by
  intro env run run'
  have permits : env.permits = (engine'.environment options'.overrides).permits :=
    congrArg (max 1) definitions.maxLookups
  have alike : run.Alike run' := by
    have same := same_parseItems given
    generalize read : parseItems items = terms, read' : parseItems items' = terms' at same
    cases same with
    | ok related =>
        exact run_alike cancelAt read read' format permits
          (Expansion.alike_ofItems definitions related 0)
    | error failure =>
        have idle : (Run.idle env).Alike (Run.idle (engine'.environment options'.overrides)) := by
          rw [Run.idle, permits]
          exact .refl _
        by_cases later : cancelAt = some 0
        · subst later
          exact .cancelled idle 0
        · have failed := engine.run_of_unparsed options read later
          have failed' := engine'.run_of_unparsed options' read' later
          change run = _ at failed
          change run' = _ at failed'
          rw [failed, failed']
          exact ⟨rfl, idle⟩
  obtain ⟨calls, failures⟩ := engine.trimmed_of_run options items cancelAt
  exact ⟨alike.ending, alike.calls, alike.elapsed, alike.peak, calls, failures,
    fun terms atoms parsed succeeds atom => explains_of_raw parsed succeeds⟩

/-- Blanks in an item, in a member, in an override and in a variable. -/
theorem blanks_make_no_difference_at_any_depth :
    let engine (member : String) (ip : Json.Value) : Engine :=
      { inventory := {
          groups := [("g", [member])]
          vars := [("v", .object [("comment", .string " c"), ("ip", ip)])] }
        answer := fun _ => .after 5 (.refusal "no") }
    let options (override : String) : Options :=
      { format := .raw, overrides := [("a", .array [.string override])] }
    let run := (engine "a" (.string "::1")).run (options "v") [.string "g"] none
    let run' := (engine "\ta\u00A0" (.string " ::1")).run (options "v\r\n") [.string " g "] none
    run.ending = run'.ending ∧ run.calls = run'.calls ∧ run.elapsed = run'.elapsed ∧
      run'.calls = [⟨"a", 0⟩] := by
  intro engine options run run'
  have definitions : ((engine "a" (.string "::1")).environment (options "v").overrides).Respaced
      ((engine "\ta\u00A0" (.string " ::1")).environment (options "v\r\n").overrides) := by
    have first : ∀ field ∈ [("comment", Json.Value.string " c")], field.1 ≠ "ip" := by simp
    refine .of_tables rfl rfl rfl ?_ ?_ ?_
    · exact .cons ⟨rfl, .cons rfl .nil⟩ .nil
    · exact .cons ⟨rfl, .record first (.token rfl)⟩ .nil
    · exact .cons ⟨rfl, .list (.cons (.token rfl) .nil)⟩ .nil
  obtain ⟨ending, calls, elapsed, -⟩ :=
    blanks_make_no_difference _ _ (options "v") (options "v\r\n") [.string "g"] [.string " g "] none
      definitions rfl (.cons (.token rfl) .nil)
  exact ⟨ending, calls, elapsed, calls.symm.trans (by decide +kernel)⟩

end Engine

end AddressExpansion
