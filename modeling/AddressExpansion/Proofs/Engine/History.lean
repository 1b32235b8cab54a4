import AddressExpansion.Proofs.Engine.Outcome
import AddressExpansion.Proofs.Task.History

/-! # The history of a run

A run starts with nothing asked for, and what it comes to is a moment of the course of its items.
So the switchboard that a run leaves has a journal (`Run.exists_moment`, `exists_journal`).
-/

namespace AddressExpansion

namespace Task

variable {env : Environment} {terms : List Term} {lines : Nat} {p : Progress}

def outset (terms : List Term) (p : Progress) : Activity.Moment Task :=
  ⟨(start terms p).1, (start terms p).2, none⟩

theorem board_outset (terms : List Term) (untouched : Untouched lines p) :
    (outset terms p).board = { free := lines } := by
  change (start terms p).2.board = _
  rcases start_cases terms untouched with same | ⟨q, same, board, -⟩
  · rw [same, untouched.board]
  · rw [same, board, untouched.board]

theorem conducted_outset (engine : Engine) (terms : List Term) (untouched : Untouched lines p) :
    Conducted engine lines [] (outset terms p).board :=
  board_outset terms untouched ▸ .initial engine lines

theorem tells_outset (engine : Engine) (terms : List Term) (untouched : Untouched lines p) :
    Tells engine [] ((outset terms p).state.sites .main) := by
  have quiet : ∀ site ∈ (start terms p).1.sites .main, site.standing? = none := by
    intro site member
    match site, unvisited_start untouched member with
    | .crowd .., _ => rfl
    | .fresh .., _ => rfl
  change ([] : List Standing).Perm (((start terms p).1.sites .main).filterMap Site.standing?)
  rw [List.filterMap_eq_nil_iff.mpr quiet]

theorem proper_outset (env : Environment) (terms : List Term) (untouched : Untouched lines p) :
    Proper env (env.levels terms) lines (outset terms p) (outset terms p) where
  atRest := by
    by_cases some_item : terms = []
    · subst some_item
      exact .inr ⟨rfl, congrArg Rota.rang untouched.rota, Nat.succ_ne_zero _⟩
    · exact .inl (rested_start env untouched some_item)
  unsettled := nofun
  worth_eq := rfl
  prompt := id

theorem exists_journal (untouched : Untouched lines p) {m : Activity.Moment Task}
    (course : Course env (env.levels terms) (outset terms p) m) :
    ∃ journal, History env (env.levels terms) (outset terms p) m journal := by
  obtain ⟨journal, history, -⟩ := exists_history (proper_outset env terms untouched)
    (tells_outset env.toEngine terms untouched) .start course
  exact ⟨journal, history⟩

theorem History.conducted {m : Activity.Moment Task} {journal : List Request}
    (history : History env (env.levels terms) (outset terms p) m journal)
    (untouched : Untouched lines p) : Conducted env.toEngine lines journal m.board :=
  history.deals.conducted (conducted_outset env.toEngine terms untouched)

theorem History.inOrder {m : Activity.Moment Task} {journal : List Request}
    (history : History env (env.levels terms) (outset terms p) m journal)
    (untouched : Untouched lines p) :
    m.InOrder env.toEngine lines (Lost env (env.levels terms) (outset terms p) m) journal := by
  have rested : m.Silent → Rested env (env.levels terms) lines m.state m.progress := by
    have proper := history.course.keeps Proper.next (proper_outset env terms untouched)
    obtain ⟨task, q, goal⟩ := m
    rintro ⟨rfl, silent⟩
    refine proper.atRest.resolve_right ?_
    rintro ⟨-, rang, -⟩
    exact absurd rang (by simpa using silent)
  exact inOrder_of_rested (history.conducted untouched)
    (history.tells (tells_outset env.toEngine terms untouched)) rested
    (history.lost_of_givenUp Lost.next)

end Task

namespace Run

variable {env : Environment} {terms : List Term} {p : Progress}

private theorem progress_ofHalt_ended (task : Task) (p : Progress) :
    (ofHalt task p .ended).progress = p := by
  unfold ofHalt
  dsimp only
  split <;> rfl

theorem board_conclude {α β : Type} (f : α → β) (message : α → Message) (run : Run α) :
    (run.conclude f message).progress.board = run.progress.board := by
  unfold conclude
  split <;> rfl

theorem ofTerms_halts (cancelAt : Option Nat) (terms : List Term)
    (untouched : Task.Untouched env.permits p) :
    ∃ result, result = ((Task.activity env (env.levels terms)).drive cancelAt (env.turns terms)
        (Task.start terms p).1).run (Task.start terms p).2 ∧
      ofTerms env cancelAt terms p = ofHalt result.1.2 result.2 result.1.1 ∧
      (result.1.1 = .ended ∧ (ofTerms env cancelAt terms p).progress = result.2 ∨
        ∃ time, cancelAt = some time ∧ result.1.1 = .cancelled time ∧
          (ofTerms env cancelAt terms p).progress.board = result.2.board.atTime time) := by
  have some_line : 0 < env.permits := Nat.le_max_left 1 _
  obtain ⟨result, driven, same⟩ := ofTerms_eq env cancelAt terms p
  have halts := Task.halts_start env cancelAt terms some_line untouched
  rw [← driven] at halts
  refine ⟨result, driven, same, ?_⟩
  rw [same]
  rcases halts with ⟨ended, -⟩ | ⟨time, cancels, halted⟩
  · rw [ended]
    exact .inl ⟨rfl, progress_ofHalt_ended ..⟩
  · rw [halted]
    exact .inr ⟨time, cancels, rfl, rfl⟩

/-- The switchboard that a run leaves is that of a moment of its course. If the run was cancelled,
    only the time of cancellation was put in. -/
theorem exists_moment (cancelAt : Option Nat) (terms : List Term)
    (untouched : Task.Untouched env.permits p) :
    ∃ m, Task.Course env (env.levels terms) (Task.outset terms p) m ∧
      ((ofTerms env cancelAt terms p).progress.board = m.board ∨
        ∃ time, cancelAt = some time ∧
          (ofTerms env cancelAt terms p).progress.board = m.board.atTime time) := by
  obtain ⟨result, driven, -, halts⟩ := ofTerms_halts cancelAt terms untouched
  obtain ⟨goal, course⟩ := Activity.course_drive (Task.steps_round env (env.levels terms)) cancelAt
    (env.turns terms) (Task.start terms p).1 (Task.start terms p).2
  rw [← driven] at course
  refine ⟨_, course, ?_⟩
  rcases halts with ⟨-, same⟩ | ⟨time, cancels, -, same⟩
  · exact .inl (congrArg Progress.board same)
  · exact .inr ⟨time, cancels, same⟩

end Run

namespace Engine

variable {engine : Engine} {options : Options} {items : List Json.Value} {terms : List Term}

theorem untouched_begun (engine : Engine) (options : Options) (terms : List Term) :
    Task.Untouched (engine.environment options.overrides).permits
      (engine.begun options terms) :=
  ⟨rfl, rfl⟩

theorem run_of_unparsed (engine : Engine) (options : Options) {failure : Failure}
    (unparsed : parseItems items = .error failure) {cancelAt : Option Nat}
    (later : cancelAt ≠ some 0) :
    engine.run options items cancelAt =
      .failed (engine.environment options.overrides) failure := by
  unfold run
  simp only [if_neg later, unparsed]

theorem board_run (engine : Engine) (options : Options) (parsed : parseItems items = .ok terms)
    {cancelAt : Option Nat} (later : cancelAt ≠ some 0) :
    (engine.run options items cancelAt).progress.board =
      (Run.ofTerms (engine.environment options.overrides) cancelAt terms
        (engine.begun options terms)).progress.board := by
  rw [engine.run_eq options parsed later, Run.board_conclude]

end Engine

end AddressExpansion
