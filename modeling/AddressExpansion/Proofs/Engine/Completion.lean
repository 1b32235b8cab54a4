import AddressExpansion.Proofs.Engine.History

/-! # Every run completes

A run that is not cancelled ends with a value or a failure, whatever its items unfold to and however
few lines there are. Since time passes only while a call is under way, a run takes no longer than
its calls take one after the other.
-/

namespace AddressExpansion

theorem Answer.duration_le (limit : Nat) (answer : Answer) : answer.duration limit ≤ limit := by
  cases answer with
  | atOnce => exact Nat.zero_le _
  | after delay => exact Nat.min_le_right ..
  | silence => exact Nat.le_refl _

theorem Engine.sum_duration_le (engine : Engine) (calls : List Call) :
    (calls.map fun call => engine.duration call.name).sum ≤ calls.length * engine.timeout := by
  induction calls with
  | nil => exact Nat.zero_le _
  | cons call calls ih =>
      rw [List.map_cons, List.sum_cons, List.length_cons, Nat.succ_mul, Nat.add_comm]
      exact Nat.add_le_add ih (Answer.duration_le ..)

namespace Run

/-- Whether a run came to an end of its own, no later than its calls would have one by one. -/
structure Completes {α : Type} (engine : Engine) (run : Run α) : Prop where
  ends : (∃ value, run.ending = .value value) ∨ ∃ failure, run.ending = .failure failure
  elapsed_le_sum : run.elapsed ≤ (run.calls.map fun call => engine.duration call.name).sum
  elapsed_le_mul : run.elapsed ≤ run.calls.length * engine.timeout

variable {α : Type} {engine : Engine} {run : Run α}

theorem Completes.of_le
    (ends : (∃ value, run.ending = .value value) ∨ ∃ failure, run.ending = .failure failure)
    (elapsed_le : run.elapsed ≤ (run.calls.map fun call => engine.duration call.name).sum) :
    run.Completes engine :=
  ⟨ends, elapsed_le, Nat.le_trans elapsed_le (engine.sum_duration_le run.calls)⟩

theorem completes_failed (engine : Engine) (env : Environment) (failure : Failure) :
    (failed env failure : Run α).Completes engine :=
  .of_le (.inr ⟨failure, rfl⟩) (Nat.zero_le _)

end Run

namespace Engine

/-- Some call of a run is under way at any time until the run ends. -/
theorem covered_run (engine : Engine) (options : Options) {items : List Json.Value}
    {terms : List Term} (parsed : parseItems items = .ok terms) :
    (engine.run options items none).progress.board.Covered engine := by
  have untouched := engine.untouched_begun options terms
  have conducted := Task.conducted_outset engine terms untouched
  have never : (none : Option Nat) ≠ some 0 := nofun
  obtain ⟨m, course, same⟩ := Run.exists_moment none terms untouched
  obtain ⟨journal, history⟩ := Task.exists_journal untouched course
  have same := same.resolve_right fun ⟨_, cancels, _⟩ => nomatch cancels
  rw [engine.board_run options parsed never, same]
  have early : (Task.outset terms (engine.begun options terms)).board.Covered engine := by
    rw [Task.board_outset terms untouched]
    exact Nat.zero_le _
  exact Deals.covered history.deals conducted early

theorem completes_run (engine : Engine) (options : Options) (items : List Json.Value) :
    (engine.run options items none).Completes engine := by
  have never : (none : Option Nat) ≠ some 0 := nofun
  cases parsed : parseItems items with
  | error failure =>
      have completes := Run.completes_failed (α := Rendered) engine
        (engine.environment options.overrides) failure
      rw [← engine.run_of_unparsed options parsed never] at completes
      exact ⟨completes.ends, completes.elapsed_le_sum, completes.elapsed_le_mul⟩
  | ok terms =>
      refine .of_le ?_ (engine.covered_run options parsed).now_le
      obtain ⟨outcome, ends, -⟩ := engine.run_agrees options parsed
      cases outcome with
      | ok atoms => exact .inl ⟨_, ends⟩
      | error failure => exact .inr ⟨failure, ends⟩

/-- No run hangs, and none takes longer than its calls one by one. -/
theorem every_run_completes (engine : Engine) (items : List Json.Value) :
    (∀ options : Options, (engine.run options items none).Completes engine) ∧
      ∀ options : Table Json.Value, (engine.runWith options items none).Completes engine := by
  refine ⟨fun options => engine.completes_run options items, fun options => ?_⟩
  unfold runWith
  split
  · exact Run.completes_failed ..
  · exact engine.completes_run _ items

end Engine

end AddressExpansion
