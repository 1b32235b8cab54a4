import AddressExpansion.Proofs.Engine.History

/-! # Cancellation

A time of cancellation changes nothing until it comes. Either the run ends before, and is the same
as without, or it is cut off: it has no value, and its calls are those that started before.
-/

namespace AddressExpansion

namespace Run

variable {env : Environment} {terms : List Term} {p : Progress}

/-- What a run comes to that is cut off at a time, no later than the end of the whole. -/
structure CutOff {α : Type} (whole : Run α) (time : Nat) (cut : Run α) : Prop where
  ending : cut.ending = .failure .cancelled
  elapsed : cut.elapsed = time
  calls : cut.calls = whole.calls.filter (·.start < time)

theorem filter_calls_append {before after : List Call} {time : Nat}
    (early : ∀ call ∈ before, call.start < time) (late : ∀ call ∈ after, time ≤ call.start) :
    (before ++ after).filter (·.start < time) = before := by
  rw [List.filter_append, List.filter_eq_self.mpr (by simpa using early),
    List.filter_eq_nil_iff.mpr (by simpa using late), List.append_nil]

/-- The clock moves past a time of cancellation: all calls so far started before, and all later
    ones start after. -/
theorem calls_past {y : Task} {q : Progress} {time cancelTime : Nat} {m : Activity.Moment Task}
    (untouched : Task.Untouched env.permits p) (silent : q.rota.rang = false)
    (course : Task.Course env (env.levels terms) (Task.outset terms p) ⟨y, q, none⟩)
    (next : Alarm.nextTime? (y.alarms .main) = some time) (early : q.board.now < cancelTime)
    (late : cancelTime ≤ time)
    (rest : Task.Course env (env.levels terms)
      ⟨y, q.advancedTo time (y.alarms .main), none⟩ m) :
    cancelTime ≤ m.board.now ∧
      q.board.calls.toList = m.board.calls.toList.filter (·.start < cancelTime) := by
  obtain ⟨journal, history⟩ := Task.exists_journal untouched course
  have moves : Task.Course env (env.levels terms) ⟨y, q, none⟩
      ⟨y, q.advancedTo time (y.alarms .main), none⟩ := .single (.clock silent next)
  have proper := Task.proper_outset env terms untouched
  have open' := Task.tells_outset env.toEngine terms untouched
  obtain ⟨_, history', -⟩ := Task.exists_history proper open' history moves
  obtain ⟨_, -, deals⟩ := Task.exists_history proper open' history' rest
  obtain ⟨new, calls, since⟩ := deals.extends.calls
  refine ⟨Nat.le_trans late deals.extends.now_le, ?_⟩
  have before : ∀ call ∈ q.board.calls.toList, call.start < cancelTime := fun call member =>
    Nat.lt_of_le_of_lt ((history.conducted untouched).start_le member) early
  rw [calls]
  exact (filter_calls_append before fun call member => Nat.le_trans late (since call member)).symm

theorem ofTerms_some (terms : List Term) (untouched : Task.Untouched env.permits p) {time : Nat}
    (later : 0 < time) :
    let whole := ofTerms env none terms p
    let cut := ofTerms env (some time) terms p
    cut = whole ∧ whole.elapsed < time ∨ time ≤ whole.elapsed ∧ whole.CutOff time cut := by
  intro whole cut
  obtain ⟨result, driven, same, halts⟩ := ofTerms_halts none terms untouched
  obtain ⟨result', driven', same', -⟩ := ofTerms_halts (some time) terms untouched
  have progress : whole.progress = result.2 :=
    (halts.resolve_right fun ⟨_, cancels, _⟩ => nomatch cancels).2
  have early : (Task.start terms p).2.board.now < time := by
    have board : (Task.start terms p).2.board = _ := Task.board_outset terms untouched
    rw [board]
    exact later
  have cases' := Activity.drive_cancelled (Task.steps_round env (env.levels terms))
    (Task.now_round env (env.levels terms)) time (env.turns terms) (Task.start terms p).1
    (Task.start terms p).2 early
  simp only at cases'
  rw [← driven, ← driven'] at cases'
  -- The drives agree, or one breaks off where the clock of the other passes the time.
  rcases cases' with ⟨equal, ends⟩ |
    ⟨y, q, next, left, course, before, silent, moves, late, cutAt, goesOn⟩
  · refine .inl ⟨?_, ?_⟩
    · change ofTerms env (some time) terms p = ofTerms env none terms p
      rw [same', same, equal]
    · change whole.progress.board.now < time
      rwa [progress]
  · obtain ⟨goal, rest⟩ := Activity.course_drive (Task.steps_round env (env.levels terms)) none left
      y (q.advancedTo next (y.alarms .main))
    have goesOn : result = ((Task.activity env (env.levels terms)).drive none left y).run
      (q.advancedTo next (y.alarms .main)) := goesOn
    rw [← goesOn] at rest
    have past := calls_past untouched silent course moves before late rest
    have cutOff : cut = cancelled q time := by
      change ofTerms env (some time) terms p = _
      rw [same', cutAt]
      rfl
    refine .inr ⟨?_, ?_⟩
    · change time ≤ whole.progress.board.now
      rw [progress]
      exact past.1
    · rw [cutOff]
      refine ⟨rfl, rfl, ?_⟩
      change q.board.calls.toList = whole.progress.board.calls.toList.filter (·.start < time)
      rw [progress]
      exact past.2

theorem CutOff.conclude {α β : Type} {whole cut : Run α} {time : Nat}
    (cutOff : whole.CutOff time cut) (f : α → β) (message : α → Message) :
    (whole.conclude f message).CutOff time (cut.conclude f message) where
  ending := by
    unfold Run.conclude
    rw [cutOff.ending]
  elapsed := by
    change (cut.conclude f message).progress.board.now = _
    rw [board_conclude]
    exact cutOff.elapsed
  calls := by
    change (cut.conclude f message).progress.board.calls.toList =
      (whole.conclude f message).progress.board.calls.toList.filter (·.start < time)
    rw [board_conclude, board_conclude]
    exact cutOff.calls

end Run

namespace Engine

theorem run_some (engine : Engine) (options : Options) (items : List Json.Value) {time : Nat}
    (later : 0 < time) :
    let whole := engine.run options items none
    let cut := engine.run options items (some time)
    cut = whole ∧ whole.elapsed < time ∨ time ≤ whole.elapsed ∧ whole.CutOff time cut := by
  intro whole cut
  have later' : some time ≠ some 0 := fun same => absurd (Option.some.inj same) (Nat.ne_of_gt later)
  have never : none ≠ some 0 := nofun
  cases parsed : parseItems items with
  | error failure =>
      have same {cancelAt : Option Nat} (later : cancelAt ≠ some 0) :=
        engine.run_of_unparsed options parsed later
      have equal : cut = whole := (same later').trans (same never).symm
      refine .inl ⟨equal, ?_⟩
      change (engine.run options items none).progress.board.now < time
      rw [same never]
      exact later
  | ok terms =>
      have untouched := engine.untouched_begun options terms
      have resolves (cancelAt : Option Nat) (later : cancelAt ≠ some 0) :
          engine.run options items cancelAt = _ :=
        engine.run_eq options parsed later
      have elapsed := congrArg Switchboard.now
        (engine.board_run options parsed never)
      change cut = whole ∧ whole.progress.board.now < time ∨ time ≤ whole.progress.board.now ∧ _
      rw [elapsed]
      refine (Run.ofTerms_some terms untouched later).imp ?_ ?_
      · rintro ⟨equal, ends⟩
        refine ⟨?_, ends⟩
        change engine.run options items (some time) = engine.run options items none
        rw [resolves _ later', resolves _ never, equal]
      · rintro ⟨late, cutOff⟩
        refine ⟨late, ?_⟩
        change (engine.run options items none).CutOff time (engine.run options items (some time))
        rw [resolves _ later', resolves _ never]
        exact cutOff.conclude ..

/-- Cancellation is atomic. From the start it keeps a run from doing anything, even from reading its
    items. After the end it changes nothing. In between it ends the run there, without a value, and
    the calls are those that started before. -/
theorem cancellation_is_atomic (engine : Engine) (table : Table Json.Value) (options : Options)
    (valid : Options.ofTable table = .ok options) (items : List Json.Value) (time : Nat) :
    let whole := engine.runWith table items none
    let cut := engine.runWith table items (some time)
    (time = 0 → cut.ending = .failure .cancelled ∧ cut.calls = [] ∧ cut.elapsed = 0) ∧
      (0 < time → whole.elapsed < time → cut = whole) ∧
      (0 < time → time ≤ whole.elapsed → cut.ending = .failure .cancelled ∧
        cut.calls = whole.calls.filter (·.start < time) ∧ cut.elapsed = time) := by
  have same (cancelAt : Option Nat) :
      engine.runWith table items cancelAt = engine.run options items cancelAt := by
    unfold runWith
    rw [valid]
  simp only [same]
  refine ⟨?_, fun later ends => ?_, fun later late => ?_⟩
  · rintro rfl
    exact ⟨rfl, rfl, rfl⟩
  · rcases engine.run_some options items later with ⟨equal, -⟩ | ⟨late, -⟩
    · exact equal
    · omega
  · rcases engine.run_some options items later with ⟨-, ends⟩ | ⟨-, cutOff⟩
    · omega
    · exact ⟨cutOff.ending, cutOff.calls, cutOff.elapsed⟩

/-- Of two names that share one line, only the first has been called before the first one ends, and
    both before the second one does. -/
theorem cancellation_is_atomic_between_calls :
    let engine : Engine := { answer := fun _ => .after 5 (.refusal "no"), maxLookups := 1 }
    let options : Table Json.Value := [("dns", .object [("a", .string "::1")])]
    let run := engine.runWith options [.string "a", .string "b"]
    (run (some 0)).calls = [] ∧ (run (some 3)).calls = [⟨"a", 0⟩] ∧
      (run (some 7)).calls = [⟨"a", 0⟩, ⟨"b", 5⟩] ∧ (run (some 7)).ending = .failure .cancelled ∧
        run (some 11) = run none := by
  intro engine options run
  have atomic := cancellation_is_atomic engine options
    { overrides := [("a", .string "::1")] } rfl [.string "a", .string "b"]
  have whole : (run none).calls = [⟨"a", 0⟩, ⟨"b", 5⟩] ∧ (run none).elapsed = 10 := by
    decide +kernel
  obtain ⟨early, -, -⟩ := atomic 0
  obtain ⟨-, -, first⟩ := atomic 3
  obtain ⟨-, -, second⟩ := atomic 7
  obtain ⟨-, after, -⟩ := atomic 11
  obtain ⟨-, calls, -⟩ := first (by decide) (by rw [whole.2]; decide)
  obtain ⟨ending, calls', -⟩ := second (by decide) (by rw [whole.2]; decide)
  refine ⟨(early rfl).2.1, ?_, ?_, ending, after (by decide) (by rw [whole.2]; decide)⟩
  · rw [calls, whole.1]
    rfl
  · rw [calls', whole.1]
    rfl

end Engine

end AddressExpansion
