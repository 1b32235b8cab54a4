import AddressExpansion.Proofs.Task.Load

/-! # Induction over visits

What passes from the visits to the parts of a task to the visit of the whole, one kind of task at a
time, holds of every visit that goes down far enough.
-/

namespace AddressExpansion.Task

open Crowd (passage Attended)

variable {env : Environment}

/-- What visits take tasks to, if it is taken by steps and as it should be. -/
def Sound (env : Environment) (P : Passage) : Passage :=
  fun bell task p task' p' => Steps env bell (task, p) (task', p') ∧ P bell task p task' p'

theorem sound_stepwise {P : Passage} : (Sound env P).Stepwise env :=
  fun visited => visited.1

/-- The cases of an induction over visits. -/
structure VisitCases (env : Environment) (P : Passage) : Prop where
  /-- What is over stays over. -/
  ended : ∀ {bell outcome p}, P bell (.ended outcome) p (.ended outcome) p
  /-- Something is over now. -/
  finished : ∀ {bell task p outcome p'}, task.outcome? = none →
    Steps env bell (task, p) (.ended outcome, p') → P bell task p (.ended outcome) p'
  token : ∀ {bell scope token p messages task' p'}, (∀ message ∈ messages, message.isTrace) →
    P bell (opened env scope token) (p.sayAll messages) task' p' →
      P bell (.fresh scope (.literal token)) p task' p'
  record : ∀ {bell scope ip comment p task' p'},
    P bell (.gather scope (.record comment) (.fresh scope ip)) p task' p' →
      P bell (.fresh scope (.record ip comment)) p task' p'
  list : ∀ {bell scope items p task' p'},
    P bell ((ofParts (items.map (.fresh scope))).run p).1
        ((ofParts (items.map (.fresh scope))).run p).2 task' p' →
      P bell (.fresh scope (.list items)) p task' p'
  /-- A lookup is not over yet. -/
  stay : ∀ {bell scope name stage stage' p p'},
    (stage.visit name (env.wait? name) bell).run p = (some stage', p') →
      P bell (.lookup scope name stage) p (.lookup scope name stage') p'
  /-- A lookup is over, and what it becomes goes on. -/
  answer : ∀ {bell scope name stage p q task' p'},
    (stage.visit name (env.wait? name) bell).run p = (none, q) →
      P bell (answered env scope name) (q.say (answerRemark env scope name)) task' p' →
        P bell (.lookup scope name stage) p task' p'
  gather : ∀ {bell scope gathering body p body' p'}, body'.outcome? = none →
    Sound env P bell body p body' p' →
      P bell (.gather scope gathering body) p (.gather scope gathering body') p'
  join : ∀ {bell parts p parts' p'}, outcomeTogether? parts' = none →
    VisitedEach (Sound env P) bell parts p parts' p' → P bell (.join parts) p (.join parts') p'
  crowd : ∀ {inner bell roster parts p parts' p'}, outcomeInOrder? parts' = none →
    Attended (Sound env P) (crowdOf inner bell roster) (parts.length + 1) parts p parts' p' →
      P bell (.crowd roster parts) p (.crowd roster parts') p'

/-- What a visit goes on with is as deep as the visit, or a term that is one level less deep. -/
inductive Ready (env : Environment) (levels : Nat) : Task → Prop
  | finished {outcome} : Ready env levels (.ended outcome)
  | inside {within term} (fits : (Expansion.inScope env within term).Fits levels) :
      Ready env levels (.fresh within term)
  | gather {scope gathering within term} (fits : (Expansion.inScope env within term).Fits levels) :
      Ready env levels (.gather scope gathering (.fresh within term))

section Opened

variable {levels : Nat} {scope : Scope} {name : String} {e : Expansion} {task : Task}

private theorem Uses.ready {use : Task → Task} (uses : Uses env use e task) (fits : e.Fits levels)
    (used : ∀ {within term}, (Expansion.inScope env within term).Fits levels →
      Ready env levels (use (.fresh within term))) : Ready env levels task := by
  cases uses with
  | refused => exact .finished
  | inside => exact used fits

private theorem Opens.ready (opens : Opens env scope name e task) (fits : e.Fits (levels + 1)) :
    Ready env levels task ∨
      task = .lookup scope name .idle ∧ (lookup scope name .idle).Fits env (levels + 1) := by
  cases opens with
  | literal => exact .inl .finished
  | host => exact .inr ⟨rfl, fits_lookup.mpr fits⟩
  | group uses => exact .inl (uses.ready fits .gather)
  | var uses => exact .inl (uses.ready fits .inside)

theorem ready_opened {token : String}
    (fits : (fresh scope (.literal token)).Fits env (levels + 1)) :
    Ready env levels (opened env scope token) ∨
      ∃ name, opened env scope token = .lookup scope name .idle ∧
        (lookup scope name .idle).Fits env (levels + 1) :=
  ((opens_token env scope token).ready (fits_fresh.mp fits)).imp_right fun looks => ⟨_, looks⟩

private theorem Answers.ready (answers : Answers env scope name e task)
    (fits : e.Fits (levels + 1)) : Ready env levels task := by
  cases answers with
  | found | lost => exact .finished
  | rescued _ _ uses => exact uses.ready fits .gather

theorem ready_answered {stage : Stage} (fits : (lookup scope name stage).Fits env (levels + 1)) :
    Ready env levels (answered env scope name) :=
  (answers_host env scope name).ready (fits_lookup.mp fits)

end Opened

section Induction

open Work

variable {P : Passage} {levels : Nat} {bell : Bell} {task task' : Task} {p p' : Progress}

private theorem run_gathered_cases {scope : Scope} {gathering : Gathering} {body : Task}
    (run : (gathered scope gathering body).run p = (task', p')) :
    (body.outcome? = none ∧ task' = .gather scope gathering body ∧ p' = p) ∨
      ∃ outcome, task' = .ended outcome := by
  unfold gathered at run
  match body with
  | .ended (.ok atoms) =>
      cases run
      exact .inr ⟨_, rfl⟩
  | .ended (.error failure) =>
      cases run
      exact .inr ⟨_, rfl⟩
  | .fresh .. | .lookup .. | .gather .. | .join .. | .crowd .. =>
      cases run
      exact .inl ⟨rfl, rfl, rfl⟩

/-- The statement of the induction for visits that go down some levels. -/
private def Holds (env : Environment) (P : Passage) (levels : Nat) : Prop :=
  ∀ {bell task p task' p'}, task.Fits env levels →
    (visit env levels bell task).run p = (task', p') → P bell task p task' p'

private theorem sound_of_holds (holds : Holds env P levels) (fits : task.Fits env levels)
    (run : passage (visit env levels) bell task p task' p') :
    Sound env P bell task p task' p' ∧ task'.Fits env levels := by
  have steps : Steps env bell (task, p) (task', p') :=
    run ▸ steps_visit env levels bell task p
  exact ⟨⟨steps, holds fits run⟩,
    steps.keeps (P := fun task _ => task.Fits env levels) (fun step => step.fits) fits⟩

private theorem holds_gather (cases : VisitCases env P) (holds : Holds env P levels)
    {scope : Scope} {gathering : Gathering} {body : Task} (fits : body.Fits env levels)
    (run : (visitWith env (visit env levels) bell (.gather scope gathering body)).run p =
      (task', p')) : P bell (.gather scope gathering body) p task' p' := by
  have steps : Steps env bell (.gather scope gathering body, p) (task', p') :=
    run ▸ steps_visit env (levels + 1) bell (.gather scope gathering body) p
  rw [visitWith, run_bind] at run
  rcases run_gathered_cases run with ⟨going, rfl, rfl⟩ | ⟨outcome, rfl⟩
  · exact cases.gather going (sound_of_holds holds fits rfl).1
  · exact cases.finished rfl steps

private theorem holds_goOn (cases : VisitCases env P) (holds : Holds env P levels)
    (ready : Ready env levels task)
    (run : (goOn env (visit env levels) bell task).run p = (task', p')) :
    P bell task p task' p' := by
  cases ready with
  | finished =>
      obtain ⟨rfl, rfl⟩ := Prod.mk.inj run
      exact cases.ended
  | inside fits => exact holds (fits_fresh.mpr fits) run
  | gather fits => exact holds_gather cases holds (fits_fresh.mpr fits) run

private theorem holds_lookup (cases : VisitCases env P) (holds : Holds env P levels) {scope : Scope}
    {name : String} {stage : Stage} (fits : (lookup scope name stage).Fits env (levels + 1))
    (run : (visitLookup env (visit env levels) bell scope name stage).run p = (task', p')) :
    P bell (.lookup scope name stage) p task' p' := by
  rw [run_visitLookup] at run
  cases visited : (stage.visit name (env.wait? name) bell).run p with
  | mk stage? q =>
      rw [visited] at run
      cases stage? with
      | some stage' =>
          obtain ⟨rfl, rfl⟩ := Prod.mk.inj run
          exact cases.stay visited
      | none => exact cases.answer visited (holds_goOn cases holds (ready_answered fits) run)

private theorem holds_join (cases : VisitCases env P) (holds : Holds env P levels)
    {parts : List Task} (fits : ∀ part ∈ parts, part.Fits env levels)
    (run : (visitJoin (visit env levels) bell parts).run p = (task', p')) :
    P bell (.join parts) p task' p' := by
  have steps : Steps env bell (.join parts, p) (task', p') :=
    run ▸ steps_visit env (levels + 1) bell (.join parts) p
  obtain ⟨parts', q, visited, same⟩ := run_visitJoin (visit env levels) bell parts p
  rw [same] at run
  cases settled : outcomeTogether? parts' with
  | some outcome =>
      rw [settled] at run
      obtain ⟨rfl, rfl⟩ := Prod.mk.inj run
      exact cases.finished rfl steps
  | none =>
      rw [settled] at run
      obtain ⟨rfl, rfl⟩ := Prod.mk.inj run
      exact cases.join settled
        (visited.imp fits fun fits run => (sound_of_holds holds fits run).1)

private theorem holds_crowd (cases : VisitCases env P) (holds : Holds env P levels) {roster : Nat}
    {parts : List Task} (fits : ∀ part ∈ parts, part.Fits env levels)
    (run : (visitCrowd (visit env levels) bell roster parts).run p = (task', p')) :
    P bell (.crowd roster parts) p task' p' := by
  have steps : Steps env bell (.crowd roster parts, p) (task', p') :=
    run ▸ steps_visit env (levels + 1) bell (.crowd roster parts) p
  obtain ⟨parts', q, attended, same⟩ := run_visitCrowd (visit env levels) bell roster parts p
  rw [same] at run
  cases settled : outcomeInOrder? parts' with
  | some outcome =>
      rw [settled] at run
      obtain ⟨rfl, rfl⟩ := Prod.mk.inj run
      exact cases.finished rfl steps
  | none =>
      rw [settled] at run
      obtain ⟨rfl, rfl⟩ := Prod.mk.inj run
      exact cases.crowd settled (attended.imp fits fun fits run => sound_of_holds holds fits run)

private theorem holds_fresh (cases : VisitCases env P) (holds : Holds env P levels) {scope : Scope}
    {term : Term} (fits : (fresh scope term).Fits env (levels + 1))
    (run : (visitWith env (visit env levels) bell (.fresh scope term)).run p = (task', p')) :
    P bell (.fresh scope term) p task' p' := by
  cases term with
  | record ip comment =>
      rw [fits_fresh, Expansion.inScope_record] at fits
      exact cases.record (holds_gather cases holds (fits_fresh.mpr fits) run)
  | list items =>
      rw [visitWith, run_bind] at run
      exact cases.list (holds (fits_ofParts fits p) run)
  | literal token =>
      obtain ⟨messages, traces, same⟩ :=
        run_visitToken env (visit env levels) bell scope token p
      rw [visitWith, same] at run
      refine cases.token traces ?_
      rcases ready_opened fits with ready | ⟨name, opens, fits⟩
      · exact holds_goOn cases holds ready run
      · rw [opens] at run ⊢
        exact holds_lookup cases holds fits run

/-- A statement about visits holds if every kind of task passes it on from its parts. -/
theorem visit_induct (cases : VisitCases env P) (fits : task.Fits env levels)
    (run : (visit env levels bell task).run p = (task', p')) : P bell task p task' p' := by
  induction levels generalizing bell task p task' p' with
  | zero =>
      obtain ⟨rfl, rfl⟩ := Prod.mk.inj run
      obtain ⟨outcome, rfl⟩ := fits.of_zero
      exact cases.ended
  | succ levels ih =>
      have holds : Holds env P levels := fun fits run => ih fits run
      rw [visit] at run
      cases task with
      | ended outcome =>
          rw [visitWith] at run
          obtain ⟨rfl, rfl⟩ := Prod.mk.inj run
          exact cases.ended
      | gather => exact holds_gather cases holds (fits_gather.mp fits) run
      | lookup => exact holds_lookup cases holds fits run
      | join => exact holds_join cases holds (fits_join.mp fits) run
      | crowd => exact holds_crowd cases holds (fits_crowd.mp fits) run
      | fresh => exact holds_fresh cases holds fits run

end Induction

end AddressExpansion.Task
