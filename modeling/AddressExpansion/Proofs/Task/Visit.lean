import AddressExpansion.Proofs.Crowd
import AddressExpansion.Proofs.Stage
import AddressExpansion.Proofs.Task.Opening

/-! # Visits

What a visit to each kind of task comes to, with the visits to its parts left open as a passage. Main
statement: a visit is a sequence of steps (`steps_visit`).
-/

namespace AddressExpansion

namespace Task

/-! ## Visits of what was just opened -/

/-- Goes on with a task that a token or a lookup has become. -/
def goOn (env : Environment) (inner : Visit) : Visit
  | bell, .fresh scope term => inner bell (.fresh scope term)
  | bell, task => visitWith env inner bell task

section Opened

open Work

variable {env : Environment} {inner : Visit} {bell : Bell} {scope : Scope} {p : Progress}

theorem run_visitToken (env : Environment) (inner : Visit) (bell : Bell) (scope : Scope)
    (token : String) (p : Progress) :
    ∃ messages, (∀ message ∈ messages, message.isTrace) ∧
      (visitToken env inner bell scope token).run p =
        (goOn env inner bell (opened env scope token)).run (p.sayAll messages) := by
  have traced : ∀ finding, ∀ message ∈ [Message.traced scope.item scope.depth finding],
      message.isTrace := by simp [Message.isTrace]
  unfold visitToken opened inDefinition
  generalize Text.trim token = name
  dsimp only
  cases env.meaning name with
  | literal address => exact ⟨_, traced (.literal name address), rfl⟩
  | host => exact ⟨_, traced (.lookup name), rfl⟩
  | group members =>
      cases scope.enter? name with
      | error => exact ⟨[], by simp, rfl⟩
      | ok within => exact ⟨_, traced (.group name members), rfl⟩
  | var value =>
      cases scope.enter? name with
      | error => exact ⟨[], by simp, rfl⟩
      | ok within =>
          refine ⟨_, traced (.var name value), ?_⟩
          simp only [run_bind]
          cases scope.readValue name value <;> rfl

theorem run_afterLookup (name : String) :
    (afterLookup env inner bell scope name).run p =
      (goOn env inner bell (answered env scope name)).run
        (p.say (answerRemark env scope name)) := by
  unfold afterLookup answered answerRemark
  cases env.outcome name with
  | ok ips => rfl
  | error reason =>
      cases env.override? name with
      | none => rfl
      | some value =>
          simp only [inDefinition, run_bind, run_say]
          cases scope.enter? name with
          | error => rfl
          | ok within => cases scope.readValue name value <;> rfl

/-- A visit to a lookup leaves it at a later stage, or goes on with what it becomes. -/
theorem run_visitLookup (name : String) (stage : Stage) :
    (visitLookup env inner bell scope name stage).run p =
      match (stage.visit name (env.wait? name) bell).run p with
      | (some stage', q) => (.lookup scope name stage', q)
      | (none, q) =>
        (goOn env inner bell (answered env scope name)).run
          (q.say (answerRemark env scope name)) := by
  unfold visitLookup
  rw [run_bind]
  cases (stage.visit name (env.wait? name) bell).run p with
  | mk stage? q =>
      cases stage? with
      | some => rfl
      | none => exact run_afterLookup name

end Opened

/-! ## Visits are steps -/

section Visits

open Work
open Crowd (passage taken rungParts Stretched Attended attended)

variable {env : Environment} {bell : Bell} {scope : Scope} {name : String} {stage : Stage}
  {p q : Progress}

private theorem steps_acts {x y : Stage × Progress}
    (acts : Relation.ReflTransGen (Stage.Act name (env.duration name) bell) x y) :
    Steps env bell (.lookup scope name x.1, x.2) (.lookup scope name y.1, y.2) := by
  induction acts with
  | refl => exact .refl _
  | tail _ last ih =>
      refine ih.trans ?_
      cases last with
      | spend => exact .one .spend
      | putOff => exact .one .putOff
      | draw busy => exact .one (.draw busy)
      | take idle => exact .one (.take idle)
      | claim served => exact .one (.claim served)
      | setAlarm early => exact .one (.setAlarm early)

theorem steps_gathered {gathering : Gathering} {body : Task} :
    Steps env bell (.gather scope gathering body, p)
      ((gathered scope gathering body).run p) := by
  unfold gathered
  cases body with
  | ended outcome =>
      cases outcome with
      | error => exact .one .fail
      | ok atoms =>
          simp only [outcome?, run_bind, run_pure, gathering.run_finish]
          exact .one .finish
  | fresh | lookup | gather | join | crowd => exact .refl _

/-- Visits of tasks inside are steps. -/
def Stepwise (env : Environment) (inner : Visit) : Prop :=
  ∀ bell task p, Steps env bell (task, p) ((inner bell task).run p)

/-- How visits may take tasks on. -/
abbrev Passage := Crowd.Passage Task

/-- Whether tasks are taken on by steps. -/
def Passage.Stepwise (env : Environment) (R : Passage) : Prop :=
  ∀ {bell task p task' p'}, R bell task p task' p' → Steps env bell (task, p) (task', p')

theorem passage_stepwise {inner : Visit} (stepwise : Stepwise env inner) :
    Passage.Stepwise env (passage inner) := by
  intro bell task p task' p' visited
  rw [← visited]
  exact stepwise bell task p

variable {inner : Visit}

private theorem steps_gathered_visit (stepwise : Stepwise env inner) {gathering : Gathering}
    {body : Task} :
    Steps env bell (.gather scope gathering body, p)
      ((do gathered scope gathering (← inner bell body) : Work Task).run p) := by
  rw [run_bind]
  exact (Steps.inGather scope gathering (stepwise bell body p)).trans steps_gathered

theorem steps_opened {token : String} {messages : List Message}
    (traces : ∀ message ∈ messages, message.isTrace) :
    Steps env bell (.fresh scope (.literal token), p)
      (opened env scope token, p.sayAll messages) :=
  .cons .token (Steps.sayAll messages traces)

theorem steps_stage {stage' : Stage}
    (visited : (stage.visit name (env.wait? name) bell).run p = (some stage', q)) :
    Steps env bell (.lookup scope name stage, p) (.lookup scope name stage', q) := by
  have comesTo := Stage.comesTo_visit name (env.wait? name) bell stage p
  rw [visited] at comesTo
  exact steps_acts comesTo

theorem steps_answered (visited : (stage.visit name (env.wait? name) bell).run p = (none, q)) :
    Steps env bell (.lookup scope name stage, p)
      (answered env scope name, q.say (answerRemark env scope name)) := by
  have comesTo := Stage.comesTo_visit name (env.wait? name) bell stage p
  rw [visited] at comesTo
  obtain ⟨ends, alarm, q, acts, due, rfl⟩ := comesTo
  exact (steps_acts acts).trans (.one (.hangUp due))

section Opened

variable {e : Expansion} {task : Task}

private theorem Uses.steps_goOn {use : Task → Task} (uses : Uses env use e task)
    (used : ∀ within term, Steps env bell (use (.fresh within term), p)
      ((goOn env inner bell (use (.fresh within term))).run p)) :
    Steps env bell (task, p) ((goOn env inner bell task).run p) := by
  cases uses with
  | refused => exact .refl _
  | inside => exact used _ _

private theorem Answers.steps_goOn (answers : Answers env scope name e task)
    (stepwise : Stepwise env inner) :
    Steps env bell (task, p) ((goOn env inner bell task).run p) := by
  cases answers with
  | found | lost => exact .refl _
  | rescued _ _ uses => exact uses.steps_goOn fun _ _ => steps_gathered_visit stepwise

private theorem steps_visitLookup (stepwise : Stepwise env inner) :
    Steps env bell (.lookup scope name stage, p)
      ((visitLookup env inner bell scope name stage).run p) := by
  rw [run_visitLookup]
  cases visited : (stage.visit name (env.wait? name) bell).run p with
  | mk stage? p' =>
      cases stage? with
      | some stage' => exact steps_stage visited
      | none => exact (steps_answered visited).trans ((answers_host ..).steps_goOn stepwise)

private theorem Opens.steps_goOn (opens : Opens env scope name e task)
    (stepwise : Stepwise env inner) :
    Steps env bell (task, p) ((goOn env inner bell task).run p) := by
  cases opens with
  | literal => exact .refl _
  | host => exact steps_visitLookup stepwise
  | group uses => exact uses.steps_goOn fun _ _ => steps_gathered_visit stepwise
  | var uses => exact uses.steps_goOn fun _ _ => stepwise bell _ _

private theorem steps_visitToken (stepwise : Stepwise env inner) {token : String} :
    Steps env bell (.fresh scope (.literal token), p)
      ((visitToken env inner bell scope token).run p) := by
  obtain ⟨messages, traces, run⟩ :=
    run_visitToken env inner bell scope token p
  rw [run]
  exact (steps_opened traces).trans ((opens_token ..).steps_goOn stepwise)

end Opened

/-- What visits to parts do from left to right, up to the first that fails. -/
inductive VisitedEach (R : Passage) (bell : Bell) :
    List Task → Progress → List Task → Progress → Prop
  | nil {p : Progress} : VisitedEach R bell [] p [] p
  | failed {part parts part' p'} {p : Progress} (visited : R bell part p part' p')
      (failed : part'.failure?.isSome) :
      VisitedEach R bell (part :: parts) p (part' :: parts) p'
  | next {part parts part' p' parts' p''} {p : Progress} (visited : R bell part p part' p')
      (going : part'.failure? = none) (rest : VisitedEach R bell parts p' parts' p'') :
      VisitedEach R bell (part :: parts) p (part' :: parts') p''

theorem VisitedEach.imp {R S : Passage} {Q : Task → Prop} {parts parts' : List Task} {p' : Progress}
    (visited : VisitedEach R bell parts p parts' p') (all : ∀ part ∈ parts, Q part)
    (imp : ∀ {bell part q part' q'}, Q part → R bell part q part' q' → S bell part q part' q') :
    VisitedEach S bell parts p parts' p' := by
  induction visited with
  | nil => exact .nil
  | failed visited failed => exact .failed (imp (all _ (by simp)) visited) failed
  | next visited going _ ih =>
      exact .next (imp (all _ (by simp)) visited) going
        (ih fun part member => all part (by simp [member]))

theorem VisitedEach.all {R : Passage} {Q : Task → Prop} {parts parts' : List Task} {p' : Progress}
    (visited : VisitedEach R bell parts p parts' p') (all : ∀ part ∈ parts, Q part)
    (keeps : ∀ {bell part q part' q'}, Q part → R bell part q part' q' → Q part') :
    ∀ part ∈ parts', Q part := by
  induction visited with
  | nil => exact all
  | failed visited _ =>
      simp only [List.forall_mem_cons] at all ⊢
      exact ⟨keeps all.1 visited, all.2⟩
  | next visited _ _ ih =>
      simp only [List.forall_mem_cons] at all ⊢
      exact ⟨keeps all.1 visited, ih all.2⟩

theorem visitedEach (inner : Visit) (bell : Bell) (parts : List Task) (p : Progress) :
    VisitedEach (passage inner) bell parts p ((visitEach (inner bell) parts).run p).1
      ((visitEach (inner bell) parts).run p).2 := by
  induction parts generalizing p with
  | nil => exact .nil
  | cons part parts ih =>
      unfold visitEach
      rw [run_bind]
      cases visited : (inner bell part).run p with
      | mk part' p' =>
          by_cases failed : part'.failure?.isSome
          · rw [if_pos failed]
            exact .failed visited failed
          · rw [if_neg failed, run_bind, run_pure]
            exact .next visited (by simpa using failed) (ih p')

theorem run_visitJoin (inner : Visit) (bell : Bell) (parts : List Task) (p : Progress) :
    ∃ parts' p', VisitedEach (passage inner) bell parts p parts' p' ∧
      (visitJoin inner bell parts).run p =
        match outcomeTogether? parts' with
        | none => (.join parts', p')
        | some outcome => (.ended outcome, ((giveUpAll parts').run p').2) := by
  refine ⟨_, _, visitedEach inner bell parts p, ?_⟩
  unfold visitJoin
  rw [run_bind]
  generalize (visitEach (inner bell) parts).run p = visited
  cases outcomeTogether? visited.1 <;> rfl

theorem VisitedEach.steps {R : Passage} (stepwise : R.Stepwise env) {parts parts' : List Task}
    {p' : Progress} (visited : VisitedEach R bell parts p parts' p') (front : List Task) :
    Steps env bell (.join (front ++ parts), p) (.join (front ++ parts'), p') := by
  induction visited generalizing front with
  | nil => exact .refl _
  | failed visited => exact Steps.inJoin front _ (stepwise visited)
  | @next part parts part' p' parts' p'' p visited _ _ ih =>
      have rest := ih (front ++ [part'])
      rw [List.append_assoc, List.append_assoc] at rest
      exact (Steps.inJoin front parts (stepwise visited)).trans rest

private theorem steps_visitJoin (stepwise : Stepwise env inner) {parts : List Task} :
    Steps env bell (.join parts, p) ((visitJoin inner bell parts).run p) := by
  obtain ⟨parts', p', visited, run⟩ := run_visitJoin inner bell parts p
  rw [run]
  refine (visited.steps (passage_stepwise stepwise) []).trans ?_
  split
  case h_1 => exact .refl _
  case h_2 settled => exact .one (.settleJoin settled)

theorem steps_taken (crowd : Crowd Task) (parts : List Task) :
    Steps env bell (.crowd crowd.id parts, p) (.crowd crowd.id parts, taken crowd parts p) := by
  exact .one (.roster _ fun r here =>
    (List.tail_sublist _).trans (Crowd.rungParts_sublist here))

private theorem leads_steps {R : Passage} (stepwise : R.Stepwise env) (crowd : Crowd Task) :
    Crowd.Leads R crowd fun x y =>
      Steps env crowd.bell (.crowd crowd.id x.1, x.2) (.crowd crowd.id y.1, y.2) where
  ring := .one .ring
  take := steps_taken crowd _
  arm := .one (.roster ({ · with armed := true }) fun _ _ => List.Sublist.refl _)
  visit := fun located visited => Steps.inCrowd (stepwise visited) located

private theorem steps_of_leads {crowd : Crowd Task} {x y : List Task × Progress}
    (leads : Relation.ReflTransGen (fun x y : List Task × Progress =>
      Steps env crowd.bell (.crowd crowd.id x.1, x.2) (.crowd crowd.id y.1, y.2)) x y) :
    Steps env crowd.bell (.crowd crowd.id x.1, x.2) (.crowd crowd.id y.1, y.2) := by
  induction leads with
  | refl => exact .refl _
  | tail _ last ih => exact ih.trans last

theorem steps_stretched {R : Passage} (stepwise : R.Stepwise env) {crowd : Crowd Task} {left : Nat}
    {parts parts' : List Task} {ended : Bool} {p' : Progress}
    (stretched : Stretched R crowd left parts p ended parts' p') :
    Steps env crowd.bell (.crowd crowd.id parts, p) (.crowd crowd.id parts', p') :=
  steps_of_leads ((leads_steps stepwise crowd).stretched stretched)

theorem steps_attended {R : Passage} (stepwise : R.Stepwise env) {crowd : Crowd Task}
    {ends : Nat} {parts parts' : List Task} {p' : Progress}
    (attended : Attended R crowd ends parts p parts' p') :
    Steps env crowd.bell (.crowd crowd.id parts, p) (.crowd crowd.id parts', p') :=
  steps_of_leads ((leads_steps stepwise crowd).attended attended)

/-- The crowd that a visit attends to. -/
def crowdOf (inner : Visit) (bell : Bell) (roster : Nat) : Crowd Task :=
  { id := roster, bell, visit := inner, isOver
    isSettled := fun parts => (outcomeInOrder? parts).isSome }

theorem run_visitCrowd (inner : Visit) (bell : Bell) (roster : Nat) (parts : List Task)
    (p : Progress) :
    ∃ parts' p', Attended (passage inner) (crowdOf inner bell roster) (parts.length + 1) parts p
        parts' p' ∧
      (visitCrowd inner bell roster parts).run p =
        match outcomeInOrder? parts' with
        | none => (.crowd roster parts', p')
        | some outcome =>
          (.ended outcome, ((giveUpAll parts').run
            (p'.onRota (·.update roster ({ · with armed := false })))).2) := by
  refine ⟨_, _, attended (crowdOf inner bell roster) _ parts p, ?_⟩
  unfold visitCrowd Crowd.attend
  simp only [run_bind]
  change (match outcomeInOrder? (((crowdOf inner bell roster).attendUpTo _ parts).run p).1 with
    | none => _
    | some outcome => _ : Work Task).run _ = _
  split <;> rfl

private theorem steps_visitCrowd (stepwise : Stepwise env inner) {roster : Nat}
    {parts : List Task} :
    Steps env bell (.crowd roster parts, p) ((visitCrowd inner bell roster parts).run p) := by
  obtain ⟨parts', p', attended, run⟩ := run_visitCrowd inner bell roster parts p
  rw [run]
  refine (steps_attended (passage_stepwise stepwise) attended).trans ?_
  split
  case h_1 => exact .refl _
  case h_2 settled => exact .one (.settleCrowd settled)

theorem steps_ofParts (items : List Term) :
    Steps env bell (.fresh scope (.list items), p)
      ((ofParts (items.map (.fresh scope))).run p) := by
  unfold ofParts
  rw [List.length_map]
  by_cases few : items.length ≤ joinLimit
  · rw [if_pos few]
    exact .one (.openJoin few)
  · rw [if_neg few]
    exact .one (.openCrowd (Nat.lt_of_not_le few))

theorem steps_visitWith (stepwise : Stepwise env inner) :
    Stepwise env (visitWith env inner) := by
  intro bell task p
  match task with
  | .ended outcome => exact .refl _
  | .fresh scope (.literal token) => exact steps_visitToken stepwise
  | .fresh scope (.record ip comment) => exact .cons .record (steps_gathered_visit stepwise)
  | .fresh scope (.list items) => exact (steps_ofParts items).trans (stepwise bell _ _)
  | .lookup scope name stage => exact steps_visitLookup stepwise
  | .gather scope gathering body => exact steps_gathered_visit stepwise
  | .join parts => exact steps_visitJoin stepwise
  | .crowd roster parts => exact steps_visitCrowd stepwise

end Visits

/-- A visit takes a task on by steps, however many levels deep it goes. -/
theorem steps_visit (env : Environment) (levels : Nat) (bell : Bell) (task : Task) (p : Progress) :
    Steps env bell (task, p) ((visit env levels bell task).run p) := by
  induction levels generalizing bell task p with
  | zero => exact .refl _
  | succ levels ih => exact steps_visitWith ih bell task p

end Task

end AddressExpansion
