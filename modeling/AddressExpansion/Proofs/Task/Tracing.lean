import AddressExpansion.Proofs.Task.Step
import AddressExpansion.Proofs.Tracing

/-! # Visits that are traced

Every decision about a token, a record or a lookup is traced where it is made. Main statement: all of
a visit is discreet, whatever it meets on the way (`discreet_visit`).
-/

namespace AddressExpansion

open Work

theorem Gathering.discreet_finish (gathering : Gathering) (scope : Scope) (atoms : List Atom) :
    Discreet (gathering.finish scope atoms) := by
  cases gathering with
  | record comment => exact (Discreet.report _ _).bind fun _ => .pure _
  | group name =>
      simp only [finish]
      exact .ite ((Discreet.say (.inr rfl)).bind fun _ => .pure _) (.pure _)
  | override name =>
      simp only [finish]
      cases Atom.gather? atoms (some name) <;> exact .pure _

namespace Task

variable {env : Environment} {inner : Visit} {bell : Bell} {scope : Scope}

theorem discreet_gathered (scope : Scope) (gathering : Gathering) (body : Task) :
    Discreet (gathered scope gathering body) := by
  unfold gathered
  match body.outcome? with
  | none => exact .pure _
  | some (.error failure) => exact .pure _
  | some (.ok atoms) => exact (gathering.discreet_finish scope atoms).bind fun _ => .pure _

private theorem discreet_giveUpAll_of {tasks : List Task}
    (each : ∀ task ∈ tasks, Discreet task.giveUp) : Discreet (giveUpAll tasks) := by
  induction tasks with
  | nil => exact .pure _
  | cons task tasks ih =>
      rw [List.forall_mem_cons] at each
      rw [giveUpAll]
      exact each.1.bind fun _ => ih each.2

theorem discreet_giveUp (task : Task) : Discreet task.giveUp := by
  induction task using induct with
  | fresh | ended => exact .pure _
  | lookup scope name stage => exact stage.discreet_giveUp
  | gather scope gathering body ih => exact ih
  | join parts ih => exact discreet_giveUpAll_of ih
  | crowd roster parts ih =>
      exact (Discreet.onRota _).bind fun _ => discreet_giveUpAll_of ih

theorem discreet_giveUpAll (tasks : List Task) : Discreet (giveUpAll tasks) :=
  discreet_giveUpAll_of fun task _ => discreet_giveUp task

theorem discreet_ofParts (parts : List Task) : Discreet (ofParts parts) :=
  .ite (.pure _) ((Crowd.discreet_enroll _).bind fun _ => .pure _)

/-! ## Visits, given those of the tasks inside -/

section Inner

variable (visits : ∀ bell task, Discreet (inner bell task))
include visits

theorem discreet_visitEach (bell : Bell) (tasks : List Task) :
    Discreet (visitEach (inner bell) tasks) := by
  induction tasks with
  | nil => exact .pure _
  | cons task tasks ih =>
      refine (visits bell task).bind fun task => .ite (.pure _) ?_
      exact ih.bind fun _ => .pure _

theorem discreet_visitJoin (bell : Bell) (parts : List Task) :
    Discreet (visitJoin inner bell parts) := by
  refine (discreet_visitEach visits bell parts).bind fun parts => ?_
  match outcomeTogether? parts with
  | none => exact .pure _
  | some outcome => exact (discreet_giveUpAll parts).bind fun _ => .pure _

theorem discreet_visitCrowd (bell : Bell) (roster : Nat) (parts : List Task) :
    Discreet (visitCrowd inner bell roster parts) := by
  refine Discreet.bind (Crowd.discreet_attend visits parts) fun parts => ?_
  match outcomeInOrder? parts with
  | none => exact .pure _
  | some outcome =>
      exact (Discreet.onRota _).bind fun _ => (discreet_giveUpAll parts).bind fun _ => .pure _

theorem discreet_afterLookup (name : String) :
    Discreet (afterLookup env inner bell scope name) := by
  unfold afterLookup
  cases env.outcome name with
  | ok ips => exact (Discreet.report _ _).bind fun _ => .pure _
  | error reason =>
      dsimp only
      cases env.override? name with
      | none => exact (Discreet.report _ _).bind fun _ => .pure _
      | some value =>
          refine (Discreet.say (.inr rfl)).bind fun _ => ?_
          split
          · exact .pure _
          · exact (visits bell _).bind fun body => discreet_gathered _ _ body

theorem discreet_visitLookup (name : String) (stage : Stage) :
    Discreet (visitLookup env inner bell scope name stage) := by
  refine (stage.discreet_visit name (env.wait? name) bell).bind fun stage? => ?_
  cases stage? with
  | some stage => exact .pure _
  | none => exact discreet_afterLookup visits name

theorem discreet_visitToken (token : String) :
    Discreet (visitToken env inner bell scope token) := by
  unfold visitToken
  generalize Text.trim token = name
  dsimp only
  cases env.meaning name with
  | literal address => exact (Discreet.report _ _).bind fun _ => .pure _
  | host => exact (Discreet.report _ _).bind fun _ => discreet_visitLookup visits name _
  | group members =>
      dsimp only
      cases scope.enter? name with
      | error failure => exact .pure _
      | ok within =>
          refine (Discreet.report _ _).bind fun _ => (visits bell _).bind fun body => ?_
          exact discreet_gathered _ _ body
  | var value =>
      dsimp only
      cases scope.enter? name with
      | error failure => exact .pure _
      | ok within =>
          refine (Discreet.report _ _).bind fun _ => ?_
          cases scope.readValue name value with
          | error failure => exact .pure _
          | ok term => exact visits bell _

theorem discreet_visitWith (bell : Bell) (task : Task) :
    Discreet (visitWith env inner bell task) := by
  cases task with
  | ended outcome => exact .pure _
  | lookup scope name stage => exact discreet_visitLookup visits name stage
  | gather scope gathering body =>
      rw [visitWith]
      exact (visits bell body).bind fun body => discreet_gathered _ _ body
  | join parts => exact discreet_visitJoin visits bell parts
  | crowd roster parts => exact discreet_visitCrowd visits bell roster parts
  | fresh scope term =>
      cases term with
      | literal token =>
          rw [visitWith]
          exact discreet_visitToken visits token
      | record ip comment =>
          rw [visitWith]
          exact (visits bell _).bind fun body => discreet_gathered _ _ body
      | list items =>
          rw [visitWith]
          exact (discreet_ofParts _).bind fun task => visits bell task

end Inner

theorem discreet_visit (env : Environment) (levels : Nat) (bell : Bell) (task : Task) :
    Discreet (visit env levels bell task) := by
  induction levels generalizing bell task with
  | zero => exact .pure _
  | succ levels ih => exact discreet_visitWith ih bell task

end Task

end AddressExpansion
