import AddressExpansion.Proofs.Following
import AddressExpansion.Proofs.Task.VisitInduction

/-! # Surveys

A survey visits a task as visits do, and tells in the log of each name that it meets. It takes the
task on by steps, and no steps take back what was told (`growing_survey`).
-/

namespace AddressExpansion

/-! ## What is left in the log -/

theorem Site.grown_abandon (p : Progress) (site : Site) : p.Grown (site.abandon p) := by
  match site with
  | .fresh .. | .crowd .. => exact .of_log_eq rfl rfl
  | .lookup _ _ _ stage => cases stage <;> exact .of_log_eq rfl rfl

namespace Task

open Work

variable {env env' : Environment} {scope : Scope} {bell : Bell} {task task' : Task}
  {p p' : Progress} {levels levels' : Nat}

theorem growing_giveUpAll (parts : List Task) : Growing (giveUpAll parts) := by
  intro p
  rw [giveUpAll_eq_abandon .main]
  exact Site.keeps_abandonAll (P := p.Grown)
    (fun site q before => before.trans (site.grown_abandon q)) _ (.refl p)

theorem Act.grown (act : Act env bell task p task' p') : p.Grown p' := by
  cases act with
  | trace message => exact .say p message
  | hangUp =>
      have before : p.Grown (p.handOver Switchboard.hangUp) := .of_log_eq rfl rfl
      exact before.trans (.say _ _)
  | finish => exact .sayAll p _
  | settleJoin => exact growing_giveUpAll _ p
  | @settleCrowd roster =>
      have before : p.Grown (p.onRota (·.update roster ({ · with armed := false }))) :=
        .of_log_eq rfl rfl
      exact before.trans (growing_giveUpAll _ _)
  | spend | token | record | openJoin | openCrowd | putOff | draw | take | claim | setAlarm | fail
    | roster | ring => exact .of_log_eq rfl rfl

theorem Step.grown (step : Step env bell task p task' p') : p.Grown p' := by
  induction step with
  | act act => exact act.grown
  | inGather _ ih | inJoin _ ih | inCrowd _ ih => exact ih

theorem Steps.grown {x y : Task × Progress} (steps : Steps env bell x y) : x.2.Grown y.2 :=
  steps.keeps (P := fun _ p => x.2.Grown p) (fun step before => before.trans step.grown) (.refl _)

theorem Stepwise.growing {inner : Visit} (stepwise : Stepwise env inner) (bell : Bell)
    (task : Task) : Growing (inner bell task) :=
  fun p => (stepwise bell task p).grown

theorem growing_gathered (scope : Scope) (gathering : Gathering) (body : Task) :
    Growing (gathered scope gathering body) := by
  have finishes (atoms : List Atom) : Growing (gathering.finish scope atoms) := by
    intro p
    rw [gathering.run_finish]
    exact .sayAll p _
  unfold gathered
  split
  · exact (finishes _).bind fun _ => .pure _
  · exact .pure _
  · exact .pure _

theorem growing_ofParts (parts : List Task) : Growing (ofParts parts) := by
  unfold ofParts
  refine .ite (.pure _) (Growing.bind ?_ fun _ => .pure _)
  exact .get_bind fun _ => (Growing.onRota _).bind fun _ => .pure _

/-! ## Surveys -/

/-- The name that a visit to a task meets, and where: that of a token that is no literal, or of a
    lookup. -/
def met? : Task → Option (Scope × String)
  | .fresh scope (.literal token) =>
    if (Address.classify (Text.trim token)).isNone then some (scope, Text.trim token) else none
  | .lookup scope name _ => some (scope, name)
  | _ => none

theorem met?_of_literal {token : String} {address : Address}
    (literal : Address.classify (Text.trim token) = some address) :
    (fresh scope (.literal token)).met? = none := by
  rw [met?, literal]
  rfl

theorem met?_of_token {token : String} (other : Address.classify (Text.trim token) = none) :
    (fresh scope (.literal token)).met? = some (scope, Text.trim token) := by
  rw [met?, other]
  rfl

/-- Tells of the name that a visit to a task meets as if it were about to be looked up. -/
def tell (task : Task) : Work Unit :=
  match task.met? with
  | none => return
  | some (scope, name) => report scope (.lookup name)

/-- Visits a task that is at most `levels` deep, and tells of every name that it meets. -/
def survey (env : Environment) : (levels : Nat) → Visit
  | 0 => fun _ task => return task
  | levels + 1 => fun bell task => do
    tell task
    visitWith env (survey env levels) bell task

theorem survey_succ (env : Environment) (levels : Nat) (bell : Bell) (task : Task) :
    survey env (levels + 1) bell task = (do
      tell task
      visitWith env (survey env levels) bell task) :=
  rfl

theorem survey_of_unmet (unmet : task.met? = none) :
    survey env (levels + 1) bell task = visitWith env (survey env levels) bell task := by
  rw [survey_succ, tell, unmet]
  exact pure_bind ..

theorem survey_of_met {name : String} (met : task.met? = some (scope, name)) :
    survey env (levels + 1) bell task = (do
      report scope (.lookup name)
      visitWith env (survey env levels) bell task) := by
  rw [survey_succ, tell, met]

/-- A survey takes a task on by steps, as a visit does. -/
theorem steps_survey (env : Environment) (levels : Nat) : Stepwise env (survey env levels) := by
  induction levels with
  | zero => exact fun _ _ _ => .refl _
  | succ levels ih =>
      intro bell task p
      cases met : task.met? with
      | none =>
          rw [survey_of_unmet met]
          exact steps_visitWith ih bell task p
      | some entry =>
          rw [survey_of_met met]
          exact .cons (.trace _ rfl) (steps_visitWith ih bell task _)

theorem growing_survey (env : Environment) (levels : Nat) (bell : Bell) (task : Task) :
    Growing (survey env levels bell task) :=
  (steps_survey env levels).growing bell task

theorem growing_visitWith (env : Environment) (levels : Nat) (bell : Bell) (task : Task) :
    Growing (visitWith env (survey env levels) bell task) :=
  (steps_visitWith (steps_survey env levels)).growing bell task

theorem growing_visitEach (env : Environment) (levels : Nat) (bell : Bell) (parts : List Task) :
    Growing (visitEach (survey env levels bell) parts) :=
  fun p => ((visitedEach (survey env levels) bell parts p).steps
    (passage_stepwise (steps_survey env levels)) []).grown

end Task

end AddressExpansion
