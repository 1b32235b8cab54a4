import AddressExpansion.Proofs.Course
import AddressExpansion.Proofs.Crowd

/-! # Work that is traced

Work is discreet if it is the same piece of work whether or not decisions are traced: it comes to the
same result, and to progress that differs in nothing but the traces in the log. Main statements:
crowds are attended to discreetly if their parts are visited discreetly (`discreet_attend`), and so
are activities driven (`discreet_drive`).
-/

namespace AddressExpansion

/-- Whether a message tells of a decision, or warns. Nothing else is said on the way. -/
def Message.IsRemark (message : Message) : Prop :=
  message.isTrace ∨ message.level = .warn

namespace Progress

/-- Progress as it is if decisions are not traced: of its log the warnings are left. -/
def untraced (p : Progress) : Progress :=
  { p with tracing := false, log := p.log.filter (·.level = .warn) }

/-- A remark is left out of the log either when it is made or afterwards. -/
theorem untraced_say (p : Progress) {message : Message} (remark : message.IsRemark) :
    (p.say message).untraced = p.untraced.say message := by
  have exclusive : message.isTrace = !decide (message.level = .warn) := by
    cases message <;> rcases remark with trace | warn <;> first | rfl | cases trace | cases warn
  unfold say untraced
  rw [exclusive]
  by_cases warn : message.level = .warn
  · simp [warn]
  · cases p.tracing <;> simp [warn]

end Progress

/-- Whether a piece of work does not depend on whether decisions are traced. -/
def Work.Discreet {α : Type} (x : Work α) : Prop :=
  ∀ p, x.run p.untraced = ((x.run p).1, (x.run p).2.untraced)

namespace Work.Discreet

variable {α β : Type} {x y : Work α} {f : α → Work β}

theorem pure (a : α) : Discreet (Pure.pure a) :=
  fun _ => rfl

theorem bind (first : Discreet x) (next : ∀ a, Discreet (f a)) : Discreet (x >>= f) := by
  intro p
  rw [run_bind, first p]
  exact next _ _

theorem get_bind {f : Progress → Work β} (next : ∀ p, Discreet (f p))
    (blind : ∀ p : Progress, f p.untraced = f p) : Discreet (get >>= f) := by
  intro p
  rw [run_get_bind, run_get_bind, blind]
  exact next p p

theorem ite {c : Prop} [Decidable c] (yes : Discreet x) (no : Discreet y) :
    Discreet (if c then x else y) := by
  split
  · exact yes
  · exact no

theorem say {message : Message} (remark : message.IsRemark) : Discreet (Work.say message) :=
  fun p => congrArg (Prod.mk ()) (p.untraced_say remark).symm

theorem report (scope : Scope) (finding : Finding) : Discreet (Work.report scope finding) :=
  say (.inl rfl)

theorem onBoard (f : Switchboard → Switchboard) : Discreet (Work.onBoard f) :=
  fun _ => rfl

theorem onRota (f : Rota → Rota) : Discreet (Work.onRota f) :=
  fun _ => rfl

theorem handOver (f : Switchboard → Option Bell × Switchboard) : Discreet (Work.handOver f) :=
  fun _ => rfl

theorem act : Discreet Work.act :=
  fun _ => rfl

theorem time : Discreet Work.time :=
  fun _ => rfl

theorem beginRound : Discreet Work.beginRound :=
  fun _ => rfl

theorem mayAct (bell : Bell) : Discreet (Work.mayAct bell) := by
  intro p
  have same : p.untraced.allowance = p.allowance := rfl
  rw [run_mayAct, run_mayAct, same]
  split <;> rfl

end Work.Discreet

open Work

/-! ## Lookups -/

namespace Stage

theorem discreet_await (bell : Bell) (ends : Nat) (alarm : Option Nat) :
    Discreet (await bell ends alarm) := by
  unfold await
  refine (Discreet.mayAct bell).bind fun may => .ite (.pure _) ?_
  refine Discreet.time.bind fun now => .ite ?_ ?_
  · exact Discreet.act.bind fun _ => (Discreet.handOver _).bind fun _ => .pure _
  · cases alarm with
    | some number => exact .pure _
    | none =>
        exact .get_bind (fun p => (Discreet.onBoard _).bind fun _ => .pure _) fun _ => rfl

theorem discreet_call (name : String) (wait? : Option Nat) (bell : Bell) :
    Discreet (call name wait? bell) := by
  unfold call
  refine (Discreet.onBoard _).bind fun _ => ?_
  cases wait? with
  | none => exact (Discreet.handOver _).bind fun _ => .pure _
  | some wait => exact Discreet.time.bind fun now => discreet_await bell _ none

theorem discreet_visit (name : String) (wait? : Option Nat) (bell : Bell) (stage : Stage) :
    Discreet (stage.visit name wait? bell) := by
  have calls := discreet_call name wait? bell
  cases stage with
  | idle =>
      unfold visit
      refine (Discreet.mayAct bell).bind fun may => .ite (.pure _) ?_
      refine .get_bind (fun p => .ite ?_ ?_) fun _ => rfl
      · exact (Discreet.onBoard _).bind fun _ => .pure _
      · exact Discreet.act.bind fun _ => (Discreet.onBoard _).bind fun _ => calls
  | queued ticket =>
      unfold visit
      refine (Discreet.mayAct bell).bind fun may => .ite (.pure _) ?_
      refine .get_bind (fun p => .ite (.pure _) ?_) fun _ => rfl
      exact Discreet.act.bind fun _ => (Discreet.onBoard _).bind fun _ => calls
  | underway ends alarm => exact discreet_await bell ends alarm

theorem discreet_giveUp (stage : Stage) : Discreet stage.giveUp := by
  unfold giveUp
  cases stage with
  | idle => exact .pure _
  | queued => exact .handOver _
  | underway => exact .handOver _

end Stage

/-! ## Crowds -/

namespace Crowd

variable {α : Type} (crowd : Crowd α)

theorem discreet_enroll (total : Nat) : Discreet (enroll total) :=
  .get_bind (fun _ => (Discreet.onRota _).bind fun _ => .pure _) fun _ => rfl

theorem discreet_next? (parts : List α) : Discreet (crowd.next? parts) :=
  .get_bind (fun _ => (Discreet.onRota _).bind fun _ => .pure _) fun _ => rfl

variable {crowd} (visits : ∀ bell part, Discreet (crowd.visit bell part))
include visits

theorem discreet_stretch (left again : Nat) (parts : List α) :
    Discreet (crowd.stretch left again parts) := by
  induction left generalizing again parts with
  | zero => exact (Discreet.onRota _).bind fun _ => .pure _
  | succ left ih =>
      unfold stretch
      refine (crowd.discreet_next? parts).bind fun next => ?_
      cases next with
      | none => exact .pure _
      | some entry =>
          refine (visits _ entry.2).bind fun part => ?_
          refine .ite (.pure _) (.get_bind (fun p => ?_) fun _ => rfl)
          exact .ite ((Discreet.onRota _).bind fun _ => .pure _) (ih _ _)

theorem discreet_attendUpTo (ends : Nat) (parts : List α) :
    Discreet (crowd.attendUpTo ends parts) := by
  induction ends generalizing parts with
  | zero => exact .pure _
  | succ ends ih =>
      unfold attendUpTo
      refine .ite (.pure _) ?_
      refine (Discreet.onRota _).bind fun _ => ?_
      exact (discreet_stretch visits _ 0 parts).bind fun stretched => .ite (ih _) (.pure _)

theorem discreet_attend (parts : List α) : Discreet (crowd.attend parts) :=
  discreet_attendUpTo visits (parts.length + 1) parts

end Crowd

/-! ## Activities -/

namespace Activity

variable {α : Type} {activity : Activity α}

theorem discreet_drive (visits : ∀ x, Discreet (activity.visit x)) (cancelAt : Option Nat)
    (turns : Nat) (x : α) : Discreet (activity.drive cancelAt turns x) := by
  induction turns generalizing x with
  | zero => exact .pure _
  | succ turns ih =>
      unfold drive
      refine .get_bind (fun p => .ite ?_ ?_) fun _ => rfl
      · refine Discreet.beginRound.bind fun _ => (visits x).bind fun x => ?_
        exact .ite (.pure _) ((Discreet.onRota _).bind fun _ => ih x)
      · cases Alarm.nextTime? (activity.alarms x) with
        | none => exact .pure _
        | some time =>
            dsimp only
            cases cancelledBy? cancelAt time with
            | some cancelTime => exact .pure _
            | none =>
                have advances : Discreet (advanceTo time (Alarm.dueAt time (activity.alarms x))) :=
                  (Discreet.onBoard _).bind fun _ => .onRota _
                exact advances.bind fun _ => ih x

end Activity

end AddressExpansion
