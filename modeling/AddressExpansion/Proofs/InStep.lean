import Mathlib.Data.List.Forall2
import AddressExpansion.Proofs.Crowd
import AddressExpansion.Proofs.Course

/-! # Work in step

Two pieces of work are in step if they do the same but for what they say: from progress that differs
in nothing but the log they come to such progress again, and to related results. Main statements:
crowds are attended to in step if their parts are visited in step (`InStep.attend`), and so are
activities driven (`drive_inStep`).
-/

namespace AddressExpansion

/-- Whether progress differs in nothing but the log. -/
structure Progress.Alike (p q : Progress) : Prop where
  board : p.board = q.board
  rota : p.rota = q.rota
  allowance : p.allowance = q.allowance

namespace Progress.Alike

variable {p q : Progress}

theorem refl (p : Progress) : p.Alike p :=
  ⟨rfl, rfl, rfl⟩

theorem symm (alike : p.Alike q) : q.Alike p :=
  ⟨alike.board.symm, alike.rota.symm, alike.allowance.symm⟩

theorem trans {r : Progress} (first : p.Alike q) (second : q.Alike r) : p.Alike r :=
  ⟨first.board.trans second.board, first.rota.trans second.rota,
    first.allowance.trans second.allowance⟩

theorem say (p : Progress) (message : Message) : (p.say message).Alike p :=
  ⟨rfl, rfl, rfl⟩

theorem sayAll (p : Progress) (messages : List Message) : (p.sayAll messages).Alike p :=
  ⟨p.sayAll_board messages, p.sayAll_rota messages, p.sayAll_allowance messages⟩

theorem onBoard (alike : p.Alike q) (f : Switchboard → Switchboard) :
    (p.onBoard f).Alike (q.onBoard f) :=
  ⟨congrArg f alike.board, alike.rota, alike.allowance⟩

theorem onRota (alike : p.Alike q) (f : Rota → Rota) : (p.onRota f).Alike (q.onRota f) :=
  ⟨alike.board, congrArg f alike.rota, alike.allowance⟩

theorem handOver (alike : p.Alike q) (f : Switchboard → Option Bell × Switchboard) :
    (p.handOver f).Alike (q.handOver f) where
  board := congrArg (fun board => (f board).2) alike.board
  rota := by rw [handOver_rota, handOver_rota, alike.board, alike.rota]
  allowance := alike.allowance

theorem begun (alike : p.Alike q) : p.begun.Alike q.begun where
  board := alike.board
  rota := by rw [Progress.begun, Progress.begun, alike.rota]
  allowance := rfl

theorem advancedTo (alike : p.Alike q) (time : Nat) (alarms : List Alarm) :
    (p.advancedTo time alarms).Alike (q.advancedTo time alarms) :=
  (alike.onBoard (·.atTime time)).onRota
    (((Alarm.dueAt time alarms).map Alarm.bell).foldl Rota.ring)

end Progress.Alike

/-- Whether two pieces of work do the same but for what they say, and come to related results. -/
def InStep {α β : Type} (R : α → β → Prop) (x : Work α) (y : Work β) : Prop :=
  ∀ p q : Progress, p.Alike q → R (x.run p).1 (y.run q).1 ∧ (x.run p).2.Alike (y.run q).2

namespace InStep

open Work

variable {α β γ δ : Type} {R : α → β → Prop} {S : γ → δ → Prop} {x : Work α} {y : Work β}

theorem pure {a : α} {b : β} (related : R a b) : InStep R (Pure.pure a) (Pure.pure b) :=
  fun _ _ alike => ⟨related, alike⟩

theorem bind {f : α → Work γ} {g : β → Work δ} (first : InStep R x y)
    (next : ∀ a b, R a b → InStep S (f a) (g b)) : InStep S (x >>= f) (y >>= g) := by
  intro p q alike
  obtain ⟨related, alike⟩ := first p q alike
  exact next _ _ related _ _ alike

theorem bind_eq {z : Work α} {f : α → Work γ} {g : α → Work δ} (first : InStep Eq x z)
    (next : ∀ a, InStep S (f a) (g a)) : InStep S (x >>= f) (z >>= g) :=
  first.bind fun a _ same => same ▸ next a

theorem get_bind {f : Progress → Work γ} {g : Progress → Work δ}
    (next : ∀ p q : Progress, p.Alike q → InStep S (f p) (g q)) :
    InStep S (get >>= f) (get >>= g) :=
  fun p q alike => next p q alike p q alike

theorem imp {T : α → β → Prop} (inStep : InStep R x y) (weaker : ∀ {a b}, R a b → T a b) :
    InStep T x y :=
  fun p q alike => (inStep p q alike).imp_left weaker

theorem onBoard (f : Switchboard → Switchboard) : InStep Eq (Work.onBoard f) (Work.onBoard f) :=
  fun _ _ alike => ⟨rfl, alike.onBoard f⟩

theorem onRota (f : Rota → Rota) : InStep Eq (Work.onRota f) (Work.onRota f) :=
  fun _ _ alike => ⟨rfl, alike.onRota f⟩

theorem handOver (f : Switchboard → Option Bell × Switchboard) :
    InStep Eq (Work.handOver f) (Work.handOver f) :=
  fun _ _ alike => ⟨rfl, alike.handOver f⟩

theorem act : InStep Eq act act :=
  fun _ _ alike => ⟨rfl, ⟨alike.board, alike.rota, congrArg (· - 1) alike.allowance⟩⟩

theorem mayAct (bell : Bell) : InStep Eq (mayAct bell) (mayAct bell) := by
  intro p q alike
  rw [run_mayAct, run_mayAct, alike.allowance]
  split
  · exact ⟨rfl, alike.onRota (·.putOff bell)⟩
  · exact ⟨rfl, alike⟩

theorem time : InStep Eq time time := by
  intro p q alike
  exact ⟨congrArg Switchboard.now alike.board, alike⟩

theorem ite {c : Prop} [Decidable c] {z : Work α} {w : Work β} (yes : InStep R x y)
    (no : InStep R z w) : InStep R (if c then x else z) (if c then y else w) := by
  split
  · exact yes
  · exact no

/-- What is said before something is done makes no difference. -/
theorem of_said {z : Work α} {w : Work β} (inStep : InStep R z w)
    (said : ∀ p : Progress, ∃ p', p'.Alike p ∧ x.run p = z.run p')
    (said' : ∀ q : Progress, ∃ q', q'.Alike q ∧ y.run q = w.run q') : InStep R x y := by
  intro p q alike
  obtain ⟨p', before, run⟩ := said p
  obtain ⟨q', before', run'⟩ := said' q
  rw [run, run']
  exact inStep p' q' ((before.trans alike).trans before'.symm)

/-! ## Lookups -/

theorem await (bell : Bell) (ends : Nat) (alarm : Option Nat) :
    InStep Eq (Stage.await bell ends alarm) (Stage.await bell ends alarm) := by
  unfold Stage.await
  refine (mayAct bell).bind_eq fun may => ite (pure rfl) ?_
  refine time.bind_eq fun now => ite ?_ ?_
  · exact act.bind_eq fun _ => (handOver _).bind_eq fun _ => pure rfl
  · cases alarm with
    | some number => exact pure rfl
    | none =>
        refine get_bind fun p q alike => ?_
        rw [alike.board]
        exact (onBoard _).bind_eq fun _ => pure rfl

theorem call (name : String) (wait? : Option Nat) (bell : Bell) :
    InStep Eq (Stage.call name wait? bell) (Stage.call name wait? bell) := by
  unfold Stage.call
  refine (onBoard _).bind_eq fun _ => ?_
  cases wait? with
  | none => exact (handOver _).bind_eq fun _ => pure rfl
  | some wait => exact time.bind_eq fun now => await bell _ none

theorem visit (name : String) (wait? : Option Nat) (bell : Bell) (stage : Stage) :
    InStep Eq (stage.visit name wait? bell) (stage.visit name wait? bell) := by
  cases stage with
  | idle =>
      unfold Stage.visit
      refine (mayAct bell).bind_eq fun may => ite (pure rfl) ?_
      refine get_bind fun p q alike => ?_
      rw [alike.board]
      refine ite ?_ ?_
      · exact (onBoard _).bind_eq fun _ => pure rfl
      · exact act.bind_eq fun _ => (onBoard _).bind_eq fun _ => call name wait? bell
  | queued ticket =>
      unfold Stage.visit
      refine (mayAct bell).bind_eq fun may => ite (pure rfl) ?_
      refine get_bind fun p q alike => ?_
      rw [alike.board]
      refine ite (pure rfl) ?_
      exact act.bind_eq fun _ => (onBoard _).bind_eq fun _ => call name wait? bell
  | underway ends alarm => exact await bell ends alarm

theorem giveUp (stage : Stage) : InStep Eq stage.giveUp stage.giveUp := by
  cases stage with
  | idle => exact pure rfl
  | queued => exact handOver _
  | underway => exact handOver _

end InStep

/-! ## Crowds -/

theorem forall₂_getElem? {α β : Type} {R : α → β → Prop} {as : List α} {bs : List β}
    (each : List.Forall₂ R as bs) (index : Nat) : Option.Rel R as[index]? bs[index]? := by
  induction each generalizing index with
  | nil => exact .none
  | cons here _ ih =>
      cases index with
      | zero => exact .some here
      | succ index => exact ih index

theorem forall₂_set {α β : Type} {R : α → β → Prop} {as : List α} {bs : List β} {a : α} {b : β}
    (each : List.Forall₂ R as bs) (here : R a b) (index : Nat) :
    List.Forall₂ R (as.set index a) (bs.set index b) := by
  induction each generalizing index with
  | nil => exact .nil
  | cons first rest ih =>
      cases index with
      | zero => exact .cons here rest
      | succ index => exact .cons first (ih index)

namespace Crowd

variable {α β : Type} {R : α → β → Prop}

/-- Whether two crowds look the same from outside, and related parts are visited in step. -/
structure Alike (R : α → β → Prop) (crowd : Crowd α) (crowd' : Crowd β) : Prop where
  id : crowd.id = crowd'.id
  bell : crowd.bell = crowd'.bell
  isOver : ∀ {part part'}, R part part' → crowd.isOver part = crowd'.isOver part'
  isSettled : ∀ {parts parts'}, List.Forall₂ R parts parts' →
    crowd.isSettled parts = crowd'.isSettled parts'
  visit : ∀ {part part'} (bell : Bell), R part part' →
    InStep R (crowd.visit bell part) (crowd'.visit bell part')

theorem inStep_enroll (total : Nat) : InStep Eq (enroll total) (enroll total) := by
  refine InStep.get_bind fun p q alike => ?_
  rw [alike.rota]
  exact (InStep.onRota _).bind_eq fun _ => .pure rfl

theorem inStep_dismiss (id : Nat) : InStep Eq (dismiss id) (dismiss id) :=
  .onRota _

namespace Alike

variable {crowd : Crowd α} {crowd' : Crowd β} (alike : Alike R crowd crowd') {parts : List α}
  {parts' : List β}
include alike

theorem pending? (each : List.Forall₂ R parts parts') (index : Nat) :
    Option.Rel R (crowd.pending? parts index) (crowd'.pending? parts' index) := by
  unfold Crowd.pending?
  have found := forall₂_getElem? each index
  generalize parts[index]? = part?, parts'[index]? = part?' at found
  cases found with
  | none => exact .none
  | some here =>
      rw [Option.filter_some, Option.filter_some, alike.isOver here]
      split
      · exact .some here
      · exact .none

theorem rungParts_eq (each : List.Forall₂ R parts parts') {p q : Progress} (same : p.Alike q) :
    rungParts crowd parts p = rungParts crowd' parts' q := by
  have none : ∀ index,
      (crowd.pending? parts index).isNone = (crowd'.pending? parts' index).isNone := by
    intro index
    have found := alike.pending? each index
    generalize crowd.pending? parts index = part?, crowd'.pending? parts' index = part?' at found
    cases found <;> rfl
  unfold rungParts
  simp only [none, alike.id, same.rota]

theorem inStep_next? (each : List.Forall₂ R parts parts') :
    InStep (Option.Rel fun a b => a.1 = b.1 ∧ R a.2 b.2) (crowd.next? parts)
      (crowd'.next? parts') := by
  intro p q same
  rw [run_next?, run_next?]
  unfold taken
  rw [alike.rungParts_eq each same, alike.id]
  refine ⟨?_, same.onRota (·.update crowd'.id ({ · with rung := _ }))⟩
  cases (rungParts crowd' parts' q).head? with
  | none => exact .none
  | some index =>
      rw [Option.bind_some, Option.bind_some]
      have found := alike.pending? each index
      generalize crowd.pending? parts index = part?, crowd'.pending? parts' index = part?' at found
      cases found with
      | none => exact .none
      | some here => exact .some ⟨rfl, here⟩

theorem busy_eq (each : List.Forall₂ R parts parts') : crowd.busy parts = crowd'.busy parts' := by
  unfold Crowd.busy
  induction each with
  | nil => rfl
  | cons here _ ih => rw [List.countP_cons, List.countP_cons, ih, alike.isOver here]

theorem inStep_stretch (left again : Nat) (each : List.Forall₂ R parts parts') :
    InStep (fun x y => x.1 = y.1 ∧ List.Forall₂ R x.2 y.2) (crowd.stretch left again parts)
      (crowd'.stretch left again parts') := by
  induction left generalizing again parts parts' with
  | zero =>
      unfold Crowd.stretch
      rw [alike.bell]
      exact (InStep.onRota _).bind_eq fun _ => .pure ⟨rfl, each⟩
  | succ left ih =>
      unfold Crowd.stretch
      refine (alike.inStep_next? each).bind fun a b next => ?_
      cases next with
      | none => exact .pure ⟨rfl, each⟩
      | @some x y here =>
          obtain ⟨index, part⟩ := x
          obtain ⟨_, part'⟩ := y
          obtain ⟨rfl, here⟩ : index = _ ∧ R part part' := here
          have bell : crowd.partBell index = crowd'.partBell index := by
            rw [Crowd.partBell, Crowd.partBell, alike.id, alike.bell]
          dsimp only
          rw [bell]
          refine (alike.visit _ here).bind fun part part' here => ?_
          have each := forall₂_set each here index
          rw [alike.isOver here, alike.id, alike.bell]
          refine .ite (.pure ⟨rfl, each⟩) (InStep.get_bind fun p q same => ?_)
          rw [same.rota]
          refine .ite ((InStep.onRota _).bind_eq fun _ => .pure ⟨rfl, each⟩) ?_
          exact ih _ each

theorem inStep_attendUpTo (ends : Nat) (each : List.Forall₂ R parts parts') :
    InStep (List.Forall₂ R) (crowd.attendUpTo ends parts) (crowd'.attendUpTo ends parts') := by
  induction ends generalizing parts parts' with
  | zero => exact .pure each
  | succ ends ih =>
      unfold Crowd.attendUpTo
      rw [alike.isSettled each, alike.id, alike.busy_eq each]
      refine .ite (.pure each) ((InStep.onRota _).bind_eq fun _ => ?_)
      refine (alike.inStep_stretch _ 0 each).bind fun x y stretched => ?_
      obtain ⟨ended, others⟩ := x
      obtain ⟨_, others'⟩ := y
      obtain ⟨rfl, each⟩ : ended = _ ∧ List.Forall₂ R others others' := stretched
      exact .ite (ih each) (.pure each)

/-- Crowds are attended to in step if their parts are visited in step. -/
theorem inStep_attend (each : List.Forall₂ R parts parts') :
    InStep (List.Forall₂ R) (crowd.attend parts) (crowd'.attend parts') := by
  unfold Crowd.attend
  rw [each.length_eq]
  exact alike.inStep_attendUpTo _ each

end Alike

end Crowd

/-! ## Activities -/

namespace Activity

variable {α β : Type} {R : α → β → Prop}

/-- Whether related states of two activities look the same from outside and are visited in step. -/
structure Alike (R : α → β → Prop) (activity : Activity α) (activity' : Activity β) : Prop where
  isOver : ∀ {x y}, R x y → activity.isOver x = activity'.isOver y
  alarms : ∀ {x y}, R x y → activity.alarms x = activity'.alarms y
  visit : ∀ {x y}, R x y → InStep R (activity.visit x) (activity'.visit y)

/-- How two drives end in step. -/
def HaltedAlike (R : α → β → Prop) (x : (Halt × α) × Progress) (y : (Halt × β) × Progress) :
    Prop :=
  x.1.1 = y.1.1 ∧ R x.1.2 y.1.2 ∧ x.2.Alike y.2

/-- Activities are driven in step, whatever the numbers of turns are, as long as they are enough. -/
theorem drive_inStep {activity : Activity α} {activity' : Activity β}
    (alike : Alike R activity activity') (cancelAt : Option Nat) {turns turns' : Nat} {x : α}
    {y : β} {p q : Progress} (here : R x y) (same : p.Alike q)
    (enough : ((activity.drive cancelAt turns x).run p).1.1 ≠ .stalled)
    (enough' : ((activity'.drive cancelAt turns' y).run q).1.1 ≠ .stalled) :
    HaltedAlike R ((activity.drive cancelAt turns x).run p)
      ((activity'.drive cancelAt turns' y).run q) := by
  induction turns generalizing turns' x y p q with
  | zero => exact absurd rfl enough
  | succ turns ih =>
      cases turns' with
      | zero => exact absurd rfl enough'
      | succ turns' =>
          rw [run_drive] at enough enough' ⊢
          rw [run_drive]
          rw [same.rota] at enough ⊢
          by_cases rang : q.rota.rang
          · obtain ⟨visited, same⟩ := alike.visit here p.begun q.begun same.begun
            change R (activity.round x p).1 (activity'.round y q).1 at visited
            change (activity.round x p).2.Alike (activity'.round y q).2 at same
            rw [if_pos rang] at enough enough' ⊢
            rw [if_pos rang]
            rw [alike.isOver visited] at enough ⊢
            by_cases final : activity'.isOver (activity'.round y q).1
            · rw [if_pos final, if_pos final]
              exact ⟨rfl, visited, same⟩
            · rw [if_neg final] at enough enough' ⊢
              rw [if_neg final]
              exact ih visited (same.onRota Rota.ringLater) enough enough'
          · rw [if_neg rang] at enough enough' ⊢
            rw [if_neg rang]
            rw [alike.alarms here] at enough ⊢
            cases next : Alarm.nextTime? (activity'.alarms y) with
            | none =>
                rw [next] at enough'
                exact absurd rfl enough'
            | some time =>
                simp only [next] at enough enough' ⊢
                cases cancelled : cancelledBy? cancelAt time with
                | some cancelTime => exact ⟨rfl, here, same⟩
                | none =>
                    simp only [cancelled] at enough enough'
                    exact ih here (same.advancedTo time _) enough enough'

end Activity

end AddressExpansion
