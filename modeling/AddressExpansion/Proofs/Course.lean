import Mathlib.Logic.Relation
import AddressExpansion.Proofs.Work

/-! # The course of an activity

An activity takes turns: a round of visits, or a move of the clock. The moments of its course are
the states between turns and those that a round passes through. Main statements: whatever a drive
comes to is a moment of the course (`course_drive`), and a time of cancellation changes nothing
about the moments before it (`drive_cancelled`).
-/

namespace AddressExpansion

def Progress.ringAll (p : Progress) (bells : List Bell) : Progress :=
  p.onRota (bells.foldl Rota.ring)

def Progress.begun (p : Progress) : Progress :=
  { p with rota := { p.rota with rang := false }, allowance := roundAllowance }

/-- The progress when the clock has moved and the alarms for its time have rung. -/
def Progress.advancedTo (p : Progress) (time : Nat) (alarms : List Alarm) : Progress :=
  (p.onBoard (·.atTime time)).ringAll ((Alarm.dueAt time alarms).map Alarm.bell)

theorem Alarm.mem_dueAt {time : Nat} {alarms : List Alarm} {alarm : Alarm} :
    alarm ∈ dueAt time alarms ↔ alarm ∈ alarms ∧ alarm.time ≤ time := by
  simp [dueAt, List.mem_mergeSort]

namespace Activity

variable {α : Type}

def round (activity : Activity α) (x : α) (p : Progress) : α × Progress :=
  (activity.visit x).run p.begun

theorem run_drive (activity : Activity α) (cancelAt : Option Nat) (turns : Nat) (x : α)
    (p : Progress) :
    (activity.drive cancelAt (turns + 1) x).run p =
      if p.rota.rang then
        if activity.isOver (activity.round x p).1 then
          ((.ended, (activity.round x p).1), (activity.round x p).2)
        else
          (activity.drive cancelAt turns (activity.round x p).1).run
            ((activity.round x p).2.onRota Rota.ringLater)
      else
        match Alarm.nextTime? (activity.alarms x) with
        | none => ((.stalled, x), p)
        | some time =>
          match cancelledBy? cancelAt time with
          | some cancelTime => ((.cancelled cancelTime, x), p)
          | none =>
            (activity.drive cancelAt turns x).run (p.advancedTo time (activity.alarms x)) := by
  rw [drive, Work.run_get_bind]
  by_cases rang : p.rota.rang
  · rw [if_pos rang, if_pos rang, Work.run_bind, Work.run_bind]
    change (if activity.isOver (activity.round x p).1 then _ else _ : Work (Halt × α)).run _ = _
    by_cases finished : activity.isOver (activity.round x p).1
    · rw [if_pos finished, if_pos finished]
      rfl
    · rw [if_neg finished, if_neg finished]
      rfl
  · rw [if_neg rang, if_neg rang]
    change (match Alarm.nextTime? (activity.alarms x) with
      | none => _
      | some time => _ : Work (Halt × α)).run p = _
    cases Alarm.nextTime? (activity.alarms x) with
    | none => rfl
    | some time =>
        cases cancelled : cancelledBy? cancelAt time with
        | some cancelTime =>
            simp only [cancelled]
            rfl
        | none =>
            have rings : ∀ (alarms : List Alarm) (rota : Rota),
                alarms.foldl (fun rota alarm => rota.ring alarm.bell) rota =
                  (alarms.map Alarm.bell).foldl Rota.ring rota :=
              fun alarms rota => List.foldl_map.symm
            simp only [cancelled]
            rw [Work.run_bind]
            unfold advanceTo
            simp only [rings]
            rfl

section Turns

variable {activity : Activity α} {cancelAt : Option Nat} {turns time : Nat} {x : α} {p : Progress}

theorem run_drive_over (rang : p.rota.rang = true)
    (final : activity.isOver (activity.round x p).1 = true) :
    (activity.drive cancelAt (turns + 1) x).run p =
      ((.ended, (activity.round x p).1), (activity.round x p).2) := by
  rw [run_drive, if_pos rang, if_pos final]

end Turns

/-! ## Moments -/

structure Moment (α : Type) where
  state : α
  progress : Progress
  /-- What the round that is going on comes to; none between rounds. -/
  goal : Option (α × Progress) := none

def Moment.board (m : Moment α) : Switchboard :=
  m.progress.board

/-- Whether nothing can go on at a moment, so that the clock moves next. -/
def Moment.Silent (m : Moment α) : Prop :=
  m.goal = none ∧ m.progress.rota.rang = false

/-- Whether the round that is going on is the last one. -/
def Moment.IsLast (activity : Activity α) (m : Moment α) : Prop :=
  ∃ goal, m.goal = some goal ∧ activity.isOver goal.1

/-- What comes next, given the steps that visits are made of. -/
inductive Next (activity : Activity α) (step : α × Progress → α × Progress → Prop) :
    Moment α → Moment α → Prop
  | begin {x p} (rang : p.rota.rang) :
      Next activity step ⟨x, p, none⟩ ⟨x, p.begun, some (activity.round x p)⟩
  | step {x p y q goal} (here : step (x, p) (y, q))
      (ahead : Relation.ReflTransGen step (y, q) goal) :
      Next activity step ⟨x, p, some goal⟩ ⟨y, q, some goal⟩
  | rest {x p} (going : activity.isOver x = false) :
      Next activity step ⟨x, p, some (x, p)⟩ ⟨x, p.onRota Rota.ringLater, none⟩
  | clock {x p time} (silent : p.rota.rang = false)
      (next : Alarm.nextTime? (activity.alarms x) = some time) :
      Next activity step ⟨x, p, none⟩ ⟨x, p.advancedTo time (activity.alarms x), none⟩

def Course (activity : Activity α) (step : α × Progress → α × Progress → Prop) :
    Moment α → Moment α → Prop :=
  Relation.ReflTransGen (Next activity step)

variable {activity : Activity α} {step : α × Progress → α × Progress → Prop} {m m' : Moment α}
  {x : α} {p : Progress}

theorem Course.ahead {here goal : α × Progress} (ahead : Relation.ReflTransGen step here goal) :
    Course activity step ⟨here.1, here.2, some goal⟩ ⟨goal.1, goal.2, some goal⟩ := by
  induction ahead using Relation.ReflTransGen.head_induction_on with
  | refl => exact .refl
  | head first ahead ih => exact .head (.step first ahead) ih

theorem Next.isLast (next : Next activity step m m') (last : m.IsLast activity) :
    m'.IsLast activity := by
  obtain ⟨goal, same, finished⟩ := last
  cases next with
  | begin | clock => cases same
  | step => exact ⟨goal, same, finished⟩
  | rest going =>
      obtain rfl := Option.some.inj same
      rw [going] at finished
      cases finished

/-- What holds between turns holds whenever no round goes on, and of what a round leaves. -/
def Moment.Keeps (activity : Activity α) (Rests : α → Progress → Prop) (m : Moment α) : Prop :=
  match m.goal with
  | none => Rests m.state m.progress
  | some goal => activity.isOver goal.1 = false → Rests goal.1 (goal.2.onRota Rota.ringLater)

theorem Next.keeps {Rests : α → Progress → Prop} (next : Next activity step m m')
    (visited : ∀ {x p}, Rests x p → activity.isOver (activity.round x p).1 = false →
      Rests (activity.round x p).1 ((activity.round x p).2.onRota Rota.ringLater))
    (advanced : ∀ {x p time}, Rests x p → p.rota.rang = false →
      Alarm.nextTime? (activity.alarms x) = some time →
        Rests x (p.advancedTo time (activity.alarms x)))
    (here : m.Keeps activity Rests) : m'.Keeps activity Rests := by
  cases next with
  | begin => exact visited here
  | step => exact here
  | rest going => exact here going
  | clock silent next => exact advanced here silent next

theorem Course.keeps {I : Moment α → Prop} (course : Course activity step m m')
    (keeps : ∀ {m m'}, Next activity step m m' → I m → I m') (start : I m) : I m' := by
  induction course with
  | refl => exact start
  | tail _ next ih => exact keeps next ih

section Drive

variable (visits : ∀ x p, Relation.ReflTransGen step (x, p.begun) (activity.round x p))
include visits

theorem course_round (x : α) (rang : p.rota.rang) :
    Course activity step ⟨x, p, none⟩
      ⟨(activity.round x p).1, (activity.round x p).2, some (activity.round x p)⟩ :=
  .head (.begin rang) (Course.ahead (visits x p))

/-- Whatever a drive comes to is a moment of the course. -/
theorem course_drive (cancelAt : Option Nat) (turns : Nat) (x : α) (p : Progress) :
    ∃ goal, Course activity step ⟨x, p, none⟩
      ⟨((activity.drive cancelAt turns x).run p).1.2,
        ((activity.drive cancelAt turns x).run p).2, goal⟩ := by
  induction turns generalizing x p with
  | zero => exact ⟨none, .refl⟩
  | succ turns ih =>
      rw [run_drive]
      by_cases rang : p.rota.rang
      · rw [if_pos rang]
        have round := course_round visits x rang
        by_cases finished : activity.isOver (activity.round x p).1
        · rw [if_pos finished]
          exact ⟨_, round⟩
        · rw [if_neg finished]
          obtain ⟨goal, later⟩ := ih (activity.round x p).1
            ((activity.round x p).2.onRota Rota.ringLater)
          exact ⟨goal, (round.tail (.rest (by simpa using finished))).trans later⟩
      · rw [if_neg rang]
        cases next : Alarm.nextTime? (activity.alarms x) with
        | none => exact ⟨none, .refl⟩
        | some time =>
            cases cancelled : cancelledBy? cancelAt time with
            | some cancelTime =>
                simp only [cancelled]
                exact ⟨none, .refl⟩
            | none =>
                simp only [cancelled]
                obtain ⟨goal, later⟩ := ih x (p.advancedTo time (activity.alarms x))
                exact ⟨goal, .head (.clock (by simpa using rang) next) later⟩

/-- A drive with a time of cancellation does what it would do without, or breaks off where the
    clock would move to that time or past it. -/
theorem drive_cancelled (now_eq : ∀ x p, (activity.round x p).2.board.now = p.board.now)
    (cancelTime turns : Nat) (x : α) (p : Progress) (early : p.board.now < cancelTime) :
    let whole := (activity.drive none turns x).run p
    let cut := (activity.drive (some cancelTime) turns x).run p
    cut = whole ∧ whole.2.board.now < cancelTime ∨
      ∃ y q time left, Course activity step ⟨x, p, none⟩ ⟨y, q, none⟩ ∧
        q.board.now < cancelTime ∧ q.rota.rang = false ∧
        Alarm.nextTime? (activity.alarms y) = some time ∧ cancelTime ≤ time ∧
        cut = ((.cancelled cancelTime, y), q) ∧
        whole = (activity.drive none left y).run (q.advancedTo time (activity.alarms y)) := by
  induction turns generalizing x p with
  | zero => exact .inl ⟨rfl, early⟩
  | succ turns ih =>
      rw [run_drive, run_drive]
      by_cases rang : p.rota.rang
      · rw [if_pos rang, if_pos rang]
        have round := course_round visits x rang
        by_cases finished : activity.isOver (activity.round x p).1
        · rw [if_pos finished, if_pos finished]
          exact .inl ⟨rfl, now_eq x p ▸ early⟩
        · rw [if_neg finished, if_neg finished]
          have rest := round.tail (.rest (by simpa using finished))
          have early' : ((activity.round x p).2.onRota Rota.ringLater).board.now < cancelTime :=
            Nat.lt_of_le_of_lt (Nat.le_of_eq (now_eq x p)) early
          refine (ih _ _ early').imp_right ?_
          rintro ⟨y, q, time, left, later, others⟩
          exact ⟨y, q, time, left, rest.trans later, others⟩
      · rw [if_neg rang, if_neg rang]
        have silent : p.rota.rang = false := by simpa using rang
        cases next : Alarm.nextTime? (activity.alarms x) with
        | none => exact .inl ⟨rfl, early⟩
        | some time =>
            have never : cancelledBy? none time = none := rfl
            by_cases late : cancelTime ≤ time
            · have cancels : cancelledBy? (some cancelTime) time = some cancelTime := by
                simp [cancelledBy?, late]
              simp only [cancels, never]
              exact .inr ⟨x, p, time, turns, .refl, early, silent, next, late, rfl, rfl⟩
            · have goesOn : cancelledBy? (some cancelTime) time = none := by
                simp [cancelledBy?, Option.filter_some, late]
              simp only [goesOn, never]
              have moves : Course activity step ⟨x, p, none⟩
                  ⟨x, p.advancedTo time (activity.alarms x), none⟩ := .single (.clock silent next)
              refine (ih x (p.advancedTo time (activity.alarms x))
                (Nat.lt_of_not_le late)).imp_right ?_
              rintro ⟨y, q, time', left, later, others⟩
              exact ⟨y, q, time', left, moves.trans later, others⟩

end Drive

end Activity

end AddressExpansion
