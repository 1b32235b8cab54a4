import AddressExpansion.Stage

/-! # Rounds

An activity goes on in rounds. While the main bell has rung, the next round begins at the same
time. Otherwise the clock moves to the next time for which an alarm is set, and the alarms for that
time ring in the order in which they were set. A cancellation comes before the alarms for its time.
-/

namespace AddressExpansion

/-- Something that goes on in rounds. -/
structure Activity (α : Type) where
  visit : α → Work α
  isOver : α → Bool
  alarms : α → List Alarm

inductive Halt where
  | ended
  /-- The time of cancellation came first. -/
  | cancelled (time : Nat)
  /-- The turns were used up, or nothing was left to wait for. Neither ever happens. -/
  | stalled
  deriving Repr, DecidableEq, BEq

namespace Alarm

def nextTime? (alarms : List Alarm) : Option Nat :=
  (alarms.map time).min?

/-- The alarms for a time, in the order in which they were set. -/
def dueAt (time : Nat) (alarms : List Alarm) : List Alarm :=
  (alarms.filter (·.time ≤ time)).mergeSort fun a b => a.number ≤ b.number

end Alarm

namespace Activity

open Work

/-- The time of cancellation, if it comes no later than `time`. -/
def cancelledBy? (cancelAt : Option Nat) (time : Nat) : Option Nat :=
  cancelAt.filter (· ≤ time)

/-- Moves the clock and rings the bells of alarms. -/
def advanceTo (time : Nat) (alarms : List Alarm) : Work Unit := do
  onBoard (·.atTime time)
  onRota fun rota => alarms.foldl (fun rota alarm => rota.ring alarm.bell) rota

/-- Takes turns until the activity halts. A turn is a round or a move of the clock. -/
def drive {α : Type} (activity : Activity α) (cancelAt : Option Nat) :
    (turns : Nat) → α → Work (Halt × α)
  | 0, x => return (.stalled, x)
  | turns + 1, x => do
    if (← get).rota.rang then
      beginRound
      let x ← activity.visit x
      if activity.isOver x then return (.ended, x)
      endRound
      activity.drive cancelAt turns x
    else
      match Alarm.nextTime? (activity.alarms x) with
      | none => return (.stalled, x)
      | some time =>
        match cancelledBy? cancelAt time with
        | some cancelTime => return (.cancelled cancelTime, x)
        | none =>
          advanceTo time (Alarm.dueAt time (activity.alarms x))
          activity.drive cancelAt turns x

end Activity

namespace Progress

/-- Nothing done yet, and everything to be visited. -/
def initial (lines : Nat) : Progress :=
  { board := { free := lines }, rota := { rang := true } }

end Progress

end AddressExpansion
