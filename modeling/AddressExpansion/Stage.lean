import AddressExpansion.Work

/-! # Stages of a lookup

A lookup asks for a line, waits for its turn if there is none, calls, and waits for the end of the
call. It is over when no stage is left; then its line is given back.
-/

namespace AddressExpansion

/-- How far a lookup that is not over has come. -/
inductive Stage where
  /-- No line was asked for. -/
  | idle
  /-- Waiting for a line, with a ticket. -/
  | queued (ticket : Nat)
  /-- Under way, and over at this time. Once the end is waited for, an alarm is set; it has a
      number in the order of all alarms. -/
  | underway (ends : Nat) (alarm : Option Nat)
  deriving Repr, DecidableEq, BEq

structure Alarm where
  time : Nat
  /-- Of two alarms for one time the one with the lower number rings first. -/
  number : Nat
  bell : Bell
  deriving Repr, DecidableEq, BEq

namespace Stage

open Work

def alarms (bell : Bell) : Stage → List Alarm
  | underway ends (some number) => [⟨ends, number, bell⟩]
  | _ => []

/-- Waits for the end of a call that is under way. -/
def await (bell : Bell) (ends : Nat) (alarm : Option Nat) : Work (Option Stage) := do
  if !(← mayAct bell) then return some (.underway ends alarm)
  if ends ≤ (← time) then
    act
    handOver Switchboard.hangUp
    return none
  match alarm with
  | some number => return some (.underway ends number)
  | none =>
    let number := (← get).board.alarms
    onBoard fun board => { board with alarms := number + 1 }
    return some (.underway ends number)

/-- Calls on a line that was taken. The end of the call may have to be waited for. -/
def call (name : String) (wait? : Option Nat) (bell : Bell) : Work (Option Stage) := do
  onBoard (·.call name)
  match wait? with
  | none =>
    handOver Switchboard.hangUp
    return none
  | some wait => await bell ((← time) + wait) none

/-- Takes the lookup of a name as far as it goes now. -/
def visit (name : String) (wait? : Option Nat) (bell : Bell) : Stage → Work (Option Stage)
  | idle => do
    if !(← mayAct bell) then return some .idle
    let board := (← get).board
    if board.free = 0 then
      onBoard (·.draw bell)
      return some (.queued board.drawn)
    act
    onBoard Switchboard.take
    call name wait? bell
  | queued ticket => do
    if !(← mayAct bell) then return some (.queued ticket)
    if !(← get).board.isServed ticket then return some (.queued ticket)
    act
    onBoard (·.claim ticket)
    call name wait? bell
  | underway ends alarm => await bell ends alarm

def giveUp : Stage → Work Unit
  | idle => return
  | queued ticket => handOver (·.discard ticket)
  | underway .. => handOver Switchboard.hangUp

end Stage

end AddressExpansion
