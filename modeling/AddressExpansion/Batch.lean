import AddressExpansion.Rounds
import AddressExpansion.Task

/-! # Batches

A batch is a list of names that are looked up together through one switchboard, each for itself: a
name that fails does not stop the others. All of them ask for a line at once, in order, and a name
that gets none waits for its turn with a ticket.

A few names are visited from left to right in every round. Many names are a crowd.
-/

namespace AddressExpansion

/-- One name of a batch: still being looked up, or over since some time. -/
inductive Slot where
  | looking (name : String) (stage : Stage)
  | ended (name : String) (time : Nat)
  deriving Repr, DecidableEq, BEq

namespace Slot

def isOver : Slot → Bool
  | looking .. => false
  | ended .. => true

def visit (engine : Engine) (bell : Bell) : Slot → Work Slot
  | ended name time => return ended name time
  | looking name stage => do
    match ← stage.visit name ((engine.answer name).wait? engine.timeout) bell with
    | some stage => return looking name stage
    | none => return ended name (← Work.time)

def alarms (bell : Bell) : Slot → List Alarm
  | looking _ stage => stage.alarms bell
  | ended .. => []

end Slot

namespace Batch

/-- How the results of a crowd of names are taken. -/
inductive Manner where
  /-- All that there are, by whatever waits for the names together. -/
  | together
  /-- One at a time, by a reader that goes on in the next round when the allowance is used up. -/
  | oneByOne
  deriving Repr, DecidableEq, BEq

/-- The bell that a name leaves: its own if the names are a crowd with a roster. -/
def bell (roster? : Option Nat) (index : Nat) : Bell :=
  match roster? with
  | none => .main
  | some roster => .part roster index .main

def isOver (slots : List Slot) : Bool :=
  slots.all Slot.isOver

def crowd (engine : Engine) (roster : Nat) : Crowd Slot :=
  { id := roster
    bell := .main
    visit := Slot.visit engine
    isOver := Slot.isOver
    isSettled := isOver }

/-- Takes the names of a batch as far as they go in this round. -/
def visit (engine : Engine) (manner : Manner) (roster? : Option Nat) (slots : List Slot) :
    Work (List Slot) :=
  match roster?, manner with
  | none, _ => slots.mapM (Slot.visit engine .main)
  | some roster, .together => (crowd engine roster).attend slots
  | some roster, .oneByOne => (crowd engine roster).attendOneByOne (slots.length + 1) slots

def activity (engine : Engine) (manner : Manner) (roster? : Option Nat) : Activity (List Slot) :=
  { visit := visit engine manner roster?
    isOver
    alarms := fun slots =>
      (slots.mapIdx fun index slot => slot.alarms (bell roster? index)).flatten }

/-- A number of turns that no batch of `names` names uses up. -/
def turns (names : Nat) : Nat :=
  256 * (names + 1) * (names + 1)

/-- Opens a roster for the names if they are many. -/
def enroll (names : Nat) : Work (Option Nat) := do
  if names ≤ joinLimit then return none
  return some (← Crowd.enroll names)

def run (engine : Engine) (manner : Manner) (names : List String) : Work (List Slot) := do
  let roster? ← enroll names.length
  let (_, slots) ← (activity engine manner roster?).drive none (turns names.length)
    (names.map (.looking · .idle))
  return slots

end Batch

/-- What came of a name of a batch: its outcome and when it was known. -/
structure Lookup where
  name : String
  outcome : Except Failure (List Ip)
  time : Nat

/-- The outcomes of the names of a batch that are over, in order, and the largest number of
    lookups that were under way at once. -/
def Engine.lookupAll (engine : Engine) (names : List String)
    (manner : Batch.Manner := .oneByOne) : List Lookup × Nat :=
  let (slots, progress) := (Batch.run engine manner names).run (.initial (max 1 engine.maxLookups))
  let lookups := slots.filterMap fun
    | .ended name time =>
      let outcome := (engine.answer name).outcome engine.timeout
      some ⟨name, outcome.mapError (.resolution name), time⟩
    | .looking .. => none
  (lookups, progress.board.peak)

end AddressExpansion
