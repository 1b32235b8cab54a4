import AddressExpansion.Message
import AddressExpansion.Switchboard

/-! # Work

Work is done in rounds. In a round everything that can go on is visited, and a visit takes it as
far as it goes at this time. A round has an allowance of actions: taking a line and meeting the
end of a wait are one action each. What finds the allowance used up stays as it is, and its bell
rings after the round.
-/

namespace AddressExpansion

/-- The number of actions in a round. -/
def roundAllowance : Nat := 128

/-- What is kept while work goes on. -/
structure Progress where
  board : Switchboard
  rota : Rota := {}
  /-- The number of actions that are left in this round. -/
  allowance : Nat := 0
  /-- Whether decisions are traced. -/
  tracing : Bool := false
  log : Array Message := #[]

/-- A message is added to the log; a trace is, if decisions are traced. -/
def Progress.say (p : Progress) (message : Message) : Progress :=
  { p with log := if message.isTrace && !p.tracing then p.log else p.log.push message }

/-- A piece of work, which keeps its progress. -/
abbrev Work := StateM Progress

namespace Work

/-- Adds a message to the log, unless it is a trace that nobody asked for. -/
def say (message : Message) : Work Unit :=
  modify (·.say message)

/-- Reports what was found out in a scope. -/
def report (scope : Scope) (finding : Finding) : Work Unit :=
  say (.traced scope.item scope.depth finding)

/-- Whether an action is left. If none is, the bell rings after the round. -/
def mayAct (bell : Bell) : Work Bool := do
  if (← get).allowance = 0 then
    modify fun p => { p with rota := p.rota.putOff bell }
    return false
  return true

def act : Work Unit :=
  modify fun p => { p with allowance := p.allowance - 1 }

def time : Work Nat :=
  return (← get).board.now

def onBoard (f : Switchboard → Switchboard) : Work Unit :=
  modify fun p => { p with board := f p.board }

def onRota (f : Rota → Rota) : Work Unit :=
  modify fun p => { p with rota := f p.rota }

/-- Changes the switchboard and rings the bell that this calls for. -/
def handOver (f : Switchboard → Option Bell × Switchboard) : Work Unit :=
  modify fun p =>
    let (bell?, board) := f p.board
    { p with board, rota := bell?.elim p.rota p.rota.ring }

/-- Begins a round: the main bell is answered, and the allowance is whole again. -/
def beginRound : Work Unit :=
  modify fun p => { p with rota := { p.rota with rang := false }, allowance := roundAllowance }

/-- Ends a round: what was put off rings. -/
def endRound : Work Unit :=
  onRota Rota.ringLater

end Work

end AddressExpansion
