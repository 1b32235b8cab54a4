import AddressExpansion.Rota

/-! # The switchboard

Lookups go through a switchboard with a fixed number of lines. A line that is free is taken at
once. Otherwise a ticket is drawn, and a line that falls free is handed to the oldest ticket that
waits, whose bell rings. So a line is free, in the hands of a ticket, or in use by a lookup, and
none is free while a ticket waits.

Time is a clock in milliseconds that stands still while anything can move.
-/

namespace AddressExpansion

/-- A lookup that was started. -/
structure Call where
  name : String
  start : Nat
  deriving Repr, DecidableEq, BEq

/-- A place in the queue for a line. -/
structure Ticket where
  number : Nat
  /-- Rings when a line is handed to the ticket. -/
  bell : Bell
  deriving Repr, DecidableEq, BEq

structure Switchboard where
  /-- The time. -/
  now : Nat := 0
  /-- The number of lines that nobody has. -/
  free : Nat
  /-- The tickets that wait for a line, the oldest first. -/
  waiting : List Ticket := []
  /-- The tickets that have a line but did not call yet. -/
  served : List Nat := []
  /-- The number of tickets drawn. -/
  drawn : Nat := 0
  /-- The number of alarms set. -/
  alarms : Nat := 0
  /-- The lookups that were started, in order. -/
  calls : Array Call := #[]
  /-- The number of lookups under way. -/
  inFlight : Nat := 0
  /-- The largest number of lookups that were under way at once. -/
  peak : Nat := 0
  deriving Repr

namespace Switchboard

/-- Draws a ticket; its number is the number of tickets drawn before it. -/
def draw (board : Switchboard) (bell : Bell) : Switchboard :=
  { board with
    waiting := board.waiting ++ [⟨board.drawn, bell⟩]
    drawn := board.drawn + 1 }

def take (board : Switchboard) : Switchboard :=
  { board with free := board.free - 1 }

def isServed (board : Switchboard) (ticket : Nat) : Bool :=
  ticket ∈ board.served

/-- Takes the line that a ticket has. -/
def claim (board : Switchboard) (ticket : Nat) : Switchboard :=
  { board with served := board.served.erase ticket }

/-- Gives a line back: to the oldest ticket that waits, whose bell is to ring, or to nobody. -/
def release (board : Switchboard) : Option Bell × Switchboard :=
  match board.waiting with
  | [] => (none, { board with free := board.free + 1 })
  | ticket :: waiting =>
    (some ticket.bell, { board with waiting, served := ticket.number :: board.served })

def call (board : Switchboard) (name : String) : Switchboard :=
  { board with
    calls := board.calls.push ⟨name, board.now⟩
    inFlight := board.inFlight + 1
    peak := max board.peak (board.inFlight + 1) }

/-- Ends a lookup, which gives its line back. -/
def hangUp (board : Switchboard) : Option Bell × Switchboard :=
  { board with inFlight := board.inFlight - 1 }.release

/-- Gives up a ticket, and the line that it may have. -/
def discard (board : Switchboard) (ticket : Nat) : Option Bell × Switchboard :=
  if board.isServed ticket then (board.claim ticket).release
  else (none, { board with waiting := board.waiting.filter (·.number ≠ ticket) })

def atTime (board : Switchboard) (time : Nat) : Switchboard :=
  { board with now := time }

end Switchboard

end AddressExpansion
