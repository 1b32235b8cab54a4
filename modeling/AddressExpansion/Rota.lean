/-! # Bells and rosters

Whatever cannot go on leaves a bell that rings when it can. The few parts of a small join share
the bell of the whole. Each of the many parts of a crowd has a bell of its own: parts that rang
stand on the roster of the crowd in the order in which they rang, and the first of them to ring
after a visit to the crowd rings the bell of the crowd.

The rota is the state of all bells. Rings that are put off until a round is over are made then,
the last one put off first.
-/

namespace AddressExpansion

/-- What a visit is asked for with. -/
inductive Bell where
  /-- The bell of everything that is going on. -/
  | main
  /-- The bell of one part of a crowd, which stands where the outer bell is. -/
  | part (roster index : Nat) (outer : Bell)
  deriving Repr, DecidableEq, BEq

/-- Which parts of a crowd are to be visited. -/
structure Roster where
  /-- The parts that rang, the first to ring first. -/
  rung : List Nat
  /-- Whether the next ring also rings the bell of the crowd. -/
  armed : Bool := false
  deriving Repr, DecidableEq

namespace Roster

/-- A roster of `total` parts. To begin with, each of them is to be visited. -/
def ofParts (total : Nat) : Roster :=
  { rung := List.range total }

/-- Enters a part that rang, once. -/
def enter (roster : Roster) (index : Nat) : Roster :=
  if index ∈ roster.rung then roster
  else { roster with rung := roster.rung ++ [index], armed := false }

end Roster

structure Rota where
  rosters : Array Roster := #[]
  /-- Whether the main bell rang. -/
  rang : Bool := false
  /-- The bells whose ring is put off, the last one first. -/
  later : List Bell := []
  deriving Repr

namespace Rota

def update (rota : Rota) (id : Nat) (f : Roster → Roster) : Rota :=
  { rota with rosters := rota.rosters.modify id f }

/-- Adds a roster; its number is the number of rosters before it. -/
def add (rota : Rota) (roster : Roster) : Rota :=
  { rota with rosters := rota.rosters.push roster }

def ring (rota : Rota) : Bell → Rota
  | .main => { rota with rang := true }
  | .part id index outer =>
    match rota.rosters[id]? with
    | none => rota
    | some roster =>
      let rota' := rota.update id (·.enter index)
      if roster.armed ∧ index ∉ roster.rung then rota'.ring outer else rota'

/-- Puts off a ring until the round is over. -/
def putOff (rota : Rota) (bell : Bell) : Rota :=
  { rota with later := bell :: rota.later }

/-- Makes the rings that were put off. -/
def ringLater (rota : Rota) : Rota :=
  rota.later.foldl ring { rota with later := [] }

def isRung (rota : Rota) (id index : Nat) : Bool :=
  match rota.rosters[id]? with
  | none => false
  | some roster => index ∈ roster.rung

end Rota

end AddressExpansion
