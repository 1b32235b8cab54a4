import AddressExpansion.Work

/-! # Crowds

A crowd is many parts that go on side by side. A visit to it visits the parts whose bells rang, in
the order in which they rang, until no part is left that rang, or the crowd is settled. It breaks
off, to be continued in the next round, when every part was visited since a part last ended, or
when two parts have rung again while they were visited.
-/

namespace AddressExpansion

/-- The parts of a crowd, as visits see them. -/
structure Crowd (α : Type) where
  /-- The number of the roster. -/
  id : Nat
  /-- The bell of the whole crowd. -/
  bell : Bell
  visit : Bell → α → Work α
  isOver : α → Bool
  /-- Whether the outcome of the crowd is known. -/
  isSettled : List α → Bool

namespace Crowd

open Work

variable {α : Type}

def enroll (total : Nat) : Work Nat := do
  let id := (← get).rota.rosters.size
  onRota (·.add (.ofParts total))
  return id

/-- Closes a roster: no ring is passed on any more. -/
def dismiss (id : Nat) : Work Unit :=
  onRota (·.update id fun roster => { roster with armed := false })

def partBell (crowd : Crowd α) (index : Nat) : Bell :=
  .part crowd.id index crowd.bell

def pending? (crowd : Crowd α) (parts : List α) (index : Nat) : Option α :=
  parts[index]?.filter (!crowd.isOver ·)

/-- The next part to be visited, taken off the roster. Parts that are over are passed by. -/
def next? (crowd : Crowd α) (parts : List α) : Work (Option (Nat × α)) := do
  let rung := match (← get).rota.rosters[crowd.id]? with
    | none => []
    | some roster => roster.rung.dropWhile fun index => (crowd.pending? parts index).isNone
  onRota (·.update crowd.id fun roster => { roster with rung := rung.tail })
  return rung.head?.bind fun index => (crowd.pending? parts index).map (index, ·)

def busy (crowd : Crowd α) (parts : List α) : Nat :=
  parts.countP (!crowd.isOver ·)

/-- Visits parts until one of them ends, which gives true, or the visit is to break off. At most
    `left` more parts are visited; `again` is the number of those that rang while visited. -/
def stretch (crowd : Crowd α) : (left again : Nat) → List α → Work (Bool × List α)
  | 0, _, parts => do
    onRota (·.ring crowd.bell)
    return (false, parts)
  | left + 1, again, parts => do
    match ← crowd.next? parts with
    | none => return (false, parts)
    | some (index, part) =>
      let part ← crowd.visit (crowd.partBell index) part
      let parts := parts.set index part
      if crowd.isOver part then return (true, parts)
      let again := if (← get).rota.isRung crowd.id index then again + 1 else again
      if 2 ≤ again then
        onRota (·.ring crowd.bell)
        return (false, parts)
      crowd.stretch left again parts

/-- Visits parts until the crowd is settled or the visit is to break off. At most `ends` parts
    end before that. -/
def attendUpTo (crowd : Crowd α) : (ends : Nat) → List α → Work (List α)
  | 0, parts => return parts
  | ends + 1, parts => do
    if crowd.isSettled parts then return parts
    onRota (·.update crowd.id fun roster => { roster with armed := true })
    let (ended, parts) ← crowd.stretch (crowd.busy parts) 0 parts
    if ended then crowd.attendUpTo ends parts else return parts

/-- The same with the parts that end taken one at a time: once one has ended and no action is left,
    the visit breaks off as well. -/
def attendOneByOne (crowd : Crowd α) : (ends : Nat) → List α → Work (List α)
  | 0, parts => return parts
  | ends + 1, parts => do
    if crowd.isSettled parts then return parts
    onRota (·.update crowd.id fun roster => { roster with armed := true })
    let (ended, parts) ← crowd.stretch (crowd.busy parts) 0 parts
    if !ended then return parts
    if (← get).allowance = 0 then
      onRota (·.ring crowd.bell)
      return parts
    crowd.attendOneByOne ends parts

/-- Takes the parts of a crowd as far as they go in this visit. -/
def attend (crowd : Crowd α) (parts : List α) : Work (List α) :=
  crowd.attendUpTo (parts.length + 1) parts

end Crowd

end AddressExpansion
