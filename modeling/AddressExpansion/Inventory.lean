import AddressExpansion.Json.Reader

/-! # Inventory

The names that are defined beside the input: groups of host tokens, and variables with a value.
A document gives both as an object, or as a list of the two in this order.
-/

namespace AddressExpansion

/-- Groups and variables. -/
structure Inventory where
  groups : Table (List String) := []
  vars : Table Json.Value := []
  deriving Repr, BEq, Inhabited

namespace Inventory

/-- The members of a group, in their order. -/
def group? (inventory : Inventory) (name : String) : Option (List String) :=
  Table.find? inventory.groups name

def var? (inventory : Inventory) (name : String) : Option Json.Value :=
  Table.find? inventory.vars name

/-- Adds a group, or replaces it. -/
def withGroup (inventory : Inventory) (name : String) (members : List String) : Inventory :=
  { inventory with groups := Table.insert name members inventory.groups }

def withVariable (inventory : Inventory) (name : String) (value : Json.Value) : Inventory :=
  { inventory with vars := Table.insert name value inventory.vars }

/-- Members of a group: an array of strings. -/
def readMembers : Json.Reader (List String) := fun cs =>
  match Json.skipGap cs with
  | '[' :: rest => Json.readEnclosed (fun cs => Json.readString .keep (Json.skipGap cs)) ']' rest
  | _ => none

/-- Groups: an object of members. Of two groups with one name the later counts, but the earlier
    has to be a group as well. -/
def readGroups : Json.Reader (Table (List String)) := fun cs =>
  match Json.skipGap cs with
  | '\x7b' :: rest => do
    let (fields, rest) ←
      Json.readEnclosed (Json.readField .keep fun _ => readMembers) '\x7d' rest
    return (.ofEntries fields, rest)
  | _ => none

/-- Variables: an object of any values. -/
def readVars (depth : Nat) : Json.Reader (Table Json.Value) := fun cs => do
  match ← Json.readValue .keep depth cs with
  | (.object fields, rest) => return (fields, rest)
  | _ => none

inductive Part where
  | groups (groups : Table (List String))
  | vars (vars : Table Json.Value)
  /-- A field of another name, whose value is passed over. -/
  | unknown

def readPart (depth : Nat) (name : String) : Json.Reader Part := fun cs =>
  if name = "groups" then (readGroups cs).map fun (groups, rest) => (.groups groups, rest)
  else if name = "vars" then (readVars depth cs).map fun (vars, rest) => (.vars vars, rest)
  else (Json.skipValue cs).map fun (_, rest) => (.unknown, rest)

/-- The one of some values, or else a default; none if there are several. -/
def only? {α : Type} (default : α) : List α → Option α
  | [] => some default
  | [value] => some value
  | _ => none

/-- The inventory of parts, of which groups and variables may be given once each. -/
def ofParts? (parts : List Part) : Option Inventory := do
  let groups ← only? [] <| parts.filterMap fun | .groups groups => some groups | _ => none
  let vars ← only? [] <| parts.filterMap fun | .vars vars => some vars | _ => none
  return { groups, vars }

/-- The variables after the groups in a list, and the end of the list. -/
def readListEnd (depth : Nat) : Json.Reader (Table Json.Value) := fun cs =>
  match Json.skipGap cs with
  | ']' :: rest => some ([], rest)
  | ',' :: rest => do
    let (vars, rest) ← readVars depth rest
    match Json.skipGap rest with
    | ']' :: rest => return (vars, rest)
    | _ => none
  | _ => none

def read (depth : Nat) : Json.Reader Inventory := fun cs =>
  match Json.skipGap cs with
  | '\x7b' :: rest => do
    let (fields, rest) ← Json.readEnclosed (Json.readField .keep (readPart depth)) '\x7d' rest
    return (← ofParts? (fields.map (·.2)), rest)
  | '[' :: rest =>
    match Json.skipGap rest with
    | ']' :: rest => some ({}, rest)
    | rest => do
      let (groups, rest) ← readGroups rest
      let (vars, rest) ← readListEnd depth rest
      return ({ groups, vars }, rest)
  | _ => none

def parse? (document : String) : Option Inventory :=
  Json.readDocument (read (Json.maxDepth - 1)) document

end Inventory

end AddressExpansion
