import AddressExpansion.Address.Document
import AddressExpansion.Atom
import AddressExpansion.Format

/-! # Rendered results

The three shapes of a result: the atoms themselves, their distinct addresses, or those addresses
as usable ranges.
-/

namespace AddressExpansion

inductive Rendered where
  | raw (atoms : List Atom)
  | ips (addresses : List Address)
  | ranges (texts : List String)
  deriving Repr, DecidableEq

namespace Rendered

/-- The atoms of all items, in the order of the items. Atoms of different items stay apart even
    if they are equal. -/
def merge (perItem : List (List Atom)) : List Atom :=
  perItem.flatten

/-- Every address once, in the order of first occurrence. -/
def flatten (atoms : List Atom) : List Address :=
  distinct (Atom.addressesOf atoms)

/-- Atoms in the shape of a format. -/
def ofAtoms (atoms : List Atom) : Format → Rendered
  | .raw => .raw atoms
  | .ips => .ips (flatten atoms)
  | .ranges => .ranges (distinct ((flatten atoms).map Address.rangeText))

def strings? : Rendered → Option (List String)
  | .raw _ => none
  | .ips addresses => some (addresses.map Address.text)
  | .ranges texts => some texts

end Rendered

/-- An atom as a record, its comment left out if there is none. -/
def Atom.toValue (atom : Atom) : Json.Value :=
  .object <|
    ("ip", .array (atom.addresses.map Address.toValue)) ::
      match atom.comment with
      | none => []
      | some comment => [("comment", .string comment)]

/-- A result as data, which is again valid input. -/
def Rendered.toValue : Rendered → Json.Value
  | .raw atoms => .array (atoms.map Atom.toValue)
  | .ips addresses => .array (addresses.map Address.toValue)
  | .ranges texts => .array (texts.map .string)

end AddressExpansion
