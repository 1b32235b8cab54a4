import AddressExpansion.Address.Range
import AddressExpansion.Text.Quoted

/-! # Atoms

An atom is one unit of the result: distinct addresses in the order in which they were found, with
an optional comment. There is always at least one address. A result is a list of atoms, in the
order of the items that they come from.
-/

namespace AddressExpansion

/-- The first occurrences, in order. -/
def distinct {α : Type} [DecidableEq α] : List α → List α
  | [] => []
  | a :: as => a :: (distinct as).filter (· ≠ a)

theorem mem_distinct {α : Type} [DecidableEq α] {a : α} {as : List α} :
    a ∈ distinct as ↔ a ∈ as := by
  induction as with
  | nil => simp [distinct]
  | cons b bs ih =>
    simp only [distinct, List.mem_cons, List.mem_filter, ih, decide_eq_true_eq]
    by_cases h : a = b <;> simp [h]

theorem nodup_distinct {α : Type} [DecidableEq α] (as : List α) : (distinct as).Nodup := by
  induction as with
  | nil => simp [distinct]
  | cons b bs ih =>
    simp only [distinct, List.nodup_cons, List.mem_filter, decide_eq_true_eq]
    exact ⟨fun h => h.2 rfl, ih.sublist List.filter_sublist⟩

/-- Distinct addresses with a comment. -/
structure Atom where
  addresses : List Address
  comment : Option String
  ne_nil : addresses ≠ []
  nodup : addresses.Nodup
  deriving Repr, DecidableEq

namespace Atom

/-- The atom of the given addresses, repeated ones dropped; none if there is no address. -/
def ofAddresses? (addresses : List Address) (comment : Option String) : Option Atom :=
  if h : distinct addresses = [] then none
  else some ⟨distinct addresses, comment, h, nodup_distinct addresses⟩

def single (address : Address) (comment : String) : Atom :=
  ⟨[address], some comment, by simp, by simp⟩

def addressesOf (atoms : List Atom) : List Address :=
  atoms.flatMap addresses

/-- Some atoms put together under one comment; none if there is no atom. -/
def gather? (atoms : List Atom) (comment : Option String) : Option Atom :=
  ofAddresses? (addressesOf atoms) comment

/-- The atom as traces show it. -/
def shown (atom : Atom) : String :=
  "Atom \x7b addresses: " ++ Text.bracketed (atom.addresses.map Address.tagged) ++
    ", comment: " ++ Text.quotedOption atom.comment ++ " \x7d"

end Atom

end AddressExpansion
