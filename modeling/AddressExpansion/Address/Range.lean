import AddressExpansion.Address.Printer

/-! # Usable ranges

A block that is written by its own first address shows the addresses that hosts can use: all but
the two ends, or both addresses of a block that has only two.
-/

namespace AddressExpansion

namespace Block

/-- Whether a block is written by its first address and has more than that one. -/
def isProper (b : Block) : Bool :=
  b.length < b.address.family.width && b.address.value = b.firstValue

/-- How many addresses at each end of a block are not for hosts. -/
def margin (b : Block) : Nat :=
  if 1 < b.freeBits then 1 else 0

/-- A block has room for its margins and something between them. -/
theorem two_mul_margin_lt_size (b : Block) : 2 * b.margin < b.size := by
  unfold margin
  split
  case isTrue h =>
    have : Nat.pow 2 2 ≤ b.size := Nat.pow_le_pow_right (by omega) h
    simp only [Nat.pow_eq] at this
    omega
  case isFalse => exact b.size_pos

def firstUsable (b : Block) : Ip :=
  ⟨b.address.family, b.firstValue + b.margin, by
    have := b.two_mul_margin_lt_size
    have := b.lastValue_lt
    unfold lastValue at this
    omega⟩

def lastUsable (b : Block) : Ip :=
  ⟨b.address.family, b.lastValue - b.margin, Nat.lt_of_le_of_lt (Nat.sub_le ..) b.lastValue_lt⟩

end Block

/-- A literal as a range of usable addresses. Hosts, blocks of one address and blocks written by
    another address than their first stay as they are. -/
def Address.writeRange : Address → List Char
  | .host ip => ip.write
  | .network b =>
    if b.isProper then b.firstUsable.write ++ '-' :: b.lastUsable.write else b.write

def Address.rangeText (a : Address) : String :=
  String.ofList a.writeRange

end AddressExpansion
