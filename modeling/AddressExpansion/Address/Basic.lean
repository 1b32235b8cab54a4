import AddressExpansion.Text.Digits

/-! # Addresses

An IP address is a number below two to the width of its family. A block is an address with the
length of the part that its members share; the bits after that part are kept as written.
-/

namespace AddressExpansion

inductive Family where
  | v4
  | v6
  deriving Repr, DecidableEq, BEq

/-- The number of bits of an address. -/
def Family.width : Family → Nat
  | .v4 => 32
  | .v6 => 128

/-- A single address, as a number. -/
structure Ip where
  family : Family
  value : Nat
  value_lt : value < Nat.pow 2 family.width
  deriving Repr, DecidableEq

/-- An address block in the form `address/length`. -/
structure Block where
  address : Ip
  length : Nat
  length_le : length ≤ address.family.width
  deriving Repr, DecidableEq

/-- What a literal token denotes. -/
inductive Address where
  | host (ip : Ip)
  | network (block : Block)
  deriving Repr, DecidableEq

def Ip.ofNat? (family : Family) (value : Nat) : Option Ip :=
  if h : value < Nat.pow 2 family.width then some ⟨family, value, h⟩ else none

/-- The four bytes of an address of the first family. -/
def Ip.octets (ip : Ip) : List Nat :=
  Text.placesOf 256 4 ip.value

/-- The eight 16-bit groups of an address of the second family. -/
def Ip.groups (ip : Ip) : List Nat :=
  Text.placesOf 65536 8 ip.value

/-- The block of an address, if the length is not above its width. -/
def Block.of? (address : Ip) (length : Nat) : Option Block :=
  if h : length ≤ address.family.width then some ⟨address, length, h⟩ else none

namespace Block

/-- The number of bits in which the members of a block differ. -/
def freeBits (b : Block) : Nat :=
  b.address.family.width - b.length

def size (b : Block) : Nat :=
  Nat.pow 2 b.freeBits

def firstValue (b : Block) : Nat :=
  b.address.value / b.size * b.size

def lastValue (b : Block) : Nat :=
  b.firstValue + (b.size - 1)

theorem firstValue_le (b : Block) : b.firstValue ≤ b.address.value :=
  Nat.div_mul_le_self ..

theorem freeBits_le (b : Block) : b.freeBits ≤ b.address.family.width :=
  Nat.sub_le ..

theorem size_pos (b : Block) : 0 < b.size :=
  Nat.two_pow_pos _

theorem size_dvd_space (b : Block) : b.size ∣ Nat.pow 2 b.address.family.width :=
  Nat.pow_dvd_pow 2 b.freeBits_le

theorem lastValue_lt (b : Block) : b.lastValue < Nat.pow 2 b.address.family.width := by
  obtain ⟨count, hcount⟩ := b.size_dvd_space
  have hquot : b.address.value / b.size < count := by
    rw [Nat.div_lt_iff_lt_mul b.size_pos, Nat.mul_comm, ← hcount]
    exact b.address.value_lt
  have hblock := Nat.mul_le_mul_right b.size (Nat.succ_le_of_lt hquot)
  rw [Nat.succ_mul, Nat.mul_comm count, ← hcount] at hblock
  have := b.size_pos
  unfold lastValue firstValue
  omega

end Block

end AddressExpansion
