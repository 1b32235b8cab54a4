/-! # Shortest decimals

A double stands for every real number that rounds to it. Its shortest decimal has the fewest
digits among the decimals in that interval and, of those, is the nearest to the double itself.
All of this is exact arithmetic on natural numbers.
-/

namespace AddressExpansion

/-- A positive double `mantissa · 2 ^ exponent`. `narrowBelow` says that the next double below is
    only half as far away as the next one above. -/
structure Binary64 where
  mantissa : Nat
  exponent : Int
  narrowBelow : Bool
  deriving Repr, DecidableEq, BEq

/-- A decimal `digits · 10 ^ exponent`. -/
structure Decimal where
  digits : Nat
  exponent : Int
  deriving Repr, DecidableEq, BEq

/-- The leading bit of a mantissa, which is not written in the bits of a double. -/
def hiddenBit : Nat := Nat.pow 2 52

/-- The parts of the finite double with these bits, without its sign; `none` for zero. -/
def Binary64.ofBits? (bits : UInt64) : Option Binary64 :=
  let fraction := bits.toNat % hiddenBit
  let field := bits.toNat / hiddenBit % 2048
  if field = 0 then
    if fraction = 0 then none else some ⟨fraction, -1074, false⟩
  else some ⟨hiddenBit + fraction, (field : Int) - 1075, fraction = 0 && 1 < field⟩

/-- A quotient of natural numbers equal to `n · 2 ^ two · 10 ^ ten`. -/
def scaledQuotient (n : Nat) (two ten : Int) : Nat × Nat :=
  (n * Nat.pow 2 two.toNat * Nat.pow 10 ten.toNat, Nat.pow 2 (-two).toNat * Nat.pow 10 (-ten).toNat)

/-- The exponent `e` for which `10 ^ e ≤ x < 10 ^ (e + 1)`, for a double `x`. -/
def Binary64.magnitude (x : Binary64) : Int :=
  let (num, den) := scaledQuotient x.mantissa x.exponent 0
  if den ≤ num then ((Nat.toDigits 10 (num / den)).length : Int) - 1
  else
    match (List.range 330).find? fun j => den ≤ num * Nat.pow 10 j with
    | some j => -(j : Int)
    | none => -330

/-- The multiple of `10 ^ ten` that is nearest to `x` among those that round to `x`. Only the two
    neighbours of `x` can be; of two equally near ones the even one is taken. -/
def Binary64.onGrid? (x : Binary64) (ten : Int) : Option Nat :=
  let scaled (quarters : Nat) := scaledQuotient quarters (x.exponent - 2) (-ten)
  let (value, unit) := scaled (4 * x.mantissa)
  let (low, _) := scaled (4 * x.mantissa - if x.narrowBelow then 1 else 2)
  let (high, _) := scaled (4 * x.mantissa + 2)
  let rounds (k : Nat) : Bool :=
    if x.mantissa % 2 = 0 then low ≤ k * unit && k * unit ≤ high
    else low < k * unit && k * unit < high
  let below := value / unit
  let above := below + 1
  match rounds below, rounds above with
  | false, false => none
  | true, false => some below
  | false, true => some above
  | true, true =>
    let toBelow := value - below * unit
    let toAbove := above * unit - value
    if toBelow < toAbove then some below
    else if toAbove < toBelow then some above
    else if below % 2 = 0 then some below
    else some above

/-- The decimal without the zeros at its end. `n` bounds their number. -/
def Decimal.stripZeros : (n : Nat) → Decimal → Decimal
  | 0, d => d
  | n + 1, d =>
    if d.digits ≠ 0 ∧ d.digits % 10 = 0 then stripZeros n ⟨d.digits / 10, d.exponent + 1⟩ else d

/-- The shortest decimal that rounds to a double. Seventeen digits always suffice. -/
def Binary64.shortest (x : Binary64) : Decimal :=
  let onGrid (count : Nat) : Option Decimal :=
    let ten := x.magnitude - count
    (x.onGrid? ten).map fun digits => Decimal.stripZeros 18 ⟨digits, ten⟩
  ((List.range 17).findSome? onGrid).getD ⟨x.mantissa, 0⟩

end AddressExpansion
