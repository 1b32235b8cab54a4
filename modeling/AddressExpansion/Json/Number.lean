import AddressExpansion.Decimal.Shortest
import AddressExpansion.Json.Value

/-! # Number text

How a number is read from its written parts, and how it is written.

A numeral without point and exponent is an integer when it fits 64 bits, signed or unsigned. Any
other numeral is a double: its leading digits, as many as fit 64 bits, are scaled by a power of
ten, each step rounded once. A double is written with its shortest digits.
-/

namespace AddressExpansion.Json

/-- The parts of a written number: sign, digits before the point, digits after it, exponent. -/
structure Numeral where
  negative : Bool
  whole : List Char
  fraction : Option (List Char)
  exponent : Option Int
  deriving Repr, DecidableEq, BEq

def digitValue (c : Char) : Nat :=
  c.toNat - '0'.toNat

def digitsValue (cs : List Char) : Nat :=
  cs.foldl (fun n c => n * 10 + digitValue c) 0

/-- Appends digits to `n` up to the first that would leave 64 bits. Gives the number and how many
    digits were left over. -/
def appendDigits (n : Nat) : List Char → Nat × Nat
  | [] => (n, 0)
  | c :: rest =>
    let next := n * 10 + digitValue c
    if next < UInt64.size then appendDigits next rest else (n, rest.length + 1)

def powerOfTen (e : Nat) : Float :=
  Float.ofScientific 1 false e

/-- `n · 10 ^ e` in at most two roundings, below the normal range in at most three. `none` where
    the result would be infinite. -/
def scaleDouble? (n : Nat) (e : Int) : Option Float :=
  let x := n.toUInt64.toFloat
  if n = 0 then some 0.0
  else if 308 < e then none
  else if 0 ≤ e then
    let y := x * powerOfTen e.toNat
    if y.isInf then none else some y
  else if -308 ≤ e then some (x / powerOfTen (-e).toNat)
  else some (x / powerOfTen 308 / powerOfTen (min 308 (-e - 308).toNat))

/-- The double that a numeral stands for; `none` if it is too large. -/
def Numeral.double? (x : Numeral) : Option Number :=
  let (n, wholeLeft) := appendDigits 0 x.whole
  let fraction := x.fraction.getD []
  let (n, fractionLeft) := appendDigits n fraction
  let point : Int := (wholeLeft : Int) - ((fraction.length - fractionLeft : Nat) : Int)
  (scaleDouble? n (point + x.exponent.getD 0)).map fun y =>
    .double (if x.negative then -y else y).toBits

/-- The number that a numeral stands for; `none` if it is too large. Minus zero is a double. -/
def Numeral.number? (x : Numeral) : Option Number :=
  let n := digitsValue x.whole
  if x.fraction.isNone && x.exponent.isNone then
    if !x.negative && n < UInt64.size then some (.integer n)
    else if x.negative && 0 < n && n ≤ UInt64.size / 2 then some (.integer (-n))
    else x.double?
  else x.double?

/-- How a double is laid out: positional notation while the exponent of its first digit lies
    between `least` and `greatest`, else one digit before the point and a signed exponent. -/
structure DoubleLayout where
  least : Int
  greatest : Int
  deriving Repr, DecidableEq, BEq

/-- Positional from `0.00001` up to sixteen digits before the point. -/
def doubleLayout : DoubleLayout := ⟨-5, 15⟩

/-- Digits with a point after the first `n` of them, filled with zeros to at least one digit on
    each side. -/
def placePoint (digits : List Char) (n : Nat) : List Char :=
  digits.take n ++ List.replicate (n - digits.length) '0' ++ '.' ::
    (if digits.length ≤ n then ['0'] else digits.drop n)

def DoubleLayout.write (layout : DoubleLayout) (d : Decimal) : List Char :=
  let digits := Nat.toDigits 10 d.digits
  let e : Int := d.exponent + digits.length - 1
  if layout.least ≤ e && e ≤ layout.greatest then
    if e < 0 then ['0', '.'] ++ List.replicate (-e - 1).toNat '0' ++ digits
    else placePoint digits (e + 1).toNat
  else
    let fraction := if digits.length ≤ 1 then [] else '.' :: digits.drop 1
    digits.take 1 ++ fraction ++ ['e', if e < 0 then '-' else '+'] ++ Nat.toDigits 10 e.natAbs

def Number.write : Number → List Char
  | .integer n => (if n < 0 then ['-'] else []) ++ Nat.toDigits 10 n.natAbs
  | .double bits =>
    let sign := if UInt64.size / 2 ≤ bits.toNat then ['-'] else []
    match Binary64.ofBits? bits with
    | none => sign ++ ['0', '.', '0']
    | some x => sign ++ doubleLayout.write x.shortest

end AddressExpansion.Json
