/-! # Digits

Numbers as lists of places in a base, the most significant first, and the digits that write a
place in a base up to sixteen.
-/

namespace AddressExpansion.Text

/-- The last `count` places of a number in a base. -/
def placesOf (base : Nat) : (count : Nat) → Nat → List Nat
  | 0, _ => []
  | count + 1, n => placesOf base count (n / base) ++ [n % base]

def ofPlaces (base : Nat) (places : List Nat) : Nat :=
  places.foldl (fun n place => n * base + place) 0

/-- The value of a digit of either case in a base up to sixteen. -/
def digitValue? (base : Nat) (c : Char) : Option Nat :=
  let n :=
    if '0' ≤ c ∧ c ≤ '9' then c.toNat - '0'.toNat
    else if 'a' ≤ c ∧ c ≤ 'f' then c.toNat - 'a'.toNat + 10
    else if 'A' ≤ c ∧ c ≤ 'F' then c.toNat - 'A'.toNat + 10
    else base
  if n < base then some n else none

/-- The number that digits write in a base up to sixteen. -/
def numberOf? (base : Nat) (cs : List Char) : Option Nat :=
  (cs.mapM (digitValue? base)).map (ofPlaces base)

end AddressExpansion.Text
