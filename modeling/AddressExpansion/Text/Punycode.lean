/-! # Punycode

The writing of a text in letters, digits and hyphens. What is ASCII anyway stands in front; after
the last hyphen come numbers, each of which says which character to insert next and where. The
numbers are written to base 36, the lowest digit first, and how large the last digit of a number
may be depends on the numbers before it.
-/

namespace AddressExpansion.Text.Punycode

/-- The value of a digit. Letters come before figures. -/
def digit? (c : Char) : Option Nat :=
  if 'a' ≤ c ∧ c ≤ 'z' then some (c.toNat - 'a'.toNat)
  else if 'A' ≤ c ∧ c ≤ 'Z' then some (c.toNat - 'A'.toNat)
  else if '0' ≤ c ∧ c ≤ '9' then some (c.toNat - '0'.toNat + 26)
  else none

/-- The bound below which a digit is the last of its number, after `digits` digits. -/
def lastBelow (bias digits : Nat) : Nat :=
  max 1 (min 26 (36 * (digits + 1) - bias))

/-- The bias that a scaled number leads to. -/
def biasOf (delta bias : Nat) : Nat :=
  if 455 < delta then biasOf (delta / 35) (bias + 36) else bias + 36 * delta / (delta + 38)
termination_by delta
decreasing_by exact Nat.div_lt_self (by omega) (by omega)

structure Decoding where
  /-- The text. -/
  text : List Char
  /-- The character that the next number counts from. -/
  code : Nat := 128
  /-- The place that the next number counts from. -/
  place : Nat := 0
  bias : Nat := 72
  /-- The part of a number that was read, and the weight of its next digit. -/
  sum : Nat := 0
  weight : Nat := 1
  /-- The number of its digits that were read. -/
  digits : Nat := 0

namespace Decoding

/-- Inserts the character that a number stands for. Places are counted through the text once for
    each character. -/
def insert (d : Decoding) (number : Nat) : Option Decoding :=
  let places := d.text.length + 1
  let index := d.place + number
  let code := d.code + index / places
  let scaled := if d.place = 0 then number / 700 else number / 2
  if code.isValidChar then
    some
      { text := d.text.insertIdx (index % places) (Char.ofNat code)
        code
        place := index % places + 1
        bias := biasOf (scaled + scaled / places) 0 }
  else none

/-- Reads one digit. -/
def read (d : Decoding) (c : Char) : Option Decoding := do
  let digit ← digit? c
  let sum := d.sum + digit * d.weight
  let bound := lastBelow d.bias d.digits
  if digit < bound then d.insert sum
  else return { d with sum, weight := d.weight * (36 - bound), digits := d.digits + 1 }

end Decoding

/-- The text that is written so; none if nothing is. -/
def decode? (written : List Char) : Option (List Char) := do
  let numbers := (written.reverse.takeWhile (· ≠ '-')).reverse
  let plain := written.take (written.length - numbers.length - 1)
  let d ← numbers.foldlM Decoding.read { text := plain }
  if d.digits = 0 then return d.text else none

def digitChar (digit : Nat) : Char :=
  Char.ofNat (if digit < 26 then 'a'.toNat + digit else '0'.toNat + (digit - 26))

def writeNumber (bias digits number : Nat) : List Char :=
  let bound := lastBelow bias digits
  if number < bound then [digitChar number]
  else
    digitChar (bound + (number - bound) % (36 - bound)) ::
      writeNumber bias (digits + 1) ((number - bound) / (36 - bound))
termination_by number
decreasing_by
  have : 1 ≤ lastBelow bias digits := Nat.le_max_left ..
  exact Nat.lt_of_le_of_lt (Nat.div_le_self ..) (by omega)

structure Encoding where
  numbers : List Char := []
  /-- The places passed since the last number. -/
  passed : Nat := 0
  bias : Nat := 72
  /-- The number of characters that stand in the text already. -/
  placed : Nat

namespace Encoding

/-- Passes one character while the characters of a code are written: earlier ones are in the text
    already, and one of this code is written as a number. -/
def pass (code : Nat) (e : Encoding) (c : Char) : Encoding :=
  if c.toNat < code then { e with passed := e.passed + 1 }
  else if c.toNat = code then
    let scaled := if e.numbers = [] then e.passed / 700 else e.passed / 2
    { numbers := e.numbers ++ writeNumber e.bias 0 e.passed
      passed := 0
      bias := biasOf (scaled + scaled / (e.placed + 1)) 0
      placed := e.placed + 1 }
  else e

/-- Writes all characters of a code, given the first code that was not written yet. -/
def writeCode (text : List Char) (next code : Nat) (e : Encoding) : Encoding :=
  let e := { e with passed := e.passed + (code - next) * (e.placed + 1) }
  let e := text.foldl (pass code) e
  { e with passed := e.passed + 1 }

/-- Writes the characters of ascending codes. -/
def writeCodes (text : List Char) (next : Nat) : List Nat → Encoding → Encoding
  | [], e => e
  | code :: codes, e => writeCodes text (code + 1) codes (e.writeCode text next code)

end Encoding

/-- The codes beyond ASCII in a text, ascending, each once. -/
def codesOf (text : List Char) : List Nat :=
  (((text.map Char.toNat).filter (128 ≤ ·)).mergeSort (· ≤ ·)).eraseDups

def encode (text : List Char) : List Char :=
  let plain := text.filter (·.toNat < 128)
  let front := if plain = [] then [] else plain ++ ['-']
  let e := Encoding.writeCodes text 128 (codesOf text) { placed := plain.length }
  front ++ e.numbers

end AddressExpansion.Text.Punycode
