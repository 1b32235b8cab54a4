import AddressExpansion.Json.Number
import AddressExpansion.Table
import AddressExpansion.Text.Digits

/-! # Reading JSON

A strict reader: only the white space, escapes and numerals of the grammar, nothing after the
value, and at most `maxDepth` nested arrays and objects. A value that is only skipped is held to
the same grammar, but its depth, the size of its numbers and the pairing of its surrogates are
not looked at.

Readers take the rest of the text and give what they read with the rest after it. An array or
object is read by means of the reader for the values inside it, so that the depth left is what
recursion goes by.
-/

namespace AddressExpansion.Json

/-- Reads something from the front of a text. -/
abbrev Reader (α : Type) := List Char → Option (α × List Char)

/-- The deepest nesting of arrays and objects. -/
def maxDepth : Nat := 127

/-- Whether a value is read for its content or only passed over. -/
inductive Care where
  | keep
  | skip
  deriving Repr, DecidableEq, BEq

/-- White space between the parts of a document. -/
def isGap (c : Char) : Bool :=
  c = ' ' || c = '\t' || c = '\n' || c = '\r'

def skipGap (cs : List Char) : List Char :=
  cs.dropWhile isGap

/-- The number that four hexadecimal digits write. -/
def hexFour? (a b c d : Char) : Option Nat :=
  Text.numberOf? 16 [a, b, c, d]

/-- A number that UTF-16 keeps for the halves of a pair. -/
def isSurrogate (n : Nat) : Bool :=
  0xD800 ≤ n && n ≤ 0xDFFF

/-- The character of a leading and a trailing surrogate. -/
def joinSurrogates? (lead trail : Nat) : Option Char :=
  if 0xD800 ≤ lead && lead ≤ 0xDBFF && 0xDC00 ≤ trail && trail ≤ 0xDFFF then
    some (Char.ofNat ((lead - 0xD800) * 0x400 + (trail - 0xDC00) + 0x10000))
  else none

/-- What the letter after a backslash stands for, unless it is `u`. -/
def letterEscape? (c : Char) : Option Char :=
  if c = '"' then some '"'
  else if c = '\\' then some '\\'
  else if c = '/' then some '/'
  else if c = 'b' then some '\x08'
  else if c = 'f' then some '\x0c'
  else if c = 'n' then some '\n'
  else if c = 'r' then some '\r'
  else if c = 't' then some '\t'
  else none

/-- The characters of a string, after its opening quote and through its closing one. -/
def readChars (care : Care) : Reader (List Char)
  | [] => none
  | '"' :: rest => some ([], rest)
  | '\\' :: 'u' :: a :: b :: c :: d :: rest =>
    match hexFour? a b c d with
    | none => none
    | some n =>
      if isSurrogate n && care = .keep then
        match rest with
        | '\\' :: 'u' :: e :: f :: g :: h :: rest =>
          match (hexFour? e f g h).bind (joinSurrogates? n) with
          | none => none
          | some x => (readChars care rest).map fun (xs, rest) => (x :: xs, rest)
        | _ => none
      else (readChars care rest).map fun (xs, rest) => (Char.ofNat n :: xs, rest)
  | '\\' :: c :: rest =>
    match letterEscape? c with
    | none => none
    | some x => (readChars care rest).map fun (xs, rest) => (x :: xs, rest)
  | c :: rest =>
    if c < ' ' || c = '\\' then none
    else (readChars care rest).map fun (xs, rest) => (c :: xs, rest)

def readString (care : Care) : Reader String
  | '"' :: rest => (readChars care rest).map fun (xs, rest) => (String.ofList xs, rest)
  | _ => none

def readDigits : Reader (List Char) := fun cs =>
  let digits := cs.takeWhile Char.isDigit
  if digits = [] then none else some (digits, cs.dropWhile Char.isDigit)

def readFraction : Reader (Option (List Char))
  | '.' :: rest => (readDigits rest).map fun (digits, rest) => (some digits, rest)
  | cs => some (none, cs)

/-- The sign and digits of an exponent. -/
def readSigned : Reader Int
  | '-' :: rest => (readDigits rest).map fun (digits, rest) => (-(digitsValue digits : Int), rest)
  | '+' :: rest => (readDigits rest).map fun (digits, rest) => ((digitsValue digits : Int), rest)
  | cs => (readDigits cs).map fun (digits, rest) => ((digitsValue digits : Int), rest)

/-- An exponent, if its mark is next. -/
def readExponent : Reader (Option Int)
  | c :: rest =>
    if c = 'e' || c = 'E' then (readSigned rest).map fun (e, rest) => (some e, rest)
    else some (none, c :: rest)
  | [] => some (none, [])

/-- A written number. More than one digit before the point may not begin with zero. -/
def readNumeral : Reader Numeral := fun cs => do
  let (negative, cs) := match cs with
    | '-' :: rest => (true, rest)
    | _ => (false, cs)
  let (whole, cs) ← readDigits cs
  if whole.head? = some '0' && whole.length ≠ 1 then none
  let (fraction, cs) ← readFraction cs
  let (exponent, cs) ← readExponent cs
  return (⟨negative, whole, fraction, exponent⟩, cs)

/-- A number. A skipped one may be too large. -/
def readNumber (care : Care) : Reader Number := fun cs => do
  let (numeral, rest) ← readNumeral cs
  match numeral.number?, care with
  | some n, _ => return (n, rest)
  | none, .skip => return (.integer 0, rest)
  | none, .keep => none

/-- One entry or more with commas between them, through the closing bracket. At most `n`. -/
def readEntries {α : Type} (entry : Reader α) (close : Char) : (n : Nat) → Reader (List α)
  | 0, _ => none
  | n + 1, cs =>
    match entry cs with
    | none => none
    | some (x, rest) =>
      match skipGap rest with
      | [] => none
      | c :: rest =>
        if c = ',' then (readEntries entry close n rest).map fun (xs, rest) => (x :: xs, rest)
        else if c = close then some ([x], rest)
        else none

/-- Any number of entries, after the opening bracket and through the closing one. -/
def readEnclosed {α : Type} (entry : Reader α) (close : Char) : Reader (List α) := fun cs =>
  match skipGap cs with
  | [] => none
  | c :: rest =>
    if c = close then some ([], rest) else readEntries entry close (rest.length + 1) (c :: rest)

/-- A field of an object. How its value is read may depend on its name. -/
def readField {α : Type} (care : Care) (value : String → Reader α) : Reader (String × α) :=
  fun cs => do
    let (name, cs) ← readString care (skipGap cs)
    match skipGap cs with
    | ':' :: cs =>
      let (v, cs) ← value name cs
      return ((name, v), cs)
    | _ => none

/-- A value, given the reader for the values inside it, if there may be any. -/
def readValueWith (care : Care) (inner : Option (Reader Value)) : Reader Value := fun cs =>
  match skipGap cs with
  | 'n' :: 'u' :: 'l' :: 'l' :: rest => some (.null, rest)
  | 't' :: 'r' :: 'u' :: 'e' :: rest => some (.bool true, rest)
  | 'f' :: 'a' :: 'l' :: 's' :: 'e' :: rest => some (.bool false, rest)
  | '"' :: rest => (readChars care rest).map fun (xs, rest) => (.string (String.ofList xs), rest)
  | '[' :: rest => do
    let (items, rest) ← readEnclosed (← inner) ']' rest
    return (.array items, rest)
  | '\x7b' :: rest => do
    let inner ← inner
    let (fields, rest) ← readEnclosed (readField care fun _ => inner) '\x7d' rest
    return (.object (Table.ofEntries fields), rest)
  | cs => (readNumber care cs).map fun (n, rest) => (.number n, rest)

/-- A value with at most `depth` nested arrays and objects. -/
def readValue (care : Care) : (depth : Nat) → Reader Value
  | 0, cs => readValueWith care none cs
  | depth + 1, cs => readValueWith care (some (readValue care depth)) cs

/-- Passes over a value of any depth. -/
def skipValue : Reader Unit := fun cs =>
  (readValue .skip cs.length cs).map fun (_, rest) => ((), rest)

/-- Reads a whole document: nothing but white space may follow. -/
def readDocument {α : Type} (read : Reader α) (text : String) : Option α := do
  let (x, rest) ← read text.toList
  if skipGap rest = [] then some x else none

def Value.parse? (text : String) : Option Value :=
  readDocument (readValue .keep maxDepth) text

end AddressExpansion.Json
