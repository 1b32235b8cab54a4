import AddressExpansion.Json.Number

/-! # Writing JSON

A value is written either compactly, without any space, or pretty, one entry a line with two
spaces for each level. Strings escape the quote, the backslash and the control characters below
the space, and nothing else.
-/

namespace AddressExpansion.Json

def hexDigit (n : Nat) : Char :=
  Nat.digitChar (n % 16)

/-- One character inside a string. -/
def escapeChar (c : Char) : List Char :=
  if c = '"' then ['\\', '"']
  else if c = '\\' then ['\\', '\\']
  else if c = '\n' then ['\\', 'n']
  else if c = '\r' then ['\\', 'r']
  else if c = '\t' then ['\\', 't']
  else if c = '\x08' then ['\\', 'b']
  else if c = '\x0c' then ['\\', 'f']
  else if c < ' ' then ['\\', 'u', '0', '0', hexDigit (c.toNat / 16), hexDigit c.toNat]
  else [c]

/-- A string between quotes. -/
def writeString (s : String) : List Char :=
  '"' :: s.toList.flatMap escapeChar ++ ['"']

/-- Where the entries of an array or object stand. -/
inductive Layout where
  | compact
  | pretty
  deriving Repr, DecidableEq, BEq

/-- The step to the next entry, `depth` levels deep. -/
def Layout.newline (depth : Nat) : Layout → List Char
  | .compact => []
  | .pretty => '\n' :: List.replicate (2 * depth) ' '

/-- What stands between the name of a field and its value. -/
def Layout.colon : Layout → List Char
  | .compact => [':']
  | .pretty => [':', ' ']

mutual

/-- A value that stands `depth` levels deep. -/
def Value.write (layout : Layout) (depth : Nat) : Value → List Char
  | .null => "null".toList
  | .bool true => "true".toList
  | .bool false => "false".toList
  | .number n => n.write
  | .string s => writeString s
  | .array [] => ['[', ']']
  | .array (item :: items) =>
    '[' :: layout.newline (depth + 1) ++ item.write layout (depth + 1) ++
      writeItems layout (depth + 1) items ++ layout.newline depth ++ [']']
  | .object [] => ['\x7b', '\x7d']
  | .object ((name, value) :: fields) =>
    '\x7b' :: layout.newline (depth + 1) ++ writeString name ++ layout.colon ++
      value.write layout (depth + 1) ++ writeFields layout (depth + 1) fields ++
      layout.newline depth ++ ['\x7d']

/-- The items after the first, each with the comma before it. -/
def writeItems (layout : Layout) (depth : Nat) : List Value → List Char
  | [] => []
  | item :: items =>
    ',' :: layout.newline depth ++ item.write layout depth ++ writeItems layout depth items

def writeFields (layout : Layout) (depth : Nat) : List (String × Value) → List Char
  | [] => []
  | (name, value) :: fields =>
    ',' :: layout.newline depth ++ writeString name ++ layout.colon ++
      value.write layout depth ++ writeFields layout depth fields

end

def Value.text (layout : Layout) (v : Value) : String :=
  String.ofList (v.write layout 0)

/-- The text of a value without any space, as it stands inside messages. -/
def Value.compact (v : Value) : String :=
  v.text .compact

end AddressExpansion.Json
