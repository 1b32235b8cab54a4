import AddressExpansion.Text.Unprintable

/-! # Quoted text for traces

A trace shows a text between double quotes with everything visible: quotes and backslashes are
escaped, the usual controls by a letter, any other character without a glyph by its number.
-/

namespace AddressExpansion.Text

/-- The number of a character in lower-case hexadecimal, in braces after `\u`. -/
def numericEscape (c : Char) : List Char :=
  ['\\', 'u', '\x7b'] ++ Nat.toDigits 16 c.toNat ++ ['\x7d']

/-- One character inside quotes. -/
def escapeVisible (c : Char) : List Char :=
  if c = '"' then ['\\', '"']
  else if c = '\\' then ['\\', '\\']
  else if c = '\n' then ['\\', 'n']
  else if c = '\r' then ['\\', 'r']
  else if c = '\t' then ['\\', 't']
  else if c = '\x00' then ['\\', '0']
  else if isUnprintable c then numericEscape c
  else [c]

/-- A text between double quotes, all of it visible. -/
def quoted (s : String) : String :=
  String.ofList ('"' :: s.toList.flatMap escapeVisible ++ ['"'])

/-- The shown values between square brackets, with a comma and a space between them. -/
def bracketed (texts : List String) : String :=
  "[" ++ ", ".intercalate texts ++ "]"

/-- A text that may be missing, as `Some("text")` or `None`. -/
def quotedOption : Option String → String
  | none => "None"
  | some s => "Some(" ++ quoted s ++ ")"

end AddressExpansion.Text
