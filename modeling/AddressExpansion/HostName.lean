import AddressExpansion.Text.Blank
import AddressExpansion.Text.Digits
import AddressExpansion.Text.LowerCase
import AddressExpansion.Text.Punycode

/-! # Host names

A host name is a list of labels with points between them; with a point at its end it is absolute.
A backslash takes the next character as it is, or, before three octal digits, stands for the
character with this number. Labels are kept in lower case, and in ASCII: a label with other letters
is kept as an encoded one that stands for it.
-/

namespace AddressExpansion

inductive HostNameFault where
  /-- A blank or control outside an escape, or an escape that breaks off. -/
  | unrecognizedChar (c : Char)
  /-- A digit that is not octal in an escape. -/
  | illegalChar (c : Char)
  /-- A label that has a character that labels may not have. -/
  | invalidLabel
  /-- A label that is empty or begins with a character that labels may not begin with. -/
  | malformedLabel (label : String)
  | labelTooLong (bytes : Nat)
  | nameTooLong (bytes : Nat)
  deriving Repr, DecidableEq, BEq

def HostNameFault.text : HostNameFault → String
  | unrecognizedChar c => "unrecognized char: " ++ c.toString
  | illegalChar c => "illegal char: " ++ c.toString
  | invalidLabel => "Label contains invalid characters: Err(Errors)"
  | malformedLabel label => "Malformed label: " ++ label
  | labelTooLong bytes => "label bytes exceed 63: " ++ toString bytes
  | nameTooLong bytes => "name label data exceed 255: " ++ toString bytes

structure HostName where
  labels : List String
  isAbsolute : Bool
  deriving Repr, DecidableEq, BEq

namespace HostName

def maxLabelBytes : Nat := 63

/-- The largest number of bytes in a name, one counted for each label and one for the end. -/
def maxBytes : Nat := 255

/-- How the labels that stand for other texts begin. -/
def encodedMark : List Char := ['x', 'n', '-', '-']

/-- The text that a label stands for, if it is an encoded one. -/
def decoded? (label : List Char) : Option (List Char) :=
  if encodedMark.isPrefixOf label then Text.Punycode.decode? (label.drop encodedMark.length)
  else none

def encoded (label : List Char) : List Char :=
  if label.all (·.toNat < 128) then label else encodedMark ++ Text.Punycode.encode label

def isLabelChar (c : Char) : Bool :=
  c.isAlphanum || c = '-' || c = '.' || 128 ≤ c.toNat

/-- Joiners, selectors and soft breaks, which do not count in a label. -/
def isSilent (c : Char) : Bool :=
  let n := c.toNat
  n = 0xAD || (0x200B ≤ n && n ≤ 0x200D) || n = 0x2060 || n = 0xFEFF || (0xFE00 ≤ n && n ≤ 0xFE0F)

/-- A character as it counts in a label: in lower case, a final sigma as a sigma, a sharp s as two
    s. -/
def folded (c : Char) : List Char :=
  if isSilent c then []
  else
    match Text.lowerChar c with
    | 'ß' => ['s', 's']
    | 'ς' => ['σ']
    | c => [c]

def isControl (c : Char) : Bool :=
  c.toNat < 32 || (127 ≤ c.toNat && c.toNat < 160)

def checkLength (label : List Char) : Except HostNameFault String :=
  let label := String.ofList label
  if maxLabelBytes < label.utf8ByteSize then .error (.labelTooLong label.utf8ByteSize)
  else .ok label

/-- A label. One that begins with an underscore names a service, and is kept as it is. -/
def readLabel (label : List Char) : Except HostNameFault String :=
  match label with
  | ['*'] => .ok "*"
  | '_' :: rest =>
    if rest.all fun c => c.isAlphanum || c = '-' || c = '.' || c = '_' then checkLength label
    else .error (.malformedLabel (String.ofList label))
  | label =>
    let label := label.flatMap folded
    if !label.all isLabelChar then .error .invalidLabel
    else if encodedMark.isPrefixOf label && (decoded? label).isNone then .error .invalidLabel
    else if label.head?.all (· = '-') then .error (.malformedLabel (String.ofList (encoded label)))
    else checkLength (encoded label)

def addLabel (labels : List String) (label : List Char) : Except HostNameFault (List String) := do
  let labels := labels ++ [← readLabel label]
  let bytes := labels.foldl (fun bytes label => bytes + label.utf8ByteSize + 1) 1
  if maxBytes < bytes then throw (.nameTooLong bytes)
  return labels

/-- The octal digit that an escape goes on with; none at the end of the text. -/
def escapeDigit (c : Char) : Except HostNameFault Nat :=
  if !c.isDigit then .error (.unrecognizedChar c)
  else
    match Text.numberOf? 8 [c] with
    | some n => .ok n
    | none => .error (.illegalChar c)

/-- Reads labels, given those before and the beginning of the next one. -/
def readLabels (labels : List String) (label : List Char) :
    List Char → Except HostNameFault (List String)
  | [] => if label = [] then .ok labels else addLabel labels label
  | '.' :: rest => do
    readLabels (← addLabel labels label) [] rest
  | ['\\'] => if label = [] then .ok labels else addLabel labels label
  | '\\' :: a :: rest =>
    if !a.isDigit then readLabels labels (label ++ [a]) rest
    else
      match rest with
      | b :: c :: rest => do
        let n := 64 * (← escapeDigit a) + 8 * (← escapeDigit b) + (← escapeDigit c)
        readLabels labels (label ++ [Char.ofNat n]) rest
      | rest => do
        let _ ← (a :: rest).mapM escapeDigit
        readLabels labels label []
  | c :: rest =>
    if isControl c || Text.isBlank c then .error (.unrecognizedChar c)
    else readLabels labels (label ++ [c]) rest
termination_by cs => cs.length

/-- Reads a host name. A point alone is the root. -/
def read (text : String) : Except HostNameFault HostName :=
  if text = "." then .ok ⟨[], true⟩
  else do return ⟨← readLabels [] [] text.toList, text.endsWith "."⟩

/-- A label as it is shown: what it stands for if it is an encoded one, a point in it escaped. -/
def showLabel (label : String) : String :=
  match decoded? label.toList with
  | some text => String.ofList text
  | none => String.ofList (label.toList.flatMap fun c => if c = '.' then ['\\', '.'] else [c])

def shown (name : HostName) : String :=
  ".".intercalate (name.labels.map showLabel) ++ if name.isAbsolute then "." else ""

/-- The last label, in lower case. -/
def zone? (name : HostName) : Option String :=
  name.labels.getLast?.map String.toLower

end HostName

end AddressExpansion
