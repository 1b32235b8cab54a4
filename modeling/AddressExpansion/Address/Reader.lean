import AddressExpansion.Address.Basic
import AddressExpansion.Text.Blank
import AddressExpansion.Text.Split

/-! # Reading addresses

A token is a literal address, a literal block, or text that has to be looked up. The two literal
forms have slightly different grammars: inside a block a byte may be written with leading zeros
and `::` may stand for no group at all.
-/

namespace AddressExpansion

/-- What an address may look like. -/
structure AddressGrammar where
  /-- Whether a byte may begin with a zero that is not its only digit. -/
  leadingZeros : Bool
  /-- The least number of groups that `::` stands for. -/
  leastGap : Nat
  deriving Repr, DecidableEq, BEq

def AddressGrammar.plain : AddressGrammar := ⟨false, 1⟩

def AddressGrammar.inBlock : AddressGrammar := ⟨true, 0⟩

/-- The number that one to `most` digits write. -/
def readNumber? (base most : Nat) (cs : List Char) : Option Nat :=
  if cs = [] ∨ most < cs.length then none
  else Text.numberOf? base cs

def readOctet? (grammar : AddressGrammar) (cs : List Char) : Option Nat := do
  let n ← readNumber? 10 3 cs
  if 256 ≤ n ∨ (cs.head? = some '0' ∧ cs.length ≠ 1 ∧ grammar.leadingZeros = false) then none
  else some n

def readOctets? (grammar : AddressGrammar) (cs : List Char) : Option (List Nat) :=
  let pieces := Text.splitAll '.' cs
  if pieces.length = 4 then pieces.mapM (readOctet? grammar) else none

/-- Two groups from four bytes with points between them. -/
def readTail? (grammar : AddressGrammar) (cs : List Char) : Option (List Nat) :=
  (readOctets? grammar cs).map fun octets => Text.placesOf 65536 2 (Text.ofPlaces 256 octets)

/-- Groups from pieces. The last piece may hold four bytes, which are two groups, if `tail`
    allows it. -/
def readPieces? (grammar : AddressGrammar) (tail : Bool) : List (List Char) → Option (List Nat)
  | [] => some []
  | [piece] =>
    match readNumber? 16 4 piece with
    | some group => some [group]
    | none => if tail then readTail? grammar piece else none
  | piece :: pieces => do
    let group ← readNumber? 16 4 piece
    let groups ← readPieces? grammar tail pieces
    return group :: groups

/-- Groups with colons between them; no group in an empty text. -/
def readGroups? (grammar : AddressGrammar) (tail : Bool) (cs : List Char) : Option (List Nat) :=
  if cs = [] then some [] else readPieces? grammar tail (Text.splitAll ':' cs)

/-- Eight groups, some of which `::` may stand for. -/
def readEightGroups? (grammar : AddressGrammar) (cs : List Char) : Option (List Nat) :=
  match Text.splitDouble? ':' cs with
  | none => do
    let groups ← readGroups? grammar true cs
    if groups.length = 8 then some groups else none
  | some (before, after) => do
    let front ← readGroups? grammar false before
    let back ← readGroups? grammar true after
    let given := front.length + back.length
    if front.length < 8 ∧ given + grammar.leastGap ≤ 8 then
      some (front ++ List.replicate (8 - given) 0 ++ back)
    else none

def readIp? (grammar : AddressGrammar) (cs : List Char) : Option Ip :=
  match readOctets? grammar cs with
  | some octets => Ip.ofNat? .v4 (Text.ofPlaces 256 octets)
  | none => do
    let groups ← readEightGroups? grammar cs
    Ip.ofNat? .v6 (Text.ofPlaces 65536 groups)

/-- The number of digits that the length of a block may have. -/
def Family.lengthDigits : Family → Nat
  | .v4 => 2
  | .v6 => 3

/-- A block: an address, a slash and a length. -/
def readBlock? (cs : List Char) : Option Block := do
  let (address, length) ← Text.splitFirst? '/' cs
  let ip ← readIp? .inBlock address
  let n ← readNumber? 10 ip.family.lengthDigits length
  Block.of? ip n

/-- The literal that a text is, blanks around it aside; `none` if it has to be looked up. -/
def Address.classify (token : String) : Option Address :=
  let cs := Text.trimBlanks token.toList
  match readIp? .plain cs with
  | some ip => some (.host ip)
  | none => (readBlock? cs).map .network

/-- Why a text is not taken for an address. -/
inductive AddressError where
  | notAnAddress (token : String)
  deriving Repr, DecidableEq, BEq

/-- The text of the error. It shows the token as written. -/
def AddressError.message : AddressError → String
  | .notAnAddress token => "'" ++ token ++ "' is not an IP address or CIDR"

def Address.parse (token : String) : Except AddressError Address :=
  match Address.classify token with
  | some a => .ok a
  | none => .error (.notAnAddress token)

end AddressExpansion
