import AddressExpansion.Address.Basic
import AddressExpansion.Text.Split

/-! # Canonical text of addresses

Four decimal bytes, or eight hexadecimal groups in which the longest run of two or more zero
groups, the first of equally long ones, is written `::`. The addresses `::ffff:0:0` to
`::ffff:ffff:ffff` show their last two groups as an address of the first family.
-/

namespace AddressExpansion

def decimalText (n : Nat) : List Char :=
  Nat.toDigits 10 n

def hexText (n : Nat) : List Char :=
  Nat.toDigits 16 n

/-- Bytes as decimal numbers with points between them. -/
def dottedText (octets : List Nat) : List Char :=
  Text.joinWith '.' (octets.map decimalText)

/-- Groups as hexadecimal numbers with colons between them. -/
def groupedText (groups : List Nat) : List Char :=
  Text.joinWith ':' (groups.map hexText)

/-- Where the first of the longest runs of zeros begins, and its length. -/
def longestZeroRun : List Nat → Nat × Nat
  | [] => (0, 0)
  | group :: groups =>
    let here := ((group :: groups).takeWhile (· = 0)).length
    let (start, length) := longestZeroRun groups
    if length ≤ here then (0, here) else (start + 1, length)

/-- Groups with their longest run of zeros written `::`, if it holds two groups or more. -/
def compressedText (groups : List Nat) : List Char :=
  let (start, length) := longestZeroRun groups
  if length < 2 then groupedText groups
  else groupedText (groups.take start) ++ ':' :: ':' :: groupedText (groups.drop (start + length))

/-- An address of the second family that stands for one of the first. -/
def Ip.isMapped (ip : Ip) : Bool :=
  ip.groups.take 6 = [0, 0, 0, 0, 0, 0xFFFF]

/-- The canonical text of an address. -/
def Ip.write (ip : Ip) : List Char :=
  match ip.family with
  | .v4 => dottedText ip.octets
  | .v6 =>
    if ip.isMapped then "::ffff:".toList ++ dottedText ip.octets
    else compressedText ip.groups

def Block.write (b : Block) : List Char :=
  b.address.write ++ '/' :: decimalText b.length

def Address.write : Address → List Char
  | .host ip => ip.write
  | .network b => b.write

def Ip.text (ip : Ip) : String :=
  String.ofList ip.write

def Address.text (a : Address) : String :=
  String.ofList a.write

/-- A literal with its kind, as traces show it. -/
def Address.tagged : Address → String
  | .host ip => "Host(" ++ ip.text ++ ")"
  | .network b => "Network(" ++ String.ofList b.write ++ ")"

end AddressExpansion
