import AddressExpansion.Address.Printer
import AddressExpansion.Address.Reader
import AddressExpansion.Json.Printer
import AddressExpansion.Json.Reader

/-! # Addresses in documents

A literal is written in a document as a string. Reading it back looks at the string first: a
string that is no literal is reported before anything that follows it.
-/

namespace AddressExpansion

/-- Why a document does not hold a literal. -/
inductive AddressDocumentError where
  | notAnAddress (error : AddressError)
  /-- There is no string, or something follows it. -/
  | notAString
  deriving Repr, DecidableEq, BEq

namespace Address

def toValue (a : Address) : Json.Value :=
  .string a.text

def ofDocument (document : String) : Except AddressDocumentError Address :=
  match Json.readString .keep (Json.skipGap document.toList) with
  | none => .error .notAString
  | some (token, rest) =>
    match Address.parse token with
    | .error e => .error (.notAnAddress e)
    | .ok a => if Json.skipGap rest = [] then .ok a else .error .notAString

end Address

end AddressExpansion
