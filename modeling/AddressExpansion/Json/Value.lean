/-! # JSON values

The data of a JSON document. An integer that fits 64 bits stays an integer; every other number is
a double, kept by its bits.
-/

namespace AddressExpansion.Json

inductive Number where
  | integer (n : Int)
  | double (bits : UInt64)
  deriving Repr, DecidableEq, BEq

/-- A JSON value. The fields of an object stand in the order in which they are written; a value
    that was read has them in ascending order of their names, each name once. -/
inductive Value where
  | null
  | bool (b : Bool)
  | number (n : Number)
  | string (s : String)
  | array (items : List Value)
  | object (fields : List (String × Value))
  deriving Repr, BEq, Inhabited

def Value.field? (name : String) : Value → Option Value
  | .object fields => fields.lookup name
  | _ => none

end AddressExpansion.Json
