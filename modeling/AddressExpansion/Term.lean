import AddressExpansion.Json.Printer

/-! # Terms

An item of the input is a token, a record with an `ip` and perhaps a comment, or a list. A JSON
value is read into a term once, and the first fault met, list items and record fields in order,
is reported with the path to it.
-/

namespace AddressExpansion

inductive Term where
  /-- An address, a block, or the name of a group, a variable or a host. -/
  | literal (token : String)
  /-- A term whose addresses go into one atom, with this comment. -/
  | record (ip : Term) (comment : Option String)
  /-- Terms that are resolved each on its own. -/
  | list (items : List Term)
  deriving Repr, BEq, Inhabited

/-- One step from a value to a value inside it. -/
inductive Step where
  | item (index : Nat)
  | ip
  | comment
  deriving Repr, DecidableEq, BEq

/-- What is wrong with a value. -/
inductive Problem where
  /-- A null, a boolean or a number in the place of a term. -/
  | notATerm (found : Json.Value)
  /-- A record without an `ip`. -/
  | missingIp
  /-- A comment that is neither a string nor null. -/
  | notAComment (found : Json.Value)
  deriving Repr, BEq

/-- Where a value cannot be read as a term, and why. -/
structure Fault where
  path : List Step
  problem : Problem
  deriving Repr, BEq

/-- The same fault, seen from one step further out. -/
def Fault.below (step : Step) (fault : Fault) : Fault :=
  { fault with path := step :: fault.path }

/-- The comment of a record: a string, or none if it is absent or null. -/
def Term.readComment (fields : List (String × Json.Value)) : Except Fault (Option String) :=
  match fields.lookup "comment" with
  | none => .ok none
  | some .null => .ok none
  | some (.string s) => .ok (some s)
  | some found => .error ⟨[.comment], .notAComment found⟩

mutual

def Term.ofValue : Json.Value → Except Fault Term
  | .string token => .ok (.literal token)
  | .array items => (Term.ofItems 0 items).map .list
  | .object fields =>
    match Term.ofIpField fields with
    | none => .error ⟨[], .missingIp⟩
    | some (.error fault) => .error (fault.below .ip)
    | some (.ok ip) => (Term.readComment fields).map (.record ip)
  | found => .error ⟨[], .notATerm found⟩

/-- Reads the items of a list, of which the first has this index. -/
def Term.ofItems (index : Nat) : List Json.Value → Except Fault (List Term)
  | [] => .ok []
  | item :: items =>
    match Term.ofValue item with
    | .error fault => .error (fault.below (.item index))
    | .ok term => (Term.ofItems (index + 1) items).map (term :: ·)

/-- Reads the `ip` of a record, if there is one. -/
def Term.ofIpField : List (String × Json.Value) → Option (Except Fault Term)
  | [] => none
  | (name, value) :: fields =>
    if name = "ip" then some (Term.ofValue value) else Term.ofIpField fields

end

def Step.text : Step → String
  | .item index => "[" ++ toString index ++ "]"
  | .ip => ".ip"
  | .comment => ".comment"

/-- The path from the root, which is written `$`. -/
def Fault.pathText (fault : Fault) : String :=
  "$" ++ String.join (fault.path.map Step.text)

/-- What a value is called in messages. -/
def kindText : Json.Value → String
  | .null => "null"
  | .bool _ => "boolean"
  | .number _ => "number"
  | .string _ => "string"
  | .array _ => "list"
  | .object _ => "record"

def Problem.text : Problem → String
  | .notATerm found =>
    "expected a string, record or list, found " ++ kindText found ++ " " ++ found.compact
  | .missingIp => "record has no 'ip' field"
  | .notAComment found =>
    "comment must be a string, found " ++ kindText found ++ " " ++ found.compact

def Fault.text (fault : Fault) : String :=
  fault.pathText ++ ": " ++ fault.problem.text

end AddressExpansion
