import AddressExpansion.Address.Basic
import AddressExpansion.Failure
import AddressExpansion.Table

/-! # Answers to lookups

What a name resolver does with a name: it replies after a while, or stays silent. A time limit
turns this into an outcome and a duration, which depend on nothing else.
-/

namespace AddressExpansion

/-- What a resolver replies. -/
inductive Reply where
  /-- The addresses of the name, in the resolver's order. -/
  | addresses (ips : List Ip)
  /-- A refusal in the resolver's words. -/
  | refusal (text : String)
  deriving Repr, DecidableEq

/-- What a resolver does with a name. -/
inductive Answer where
  /-- A reply together with the call. -/
  | atOnce (reply : Reply)
  /-- A reply that has to be waited for, some milliseconds after the call, perhaps none. -/
  | after (delay : Nat) (reply : Reply)
  /-- No reply at all. -/
  | silence
  deriving Repr, DecidableEq

/-- The addresses of a reply. A reply without addresses is a failure. -/
def Reply.outcome : Reply → Except Reason (List Ip)
  | .addresses [] => .error .noAddresses
  | .addresses ips => .ok ips
  | .refusal text => .error (.refused text)

namespace Answer

/-- How long the end of a lookup is waited for; none if it comes together with the call. -/
def wait? (limit : Nat) : Answer → Option Nat
  | atOnce _ => none
  | after delay _ => some (min delay limit)
  | silence => some limit

def duration (limit : Nat) (answer : Answer) : Nat :=
  (answer.wait? limit).getD 0

/-- How a lookup ends. A reply on the last millisecond is in time. -/
def outcome (limit : Nat) : Answer → Except Reason (List Ip)
  | atOnce r => r.outcome
  | after delay r => if delay ≤ limit then r.outcome else .error (.timedOut limit)
  | silence => .error (.timedOut limit)

end Answer

/-- The answers to some names. Any other name is refused at once. -/
abbrev Script := Table Answer

def Script.answer (script : Script) (name : String) : Answer :=
  (Table.find? script name).getD (.atOnce (.refusal ("no record found for " ++ name)))

end AddressExpansion
