import AddressExpansion.Address.Reader
import AddressExpansion.Answer
import AddressExpansion.Inventory

/-! # Environments

Everything outside the items that a result depends on, and what a name means in it: a literal, a
group, a variable, or a host to look up, in this order.
-/

namespace AddressExpansion

/-- The longest time in milliseconds that a lookup may take, if nothing else is asked for. -/
def defaultTimeout : Nat := 7000

/-- The number of lookups that may be under way at once, if nothing else is asked for. -/
def defaultPermits : Nat := 64

/-- What stays the same from one invocation to the next: definitions, a resolver and limits. -/
structure Engine where
  inventory : Inventory := {}
  /-- What the resolver does with a name. -/
  answer : String → Answer
  /-- The longest time that a lookup may take. -/
  timeout : Nat := defaultTimeout
  /-- The number of lookups that may be under way at once. At least one always may. -/
  maxLookups : Nat := defaultPermits

/-- An engine and the overrides of one invocation: all that a name's meaning depends on. -/
structure Environment extends Engine where
  /-- What to use for names that cannot be looked up. -/
  overrides : Table Json.Value

/-- What a trimmed token is. -/
inductive Meaning where
  | literal (address : Address)
  | group (members : List String)
  | var (value : Json.Value)
  | host
  deriving Repr, BEq

namespace Environment

def meaning (env : Environment) (name : String) : Meaning :=
  match Address.classify name with
  | some address => .literal address
  | none =>
    match env.inventory.group? name with
    | some members => .group members
    | none =>
      match env.inventory.var? name with
      | some value => .var value
      | none => .host

def override? (env : Environment) (name : String) : Option Json.Value :=
  Table.find? env.overrides name

/-- How long the end of the lookup of a name is waited for. -/
def wait? (env : Environment) (name : String) : Option Nat :=
  (env.answer name).wait? env.timeout

def duration (env : Environment) (name : String) : Nat :=
  (env.answer name).duration env.timeout

def outcome (env : Environment) (name : String) : Except Reason (List Ip) :=
  (env.answer name).outcome env.timeout

def permits (env : Environment) : Nat :=
  max 1 env.maxLookups

end Environment

end AddressExpansion
