import AddressExpansion.Failure
import AddressExpansion.Rendered
import AddressExpansion.Scope

/-! # Log messages

What an invocation reports while it runs. Traces are meant only for invocations that ask for them.
Messages are levelled and worded here, and nothing else depends on them.
-/

namespace AddressExpansion

inductive Level where
  | error
  | warn
  | info
  | debug
  | trace
  deriving Repr, DecidableEq, BEq, Inhabited

namespace Level

/-- All levels, the gravest first. -/
def all : List Level := [.error, .warn, .info, .debug, .trace]

/-- The place of a level, the gravest first. -/
def rank : Level → Nat
  | error => 0
  | warn => 1
  | info => 2
  | debug => 3
  | trace => 4

def name : Level → String
  | error => "ERROR"
  | warn => "WARN"
  | info => "INFO"
  | debug => "DEBUG"
  | trace => "TRACE"

/-- The less grave of two levels. -/
def leastGrave (a b : Level) : Level :=
  if a.rank ≤ b.rank then b else a

end Level

/-- What was found out about a token or a record. -/
inductive Finding where
  | literal (name : String) (address : Address)
  | group (name : String) (members : List String)
  | var (name : String) (value : Json.Value)
  /-- A name is about to be looked up. -/
  | lookup (name : String)
  | answered (name : String) (ips : List Ip)
  | unresolvable (name : String) (failure : Failure)
  /-- A record was resolved; without any address it gives no atom. -/
  | record (comment : Option String) (atom : Option Atom)
  deriving Repr, BEq

inductive Message where
  /-- Resolution begins. -/
  | started (items : Nat) (format : Format) (overrides : Nat)
  /-- All items are resolved. -/
  | rendering (atoms : Nat) (format : Format)
  /-- The caller cancelled. -/
  | cancelled
  /-- Something was found out in an item, inside some number of names. -/
  | traced (item depth : Nat) (finding : Finding)
  /-- A group has no addresses. -/
  | emptyGroup (name : String)
  /-- A lookup failed, and the override of the name is used. -/
  | rescued (failure : Failure) (value : Json.Value)
  /-- An inventory file was read. -/
  | inventoryLoaded (path : String) (groups vars : Nat)
  /-- The user interrupts the program, which cancels. -/
  | interrupted
  /-- The system does not say which name servers to ask. -/
  | defaultUpstreams (cause : String)
  deriving Repr, BEq

def Finding.text : Finding → String
  | literal name address => "'" ++ name ++ "' is a literal " ++ address.text
  | group name members =>
    "'" ++ name ++ "' is a group of " ++ Text.bracketed (members.map Text.quoted)
  | var name value => "'" ++ name ++ "' is a variable holding " ++ value.compact
  | lookup name => "attempting DNS on '" ++ name ++ "'"
  | answered name ips => "'" ++ name ++ "' resolved to " ++ Text.bracketed (ips.map Ip.text)
  | unresolvable name failure => "'" ++ name ++ "' is unresolvable: " ++ failure.message
  | record comment (some atom) =>
    "record " ++ Text.quotedOption comment ++ " -> " ++ atom.shown
  | record comment none => "record " ++ Text.quotedOption comment ++ " has no addresses"

namespace Message

def level : Message → Level
  | started .. | rendering .. | cancelled | traced .. => .debug
  | emptyGroup _ | rescued .. | interrupted | defaultUpstreams _ => .warn
  | inventoryLoaded .. => .info

/-- Whether a message is only for invocations that ask for traces. -/
def isTrace : Message → Bool
  | started .. | rendering .. | traced .. => true
  | _ => false

/-- The part of the program that a message comes from. -/
def target : Message → String
  | started .. | rendering .. | cancelled => "netspec::engine"
  | traced .. | emptyGroup _ | rescued .. => "netspec::normalize"
  | inventoryLoaded .. => "netspec::inventory"
  | interrupted => "netspec"
  | defaultUpstreams _ => "netspec::initialization::resolver"

/-- The text of a message. Traces are indented by the number of open names. -/
def text : Message → String
  | started items format overrides =>
    "netspec: " ++ toString items ++ " items, fmt='" ++ format.name ++ "', " ++
      toString overrides ++ " dns overrides"
  | rendering atoms format =>
    "netspec: rendering " ++ toString atoms ++ " atoms as '" ++ format.name ++ "'"
  | cancelled => "netspec: invocation cancelled"
  | traced item depth finding =>
    String.join (List.replicate depth "  ") ++ "netspec[item " ++ toString item ++ "]: " ++
      finding.text
  | emptyGroup name => "Group '" ++ name ++ "' has no members; it contributes no addresses"
  | rescued failure value => failure.message ++ "; using dns override " ++ value.compact
  | inventoryLoaded path groups vars =>
    "Loaded inventory from " ++ path ++ " (" ++ toString groups ++ " groups, " ++
      toString vars ++ " variables)"
  | interrupted => "Interrupted; abandoning outstanding lookups"
  | defaultUpstreams cause =>
    "Cannot read system DNS configuration (" ++ cause ++ "); using default upstreams"

end Message

end AddressExpansion
