import AddressExpansion.Answer
import AddressExpansion.HostName

/-! # Resolving without a network

What a resolver does that cannot reach anything. Names in the zones that are reserved for no host
have no record, the zone of the machine itself has its own address, and any other name would have
to be asked for over the network.
-/

namespace AddressExpansion

/-- The zones without any host. -/
def emptyZones : List String := ["invalid", "local", "onion"]

/-- The zone of the machine itself. -/
def ownZone : String := "localhost"

/-- The own address of every machine, 127.0.0.1. -/
def loopback : Ip := ⟨.v4, 0x7F000001, by decide⟩

/-- The reply for a host name. -/
def HostName.offlineReply (name : HostName) : Reply :=
  match name.zone? with
  | some zone =>
    if zone ∈ emptyZones then
      .refusal <|
        "no record found for Query \x7b name: Name(\"" ++ name.shown ++
          "\"), query_type: AAAA, query_class: IN \x7d"
    else if zone = ownZone then .addresses [loopback]
    else unreachable
  | none => unreachable
where
  /-- The reply when the network would be needed. -/
  unreachable : Reply :=
    .refusal "proto error: io error: Network is unreachable (os error 101)"

/-- The answer of a resolver without a network. -/
def offlineAnswer (name : String) : Answer :=
  .atOnce <|
    match HostName.read name with
    | .ok host => host.offlineReply
    | .error fault => .refusal ("proto error: " ++ fault.text)

end AddressExpansion
