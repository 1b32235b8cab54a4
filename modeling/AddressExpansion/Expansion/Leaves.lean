import AddressExpansion.Expansion
import AddressExpansion.Message

/-! # Leaves of an expansion

The addresses that an expansion meets, from left to right, and the warnings that it is due. Nothing
is put together or dropped here: an address counts as often as it is met.
-/

namespace AddressExpansion.Expansion

mutual

def addresses : Expansion → List Address
  | .literal _ address => [address]
  | .host _ ips => ips.map .host
  | .lost .. | .fault _ => []
  | .rescue _ _ _ body | .group _ body | .var _ body | .record _ body => body.addresses
  | .list parts => addressesOfAll parts

def addressesOfAll : List Expansion → List Address
  | [] => []
  | part :: parts => part.addresses ++ addressesOfAll parts

end

mutual

/-- The warnings: one for each failed lookup whose override is used, one for each group without
    any address. -/
def warnings : Expansion → List Message
  | .literal .. | .host .. | .lost .. | .fault _ => []
  | .rescue name reason value body =>
    .rescued (.resolution name reason) value :: body.warnings
  | .group name body =>
    body.warnings ++ if body.addresses = [] then [.emptyGroup name] else []
  | .var _ body | .record _ body => body.warnings
  | .list parts => warningsOfAll parts

def warningsOfAll : List Expansion → List Message
  | [] => []
  | part :: parts => part.warnings ++ warningsOfAll parts

end

end AddressExpansion.Expansion
