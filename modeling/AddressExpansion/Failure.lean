import AddressExpansion.Format
import AddressExpansion.Term

/-! # Failures

Why an invocation gives no result. Each cause is a constructor, and its wording is in one place.
-/

namespace AddressExpansion

inductive OptionsProblem where
  | formatNotAString (found : Json.Value)
  | unknownFormat (name : String)
  | debugNotABoolean (found : Json.Value)
  | overridesNotAMapping (found : Json.Value)
  | unrecognized (name : String)
  | notADocument
  | notAMapping (found : Json.Value)
  deriving Repr, BEq

/-- Why a name gave no addresses. -/
inductive Reason where
  /-- The resolver refused, in these words. -/
  | refused (text : String)
  /-- The resolver answered without addresses. -/
  | noAddresses
  /-- The resolver did not answer in time. -/
  | timedOut (limit : Nat)
  /-- The override of a failed name has no addresses. -/
  | emptyOverride
  deriving Repr, DecidableEq, BEq

/-- Why an invocation was given up. -/
inductive Failure where
  /-- The options are wrong; nothing was resolved. -/
  | configuration (problem : OptionsProblem)
  /-- A name gave no addresses. -/
  | resolution (name : String) (reason : Reason)
  /-- A name is opened inside itself, or too many names are open. -/
  | recursion (name : String)
  /-- An item is not a term. -/
  | malformedItem (item : Nat) (fault : Fault)
  /-- The value of a variable or an override, met while resolving an item, is not a term. -/
  | malformedValue (item : Nat) (name : String) (fault : Fault)
  /-- The caller cancelled the invocation. -/
  | cancelled
  deriving Repr, BEq

def OptionsProblem.text : OptionsProblem → String
  | formatNotAString found => "fmt must be a string, not " ++ found.compact
  | unknownFormat name => "fmt must be one of " ++ Format.choices ++ ", not '" ++ name ++ "'"
  | debugNotABoolean found => "debug must be a boolean, not " ++ found.compact
  | overridesNotAMapping found =>
    "dns must be a mapping of names to addresses, not " ++ found.compact
  | unrecognized name => "unrecognized option '" ++ name ++ "'"
  | notADocument => "invalid options: not a JSON document"
  | notAMapping found => "options must be a mapping, not " ++ found.compact

def Reason.text : Reason → String
  | refused text => text
  | noAddresses => "No IP addresses found"
  | timedOut limit => "DNS lookup timed out after " ++ toString limit ++ "ms"
  | emptyOverride => "dns override yields no addresses"

namespace Failure

/-- What is wrong with malformed input, and where in it. -/
def detail? : Failure → Option String
  | malformedItem _ fault => some fault.text
  | malformedValue _ name fault => some ("value of '" ++ name ++ "' at " ++ fault.text)
  | _ => none

def message : Failure → String
  | configuration problem => "configuration error: " ++ problem.text
  | resolution name reason => "could not resolve '" ++ name ++ "': " ++ reason.text
  | recursion name => "cannot resolve recursively defined value '" ++ name ++ "'"
  | malformedItem item fault =>
    "malformed input in item " ++ toString item ++ ": " ++ fault.text
  | malformedValue item name fault =>
    "malformed input in item " ++ toString item ++ ": value of '" ++ name ++ "' at " ++ fault.text
  | cancelled => "invocation cancelled"

/-- Whether a name is at fault that could not be resolved. -/
def isResolutionFailure : Failure → Bool
  | resolution .. => true
  | recursion _ => true
  | _ => false

end Failure

end AddressExpansion
