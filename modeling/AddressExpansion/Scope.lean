import AddressExpansion.Failure

/-! # Scopes

Where a term stands: in which item, and inside which names. A name is open while its definition is
resolved. It may not be opened inside itself, and at most `maxNesting` names are open at once.
-/

namespace AddressExpansion

/-- The largest number of names that may be open at once. -/
def maxNesting : Nat := 32

/-- The item that a term belongs to, and the names that are open around it, innermost first. -/
structure Scope where
  item : Nat
  chain : List String
  deriving Repr, DecidableEq, BEq

namespace Scope

def root (item : Nat) : Scope := ⟨item, []⟩

def depth (scope : Scope) : Nat := scope.chain.length

def enter (scope : Scope) (name : String) : Scope :=
  { scope with chain := name :: scope.chain }

/-- Opens a name in a scope. A name that is open already, or one too many, is a recursive
    definition. -/
def enter? (scope : Scope) (name : String) : Except Failure Scope :=
  if name ∈ scope.chain ∨ maxNesting ≤ scope.depth then .error (.recursion name)
  else .ok (scope.enter name)

def readValue (scope : Scope) (name : String) (value : Json.Value) : Except Failure Term :=
  (Term.ofValue value).mapError (.malformedValue scope.item name)

end Scope

end AddressExpansion
