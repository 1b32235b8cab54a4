import AddressExpansion.Atom
import AddressExpansion.Environment
import AddressExpansion.Scope

/-! # Expansions

Everything that a term unfolds to, as a tree: its groups, variables and followed overrides opened
down to literals and lookups. How a lookup ends depends only on its name, so the tree says what a
term is worth without any order of events: its atoms from left to right, or its first failure.
-/

namespace AddressExpansion

/-- What a term unfolds to. -/
inductive Expansion where
  | literal (name : String) (address : Address)
  /-- A lookup that gave addresses. -/
  | host (name : String) (ips : List Ip)
  /-- A lookup that failed, of a name without an override. -/
  | lost (name : String) (reason : Reason)
  /-- A lookup that failed, and the override that is used instead. -/
  | rescue (name : String) (reason : Reason) (value : Json.Value) (body : Expansion)
  | group (name : String) (body : Expansion)
  | var (name : String) (body : Expansion)
  /-- A definition that cannot be opened, or whose value is no term. -/
  | fault (failure : Failure)
  | record (comment : Option String) (body : Expansion)
  | list (parts : List Expansion)
  deriving Repr

namespace Expansion

mutual

/-- Unfolds a term, given how its tokens unfold. -/
def ofTerm (token : String → Expansion) : Term → Expansion
  | .literal t => token t
  | .record ip comment => .record comment (ofTerm token ip)
  | .list items => .list (ofTerms token items)

def ofTerms (token : String → Expansion) : List Term → List Expansion
  | [] => []
  | term :: terms => ofTerm token term :: ofTerms token terms

end

/-- How a term unfolds inside one more name; none if no more name may be opened. -/
abbrev Deeper := Option (Scope → Term → Expansion)

/-- The definition of a name, opened in a scope. A name that is open already, or one too many, is
    a recursive definition. -/
def opened (deeper : Deeper) (scope : Scope) (name : String) (definition : Except Failure Term) :
    Expansion :=
  match deeper with
  | none => .fault (.recursion name)
  | some expand =>
    if name ∈ scope.chain then .fault (.recursion name)
    else
      match definition with
      | .error failure => .fault failure
      | .ok term => expand (scope.enter name) term

/-- Unfolds a token. Blanks around it do not count. -/
def ofToken (env : Environment) (deeper : Deeper) (scope : Scope) (token : String) : Expansion :=
  let name := Text.trim token
  match env.meaning name with
  | .literal address => .literal name address
  | .group members =>
    .group name (opened deeper scope name (.ok (.list (members.map .literal))))
  | .var value => .var name (opened deeper scope name (scope.readValue name value))
  | .host =>
    match env.outcome name with
    | .ok ips => .host name ips
    | .error reason =>
      match env.override? name with
      | none => .lost name reason
      | some value =>
        .rescue name reason value (opened deeper scope name (scope.readValue name value))

/-- Unfolds a term in a scope with room for `room` more names. -/
def unfold (env : Environment) : (room : Nat) → Scope → Term → Expansion
  | 0, scope, term => ofTerm (ofToken env none scope) term
  | room + 1, scope, term => ofTerm (ofToken env (some (unfold env room)) scope) term

def ofItems (env : Environment) (index : Nat) : List Term → List Expansion
  | [] => []
  | term :: terms => unfold env maxNesting (.root index) term :: ofItems env (index + 1) terms

mutual

/-- The atoms of an expansion, or its first failure. -/
def atoms : Expansion → Except Failure (List Atom)
  | .literal name address => .ok [.single address name]
  | .host name ips => .ok (Atom.ofAddresses? (ips.map .host) (some name)).toList
  | .lost name reason => .error (.resolution name reason)
  | .rescue name _ _ body => do
    match Atom.gather? (← body.atoms) (some name) with
    | some atom => return [atom]
    | none => throw (.resolution name .emptyOverride)
  | .group name body => return (Atom.gather? (← body.atoms) (some name)).toList
  | .var _ body => body.atoms
  | .fault failure => .error failure
  | .record comment body => return (Atom.gather? (← body.atoms) comment).toList
  | .list parts => atomsOfAll parts

def atomsOfAll : List Expansion → Except Failure (List Atom)
  | [] => .ok []
  | part :: parts => return (← part.atoms) ++ (← atomsOfAll parts)

end

mutual

/-- The names that are looked up, from left to right. -/
def lookups : Expansion → List String
  | .literal .. | .fault _ => []
  | .host name _ | .lost name _ => [name]
  | .rescue name _ _ body => name :: body.lookups
  | .group _ body | .var _ body | .record _ body => body.lookups
  | .list parts => lookupsOfAll parts

def lookupsOfAll : List Expansion → List String
  | [] => []
  | part :: parts => part.lookups ++ lookupsOfAll parts

end

end Expansion

end AddressExpansion
