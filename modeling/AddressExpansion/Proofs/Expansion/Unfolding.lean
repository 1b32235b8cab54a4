import AddressExpansion.Expansion.Leaves
import AddressExpansion.Expansion.Timing

/-! # Unfolding in a scope

`Expansion.unfold` counts down the room for further names. That room is always what the scope
leaves, so the unfolding of a term is a function of its scope alone, and it opens a name exactly
when the scope does.
-/

namespace AddressExpansion

theorem Term.induct {P : Term → Prop} (literal : ∀ token, P (.literal token))
    (record : ∀ ip comment, P ip → P (.record ip comment))
    (list : ∀ items, (∀ item ∈ items, P item) → P (.list items)) (term : Term) : P term := by
  refine @Term.rec P (fun items => ∀ item ∈ items, P item)
    literal (fun ip comment => record ip comment) list ?_ ?_ term
  · simp
  · intro head tail ihHead ihTail item member
    rcases List.mem_cons.mp member with rfl | member
    · exact ihHead
    · exact ihTail item member

namespace Scope

variable {scope within : Scope} {name : String} {failure : Failure}

theorem enter?_eq_ok : scope.enter? name = .ok within ↔
    name ∉ scope.chain ∧ scope.depth < maxNesting ∧ within = scope.enter name := by
  unfold enter?
  split
  next refused =>
    simp only [reduceCtorEq, false_iff]
    intro ⟨fresh, low, _⟩
    rcases refused with isOpen | deep
    · exact fresh isOpen
    · omega
  next entered =>
    rw [not_or, Nat.not_le] at entered
    constructor
    · intro same
      exact ⟨entered.1, entered.2, (Except.ok.inj same).symm⟩
    · intro ⟨_, _, same⟩
      rw [same]

theorem enter?_eq_error : scope.enter? name = .error failure ↔
    failure = .recursion name ∧ (name ∈ scope.chain ∨ maxNesting ≤ scope.depth) := by
  unfold enter?
  split
  next refused =>
    constructor
    · intro same
      exact ⟨(Except.error.inj same).symm, refused⟩
    · intro ⟨same, _⟩
      rw [same]
  next entered =>
    simp only [reduceCtorEq, false_iff]
    exact fun refused => entered refused.2

end Scope

namespace Expansion

theorem induct {P : Expansion → Prop} (literal : ∀ name address, P (.literal name address))
    (host : ∀ name ips, P (.host name ips)) (lost : ∀ name reason, P (.lost name reason))
    (rescue : ∀ name reason value body, P body → P (.rescue name reason value body))
    (group : ∀ name body, P body → P (.group name body))
    (var : ∀ name body, P body → P (.var name body)) (fault : ∀ failure, P (.fault failure))
    (record : ∀ comment body, P body → P (.record comment body))
    (list : ∀ parts, (∀ part ∈ parts, P part) → P (.list parts)) (e : Expansion) : P e := by
  refine @Expansion.rec P (fun parts => ∀ part ∈ parts, P part)
    literal host lost rescue group var fault record list ?_ ?_ e
  · simp
  · intro head tail ihHead ihTail part member
    rcases List.mem_cons.mp member with rfl | member
    · exact ihHead
    · exact ihTail part member

theorem ofTerms_eq_map (token : String → Expansion) (terms : List Term) :
    ofTerms token terms = terms.map (ofTerm token) := by
  induction terms with
  | nil => rfl
  | cons term terms ih => simp only [ofTerms, List.map_cons, ih]

@[irreducible] def inScope (env : Environment) (scope : Scope) (term : Term) : Expansion :=
  unfold env (maxNesting - scope.depth) scope term

/-- What the definition of a name unfolds to, if the name can be opened in a scope. -/
def ofDefinition (env : Environment) (scope : Scope) (name : String)
    (definition : Except Failure Term) : Expansion :=
  match scope.enter? name with
  | .error failure => .fault failure
  | .ok within =>
    match definition with
    | .error failure => .fault failure
    | .ok term => inScope env within term

/-- What a name that has to be looked up unfolds to in a scope. -/
def ofHost (env : Environment) (scope : Scope) (name : String) : Expansion :=
  match env.outcome name with
  | .ok ips => .host name ips
  | .error reason =>
    match env.override? name with
    | none => .lost name reason
    | some value =>
      .rescue name reason value (ofDefinition env scope name (scope.readValue name value))

private def deeper (env : Environment) (scope : Scope) : Deeper :=
  match maxNesting - scope.depth with
  | 0 => none
  | room + 1 => some (unfold env room)

private theorem opened_deeper (env : Environment) (scope : Scope) (name : String)
    (definition : Except Failure Term) :
    opened (deeper env scope) scope name definition = ofDefinition env scope name definition := by
  unfold deeper opened ofDefinition Scope.enter?
  cases left : maxNesting - scope.depth with
  | zero => simp only [show maxNesting ≤ scope.depth by omega, or_true, ↓reduceIte]
  | succ room =>
      have deep : ¬ maxNesting ≤ scope.depth := by omega
      by_cases isOpen : name ∈ scope.chain
      · simp only [isOpen, true_or, ↓reduceIte]
      · have inner : maxNesting - (scope.enter name).depth = room := by
          simp only [Scope.depth, Scope.enter, List.length_cons] at left ⊢
          omega
        cases definition <;> simp [isOpen, deep, inScope, inner]

private theorem inScope_eq_ofTerm (env : Environment) (scope : Scope) (term : Term) :
    inScope env scope term = ofTerm (ofToken env (deeper env scope) scope) term := by
  unfold inScope deeper
  cases maxNesting - scope.depth <;> rfl

theorem inScope_literal (env : Environment) (scope : Scope) (token : String) :
    inScope env scope (.literal token) =
      match env.meaning (Text.trim token) with
      | .literal address => .literal (Text.trim token) address
      | .group members =>
        .group (Text.trim token) (ofDefinition env scope (Text.trim token)
          (.ok (.list (members.map .literal))))
      | .var value =>
        .var (Text.trim token) (ofDefinition env scope (Text.trim token)
          (scope.readValue (Text.trim token) value))
      | .host => ofHost env scope (Text.trim token) := by
  rw [inScope_eq_ofTerm, ofTerm, ofToken]
  cases env.meaning (Text.trim token) with
  | literal | group | var => simp only [opened_deeper]
  | host =>
      unfold ofHost
      cases env.outcome (Text.trim token) with
      | ok => rfl
      | error =>
          cases env.override? (Text.trim token) with
          | none => rfl
          | some => simp only [opened_deeper]

/-- What a trimmed token unfolds to in a scope, and why. -/
inductive OfName (env : Environment) (scope : Scope) (name : String) : Expansion → Prop
  | literal {address} (meaning : env.meaning name = .literal address) :
      OfName env scope name (.literal name address)
  | group {members} (meaning : env.meaning name = .group members) :
      OfName env scope name
        (.group name (ofDefinition env scope name (.ok (.list (members.map .literal)))))
  | var {value} (meaning : env.meaning name = .var value) :
      OfName env scope name (.var name (ofDefinition env scope name (scope.readValue name value)))
  | host {ips} (meaning : env.meaning name = .host) (answered : env.outcome name = .ok ips) :
      OfName env scope name (.host name ips)
  | lost {reason} (meaning : env.meaning name = .host) (failed : env.outcome name = .error reason)
      (unrescued : env.override? name = none) : OfName env scope name (.lost name reason)
  | rescue {reason value} (meaning : env.meaning name = .host)
      (failed : env.outcome name = .error reason) (override : env.override? name = some value) :
      OfName env scope name
        (.rescue name reason value (ofDefinition env scope name (scope.readValue name value)))

theorem ofName_token (env : Environment) (scope : Scope) (token : String) :
    OfName env scope (Text.trim token) (inScope env scope (.literal token)) := by
  rw [inScope_literal]
  generalize Text.trim token = name
  cases meaning : env.meaning name with
  | literal => exact .literal meaning
  | group => exact .group meaning
  | var => exact .var meaning
  | host =>
      dsimp only
      unfold ofHost
      cases outcome : env.outcome name with
      | ok => exact .host meaning outcome
      | error =>
          cases override : env.override? name with
          | none => exact .lost meaning outcome override
          | some => exact .rescue meaning outcome override

theorem inScope_record (env : Environment) (scope : Scope) (ip : Term) (comment : Option String) :
    inScope env scope (.record ip comment) = .record comment (inScope env scope ip) := by
  simp only [inScope_eq_ofTerm, ofTerm]

theorem inScope_list (env : Environment) (scope : Scope) (items : List Term) :
    inScope env scope (.list items) = .list (items.map (inScope env scope)) := by
  simp only [inScope_eq_ofTerm, ofTerm, ofTerms_eq_map]
  congr 1
  exact List.map_congr_left fun item _ => (inScope_eq_ofTerm env scope item).symm

theorem inScope_root (env : Environment) (index : Nat) (term : Term) :
    inScope env (.root index) term = unfold env maxNesting (.root index) term := by
  simp only [inScope, Scope.root, Scope.depth, List.length_nil, Nat.sub_zero]

theorem ofItems_cons (env : Environment) (index : Nat) (term : Term) (terms : List Term) :
    ofItems env index (term :: terms) =
      inScope env (.root index) term :: ofItems env (index + 1) terms := by
  rw [ofItems, inScope_root]

theorem length_ofItems (env : Environment) (index : Nat) (terms : List Term) :
    (ofItems env index terms).length = terms.length := by
  induction terms generalizing index with
  | nil => rfl
  | cons _ _ ih => rw [ofItems_cons, List.length_cons, List.length_cons, ih]

/-- Induction over what a term unfolds to: over the terms inside it, and over the definitions that
    its tokens open. -/
theorem unfolding_induct {P : Scope → Term → Prop}
    (token : ∀ scope token, (∀ name within term, scope.enter? name = .ok within → P within term) →
      P scope (.literal token))
    (record : ∀ scope ip comment, P scope ip → P scope (.record ip comment))
    (list : ∀ scope items, (∀ item ∈ items, P scope item) → P scope (.list items))
    (scope : Scope) (term : Term) : P scope term := by
  induction room : maxNesting - scope.depth using Nat.strongRecOn generalizing scope term with
  | ind _ deeper =>
      induction term using Term.induct with
      | record ip comment ih => exact record scope ip comment ih
      | list items ih => exact list scope items ih
      | literal t =>
          refine token scope t fun name within term entered => ?_
          obtain ⟨-, low, rfl⟩ := Scope.enter?_eq_ok.mp entered
          refine deeper _ ?_ _ term rfl
          simp only [Scope.depth, Scope.enter, List.length_cons] at low ⊢
          simp only [Scope.depth] at room
          omega

/-! ## Questions to the parts of a list -/

@[simp] theorem lookupsOfAll_eq_flatMap (parts : List Expansion) :
    lookupsOfAll parts = parts.flatMap lookups := by
  induction parts with
  | nil => rfl
  | cons part parts ih => simp only [lookupsOfAll, List.flatMap_cons, ih]

@[simp] theorem addressesOfAll_eq_flatMap (parts : List Expansion) :
    addressesOfAll parts = parts.flatMap addresses := by
  induction parts with
  | nil => rfl
  | cons part parts ih => simp only [addressesOfAll, List.flatMap_cons, ih]

@[simp] theorem warningsOfAll_eq_flatMap (parts : List Expansion) :
    warningsOfAll parts = parts.flatMap warnings := by
  induction parts with
  | nil => rfl
  | cons part parts ih => simp only [warningsOfAll, List.flatMap_cons, ih]

@[simp] theorem failuresOfAll_eq_flatMap (env : Environment) (time : Nat) (parts : List Expansion) :
    failuresOfAll env time parts = parts.flatMap (failures env time) := by
  induction parts with
  | nil => rfl
  | cons part parts ih => simp only [failuresOfAll, List.flatMap_cons, ih]

end Expansion

end AddressExpansion
