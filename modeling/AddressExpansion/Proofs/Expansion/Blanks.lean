import AddressExpansion.Proofs.Expansion.Alike
import AddressExpansion.Proofs.Expansion.Parts
import AddressExpansion.Proofs.Term.Blanks

/-! # Expansions and blanks

Every strategy sees a token without the blanks around it. So terms that differ in such blanks, in
environments whose definitions differ in such blanks, unfold alike (`alike_inScope`), and whatever
is kept of a token is its trimmed text (`trimmed_inScope`).
-/

namespace AddressExpansion

/-- Whether two environments are the same but for blanks around the tokens in members of groups, in
    values of variables and in overrides. -/
structure Environment.Respaced (env env' : Environment) : Prop where
  answer : env.answer = env'.answer
  timeout : env.timeout = env'.timeout
  maxLookups : env.maxLookups = env'.maxLookups
  groups : ∀ name, Option.Rel (List.Forall₂ SameTrimmed) (env.inventory.group? name)
    (env'.inventory.group? name)
  vars : ∀ name, Option.Rel Json.Value.Respaced (env.inventory.var? name)
    (env'.inventory.var? name)
  overrides : ∀ name, Option.Rel Json.Value.Respaced (env.override? name) (env'.override? name)

theorem Table.rel_find? {α : Type} {R : α → α → Prop} {table table' : Table α}
    (each : List.Forall₂ (fun entry entry' => entry.1 = entry'.1 ∧ R entry.2 entry'.2) table table')
    (name : String) : Option.Rel R (find? table name) (find? table' name) := by
  induction each with
  | nil => exact .none
  | @cons entry entry' table table' first _ ih =>
      obtain ⟨key, value⟩ := entry
      obtain ⟨key', value'⟩ := entry'
      obtain ⟨rfl, related⟩ : key = key' ∧ R value value' := first
      rw [find?, find?, List.lookup_cons, List.lookup_cons]
      cases name == key with
      | true => exact .some related
      | false => exact ih

theorem Environment.Respaced.of_tables {env env' : Environment} (answer : env.answer = env'.answer)
    (timeout : env.timeout = env'.timeout) (maxLookups : env.maxLookups = env'.maxLookups)
    (groups : List.Forall₂ (fun entry entry' => entry.1 = entry'.1 ∧
      List.Forall₂ SameTrimmed entry.2 entry'.2) env.inventory.groups env'.inventory.groups)
    (vars : List.Forall₂ (fun entry entry' => entry.1 = entry'.1 ∧
      entry.2.Respaced entry'.2) env.inventory.vars env'.inventory.vars)
    (overrides : List.Forall₂ (fun entry entry' => entry.1 = entry'.1 ∧
      entry.2.Respaced entry'.2) env.overrides env'.overrides) : env.Respaced env' :=
  ⟨answer, timeout, maxLookups, Table.rel_find? groups, Table.rel_find? vars,
    Table.rel_find? overrides⟩

/-- Whether a name means the same but for blanks around tokens in its definition. -/
inductive Meaning.Respaced : Meaning → Meaning → Prop
  | literal {address : Address} : Respaced (.literal address) (.literal address)
  | group {members members' : List String} : List.Forall₂ SameTrimmed members members' →
      Respaced (.group members) (.group members')
  | var {value value' : Json.Value} : value.Respaced value' → Respaced (.var value) (.var value')
  | host : Respaced .host .host

def Failure.name? : Failure → Option String
  | .resolution name _ | .recursion name | .malformedValue _ name _ => some name
  | .configuration _ | .malformedItem .. | .cancelled => none

open Reading

namespace Environment.Respaced

variable {env env' : Environment} (respaced : env.Respaced env')
include respaced

theorem meaning (name : String) : (env.meaning name).Respaced (env'.meaning name) := by
  unfold Environment.meaning
  cases Address.classify name with
  | some => exact .literal
  | none =>
      have groups := respaced.groups name
      generalize env.inventory.group? name = found, env'.inventory.group? name = found' at groups
      cases groups with
      | some members => exact .group members
      | none =>
          have vars := respaced.vars name
          generalize env.inventory.var? name = found, env'.inventory.var? name = found' at vars
          cases vars with
          | some value => exact .var value
          | none => exact .host

theorem wait_eq (name : String) : env.wait? name = env'.wait? name := by
  rw [Environment.wait?, Environment.wait?, respaced.answer, respaced.timeout]

theorem outcome_eq (name : String) : env.outcome name = env'.outcome name := by
  rw [Environment.outcome, Environment.outcome, respaced.answer, respaced.timeout]

end Environment.Respaced

namespace Expansion

variable {env env' : Environment} {scope : Scope}

theorem alike_ofDefinition {name : String} {definition definition' : Except Failure Term}
    (same : Same Term.Respaced definition definition')
    (inside : ∀ within term term', scope.enter? name = .ok within → term.Respaced term' →
      Alike env env' (inScope env within term) (inScope env' within term')) :
    Alike env env' (ofDefinition env scope name definition)
      (ofDefinition env' scope name definition') := by
  unfold ofDefinition
  cases entered : scope.enter? name with
  | error => exact .fault
  | ok within =>
      cases same with
      | error => exact .fault
      | ok related => exact inside within _ _ entered related

theorem same_readValue (scope : Scope) (name : String) {value value' : Json.Value}
    (respaced : value.Respaced value') :
    Same Term.Respaced (scope.readValue name value) (scope.readValue name value') :=
  respaced.same_ofValue.mapError _

theorem alike_ofHost (respaced : env.Respaced env') {name : String}
    (inside : ∀ {definition definition'}, Same Term.Respaced definition definition' →
      Alike env env' (ofDefinition env scope name definition)
        (ofDefinition env' scope name definition')) :
    Alike env env' (ofHost env scope name) (ofHost env' scope name) := by
  have wait := respaced.wait_eq name
  unfold ofHost
  rw [← respaced.outcome_eq name]
  cases env.outcome name with
  | ok => exact .host wait
  | error reason =>
      have overrides := respaced.overrides name
      generalize env.override? name = found, env'.override? name = found' at overrides
      cases overrides with
      | none => exact .lost wait
      | some value => exact .rescue wait (inside (same_readValue scope name value))

/-- Terms that differ in blanks around their tokens unfold alike. -/
theorem alike_inScope (respaced : env.Respaced env') {term term' : Term}
    (same : term.Respaced term') :
    Alike env env' (inScope env scope term) (inScope env' scope term') := by
  induction scope, term using unfolding_induct generalizing term' with
  | record scope ip comment ih =>
      cases same with
      | record inside =>
          rw [inScope_record, inScope_record]
          exact .record (ih inside)
  | list scope items ih =>
      cases same with
      | list inside =>
          rw [inScope_list, inScope_list]
          refine .list ?_
          rw [List.forall₂_map_left_iff, List.forall₂_map_right_iff]
          exact ((List.forall₂_and_left items _).mpr ⟨ih, inside⟩).imp fun _ _ both =>
            both.1 both.2
  | token scope token ih =>
      cases same with
      | literal trimmed =>
          rw [inScope_literal, inScope_literal, ← trimmed]
          generalize Text.trim token = name at ih ⊢
          have inside {definition definition' : Except Failure Term}
              (same : Same Term.Respaced definition definition') :
              Alike env env' (ofDefinition env scope name definition)
                (ofDefinition env' scope name definition') :=
            alike_ofDefinition same fun within term term' entered => ih _ within term entered
          have meaning := respaced.meaning name
          generalize env.meaning name = found, env'.meaning name = found' at meaning
          cases meaning with
          | literal => exact .literal
          | host => exact alike_ofHost respaced inside
          | var value => exact .var (inside (same_readValue scope name value))
          | group members =>
              refine .group (inside (.ok (.list ?_)))
              rw [List.forall₂_map_left_iff, List.forall₂_map_right_iff]
              exact members.imp fun _ _ => Term.Respaced.literal

theorem alike_ofItems (respaced : env.Respaced env') {terms terms' : List Term}
    (same : List.Forall₂ Term.Respaced terms terms') (index : Nat) :
    List.Forall₂ (Alike env env') (ofItems env index terms) (ofItems env' index terms') := by
  induction same generalizing index with
  | nil => exact .nil
  | cons first _ ih =>
      rw [ofItems_cons, ofItems_cons]
      exact .cons (alike_inScope respaced first) (ih (index + 1))

/-! ## What is kept of a token -/

/-- The name that an expansion keeps at its root. -/
def name? : Expansion → Option String
  | .literal name _ | .host name _ | .lost name _ | .rescue name _ _ _ | .group name _
  | .var name _ => some name
  | .fault failure => failure.name?
  | .record .. | .list _ => none

/-- Whether all names that are kept in an expansion have no blanks around them. -/
def Trimmed (e : Expansion) : Prop :=
  ∀ part, Inside part e → ∀ name, part.name? = some name → Text.trim name = name

section Trimmed

variable {name : String} {body : Expansion}

private theorem trimmed_root {e : Expansion} (trimmed : Text.trim name = name)
    (named : e.name? = some name) {other : String} (same : e.name? = some other) :
    Text.trim other = other := by
  obtain rfl := Option.some.inj (named.symm.trans same)
  exact trimmed

theorem trimmed_fault {failure : Failure} (trimmed : Text.trim name = name)
    (named : failure.name? = some name) : (fault failure).Trimmed := by
  intro part here other same
  cases here
  exact trimmed_root (e := .fault failure) trimmed named same

theorem trimmed_group (trimmed : Text.trim name = name) (inner : body.Trimmed) :
    (group name body).Trimmed := by
  intro part here other same
  cases here with
  | whole => exact trimmed_root trimmed rfl same
  | group inside => exact inner part inside other same

theorem trimmed_var (trimmed : Text.trim name = name) (inner : body.Trimmed) :
    (var name body).Trimmed := by
  intro part here other same
  cases here with
  | whole => exact trimmed_root trimmed rfl same
  | var inside => exact inner part inside other same

theorem trimmed_rescue (trimmed : Text.trim name = name) (inner : body.Trimmed) (reason : Reason)
    (value : Json.Value) : (rescue name reason value body).Trimmed := by
  intro part here other same
  cases here with
  | whole => exact trimmed_root trimmed rfl same
  | rescue inside => exact inner part inside other same

theorem trimmed_ofDefinition (trimmed : Text.trim name = name)
    {definition : Except Failure Term}
    (read : ∀ failure, definition = .error failure → failure.name? = some name)
    (inside : ∀ within term, scope.enter? name = .ok within → (inScope env within term).Trimmed) :
    (ofDefinition env scope name definition).Trimmed := by
  unfold ofDefinition
  cases entered : scope.enter? name with
  | error failure =>
      obtain ⟨rfl, -⟩ := Scope.enter?_eq_error.mp entered
      exact trimmed_fault trimmed rfl
  | ok within =>
      cases definition with
      | error failure => exact trimmed_fault trimmed (read failure rfl)
      | ok term => exact inside within term entered

theorem name?_of_readValue {value : Json.Value} {failure : Failure}
    (unread : scope.readValue name value = .error failure) : failure.name? = some name := by
  unfold Scope.readValue at unread
  cases read : Term.ofValue value with
  | error =>
      rw [read] at unread
      cases unread
      rfl
  | ok =>
      rw [read] at unread
      cases unread

end Trimmed

theorem trimmed_inScope (env : Environment) (scope : Scope) (term : Term) :
    (inScope env scope term).Trimmed := by
  induction scope, term using unfolding_induct with
  | record scope ip comment ih =>
      intro part here
      rw [inScope_record] at here
      cases here with
      | whole => nofun
      | record inside => exact ih part inside
  | list scope items ih =>
      intro part here
      rw [inScope_list] at here
      cases here with
      | whole => nofun
      | list member inside =>
          obtain ⟨item, given, rfl⟩ := List.mem_map.mp member
          exact ih item given part inside
  | token scope token ih =>
      have trimmed := Text.trim_trim token
      have unfolds := ofName_token env scope token
      generalize Text.trim token = name, inScope env scope (.literal token) = e
        at ih trimmed unfolds ⊢
      have value (value : Json.Value) :
          (ofDefinition env scope name (scope.readValue name value)).Trimmed :=
        trimmed_ofDefinition trimmed (fun _ => name?_of_readValue) fun within term => ih name within term
      cases unfolds with
      | literal | host | lost =>
          intro part here other same
          cases here
          exact trimmed_root trimmed rfl same
      | group =>
          exact trimmed_group trimmed
            (trimmed_ofDefinition trimmed nofun fun within term => ih name within term)
      | var => exact trimmed_var trimmed (value _)
      | rescue => exact trimmed_rescue trimmed (value _) _ _

theorem Trimmed.of_fault {e : Expansion} (trimmed : e.Trimmed) {failure : Failure}
    (met : failure ∈ e.faults env) {name : String} (named : failure.name? = some name) :
    Text.trim name = name := by
  induction e using induct with
  | literal | host => cases met
  | lost _ reason | fault _ =>
      obtain rfl := List.mem_singleton.mp met
      exact trimmed _ .whole name named
  | group _ _ ih => exact ih (fun part inside => trimmed part (.group inside)) met
  | var _ _ ih => exact ih (fun part inside => trimmed part (.var inside)) met
  | record _ _ ih => exact ih (fun part inside => trimmed part (.record inside)) met
  | rescue _ _ _ body ih =>
      rcases of_mem_faults_rescue met with rfl | met
      · exact trimmed _ .whole name named
      · exact ih (fun part inside => trimmed part (.rescue inside)) met
  | list parts ih =>
      rw [faults_list] at met
      obtain ⟨part, member, met⟩ := List.mem_flatMap.mp met
      exact ih part member (fun e inside => trimmed e (.list member inside)) met

/-- Where the comment of an atom comes from: it is a trimmed name, or that of a record. -/
def Explains (e : Expansion) (comment : Option String) : Prop :=
  (∃ name, comment = some name ∧ Text.trim name = name) ∨ ∃ body, Inside (.record comment body) e

theorem Explains.outward {e whole : Expansion} {comment : Option String}
    (explains : e.Explains comment) (inside : ∀ part, Inside part e → Inside part whole) :
    whole.Explains comment :=
  explains.imp_right fun ⟨body, here⟩ => ⟨body, inside _ here⟩

theorem comment_of_mem_ofAddresses? {addresses : List Address} {comment : Option String}
    {atom : Atom} (member : atom ∈ (Atom.ofAddresses? addresses comment).toList) :
    atom.comment = comment := by
  unfold Atom.ofAddresses? at member
  split at member
  · cases member
  · obtain rfl := List.mem_singleton.mp member
    rfl

/-- The comments of atoms are trimmed names, or are given by records. -/
theorem Trimmed.explains {e : Expansion} (trimmed : e.Trimmed) {atoms : List Atom}
    (worth : e.worth = some atoms) {atom : Atom} (member : atom ∈ atoms) :
    e.Explains atom.comment := by
  induction e using induct generalizing atoms with
  | lost | fault => cases worth
  | literal name address =>
      obtain rfl := Option.some.inj worth
      obtain rfl := List.mem_singleton.mp member
      exact .inl ⟨name, rfl, trimmed _ .whole name rfl⟩
  | host name ips =>
      obtain rfl := Option.some.inj worth
      exact .inl ⟨name, comment_of_mem_ofAddresses? member, trimmed _ .whole name rfl⟩
  | rescue name _ _ body _ =>
      rw [worth_rescue] at worth
      obtain ⟨inner, -, found⟩ := Option.bind_eq_some_iff.mp worth
      obtain ⟨whole, gathered, rfl⟩ := Option.map_eq_some_iff.mp found
      obtain rfl := List.mem_singleton.mp member
      refine .inl ⟨name, ?_, trimmed _ .whole name rfl⟩
      exact comment_of_mem_ofAddresses? (Option.mem_toList.mpr gathered)
  | group name body _ =>
      rw [worth_group] at worth
      obtain ⟨inner, -, rfl⟩ := Option.map_eq_some_iff.mp worth
      exact .inl ⟨name, comment_of_mem_ofAddresses? member, trimmed _ .whole name rfl⟩
  | record comment body _ =>
      rw [worth_record] at worth
      obtain ⟨inner, -, rfl⟩ := Option.map_eq_some_iff.mp worth
      exact .inr ⟨body, comment_of_mem_ofAddresses? member ▸ .whole⟩
  | var name body ih =>
      exact (ih (fun part inside => trimmed part (.var inside)) worth member).outward
        fun _ => .var
  | list parts ih =>
      rw [worth_list] at worth
      obtain ⟨pieces, same, rfl⟩ := together_eq_some.mp worth
      obtain ⟨piece, given, member⟩ := List.mem_flatten.mp member
      obtain ⟨part, here, found⟩ : ∃ part ∈ parts, part.worth = some piece := by
        rw [← List.mem_map, same]
        exact List.mem_map_of_mem given
      exact (ih part here (fun e inside => trimmed e (.list here inside)) found member).outward
        fun _ => .list here

end Expansion

end AddressExpansion
