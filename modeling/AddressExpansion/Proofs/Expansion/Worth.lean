import Mathlib.Data.List.Perm.Basic
import Mathlib.Tactic.Common
import AddressExpansion.Proofs.Distinct
import AddressExpansion.Proofs.Expansion.Unfolding

/-! # What an expansion is worth

An expansion is worth its atoms, or nothing if one of its leaves fails. It is worth nothing exactly
if it has a fault, and the addresses of its atoms are the distinct ones among those of its leaves.
-/

namespace AddressExpansion

/-- The atoms of all parts, one after the other, if every part is worth some. -/
def together {α : Type} : List (Option (List α)) → Option (List α)
  | [] => some []
  | none :: _ => none
  | some as :: parts => (together parts).map (as ++ ·)

theorem together_eq_some {α : Type} {parts : List (Option (List α))} {as : List α} :
    together parts = some as ↔
      ∃ pieces : List (List α), parts = pieces.map some ∧ as = pieces.flatten := by
  induction parts generalizing as with
  | nil =>
      constructor
      · rintro ⟨⟩
        exact ⟨[], rfl, rfl⟩
      · rintro ⟨pieces, same, rfl⟩
        rw [List.map_eq_nil_iff.mp same.symm]
        rfl
  | cons part parts ih =>
      cases part with
      | none =>
          simp only [together, reduceCtorEq, false_iff, not_exists, not_and]
          rintro (_ | ⟨piece, pieces⟩) same <;> simp at same
      | some piece =>
          simp only [together, Option.map_eq_some_iff, ih]
          constructor
          · rintro ⟨_, ⟨pieces, rfl, rfl⟩, rfl⟩
            exact ⟨piece :: pieces, rfl, rfl⟩
          · rintro ⟨_ | ⟨first, rest⟩, same, rfl⟩
            · simp at same
            · obtain ⟨rfl, rfl⟩ : piece = first ∧ parts = rest.map some := by simpa using same
              exact ⟨_, ⟨rest, rfl, rfl⟩, rfl⟩

theorem together_eq_none {α : Type} {parts : List (Option (List α))} :
    together parts = none ↔ none ∈ parts := by
  induction parts with
  | nil => simp [together]
  | cons part parts ih => cases part <;> simp [together, ih]

theorem together_cons {α : Type} (part : Option (List α)) (parts : List (Option (List α))) :
    together (part :: parts) = part.bind fun as => (together parts).map (as ++ ·) := by
  cases part <;> rfl

theorem together_singleton {α : Type} (part : Option (List α)) : together [part] = part := by
  cases part <;> simp [together]

theorem together_append {α : Type} (front back : List (Option (List α))) :
    together (front ++ back) =
      (together front).bind fun as => (together back).map (as ++ ·) := by
  induction front with
  | nil => simp [together]
  | cons part front ih =>
      rw [List.cons_append, together_cons, together_cons, ih]
      cases part <;> cases together front <;> cases together back <;> simp

namespace Expansion

/-- The atoms of an expansion, if it has no fault. -/
def worth (e : Expansion) : Option (List Atom) :=
  e.atoms.toOption

@[simp] theorem worth_literal (name : String) (address : Address) :
    (literal name address).worth = some [.single address name] := rfl

@[simp] theorem worth_host (name : String) (ips : List Ip) :
    (host name ips).worth =
      some (Atom.ofAddresses? (ips.map .host) (some name)).toList := rfl

@[simp] theorem worth_lost (name : String) (reason : Reason) :
    (lost name reason).worth = none := rfl

@[simp] theorem worth_fault (failure : Failure) : (fault failure).worth = none := rfl

@[simp] theorem worth_var (name : String) (body : Expansion) :
    (var name body).worth = body.worth := rfl

@[simp] theorem worth_group (name : String) (body : Expansion) :
    (group name body).worth = body.worth.map fun atoms =>
      (Atom.gather? atoms (some name)).toList := by
  unfold worth
  rw [atoms]
  cases body.atoms <;> rfl

@[simp] theorem worth_record (comment : Option String) (body : Expansion) :
    (record comment body).worth = body.worth.map fun atoms =>
      (Atom.gather? atoms comment).toList := by
  unfold worth
  rw [atoms]
  cases body.atoms <;> rfl

@[simp] theorem worth_rescue (name : String) (reason : Reason) (value : Json.Value)
    (body : Expansion) :
    (rescue name reason value body).worth = body.worth.bind fun atoms =>
      (Atom.gather? atoms (some name)).map ([·]) := by
  unfold worth
  rw [atoms]
  cases body.atoms with
  | error => rfl
  | ok atoms =>
      simp only [bind, Except.bind, Except.toOption, Option.bind_some]
      cases Atom.gather? atoms (some name) <;> rfl

theorem toOption_atomsOfAll (parts : List Expansion) :
    (atomsOfAll parts).toOption = together (parts.map worth) := by
  induction parts with
  | nil => rfl
  | cons part parts ih =>
      simp only [List.map_cons, worth, atomsOfAll]
      cases part.atoms with
      | error => rfl
      | ok atoms =>
          simp only [Except.toOption, together, ← ih]
          cases atomsOfAll parts <;> rfl

@[simp] theorem worth_list (parts : List Expansion) :
    (list parts).worth = together (parts.map worth) :=
  toOption_atomsOfAll parts

/-! ## Faults -/

def faults (env : Environment) (e : Expansion) : List Failure :=
  (e.failures env 0).map (·.2)

/-- The failures of an expansion do not depend on the time at which it begins. -/
theorem map_snd_failures (env : Environment) (time : Nat) (e : Expansion) :
    (e.failures env time).map (·.2) = e.faults env := by
  unfold faults
  induction e using induct generalizing time with
  | literal | host | lost | fault => rfl
  | group _ _ ih | var _ _ ih | record _ _ ih => exact ih time
  | list parts ih =>
      simp only [failures, failuresOfAll_eq_flatMap, List.map_flatMap]
      exact List.flatMap_congr fun part member => ih part member time
  | rescue name reason value body ih =>
      simp only [failures]
      have same := (ih (time + env.duration name)).trans (ih (0 + env.duration name)).symm
      cases early : body.failures env (0 + env.duration name) with
      | nil =>
          rw [early, List.map_nil, List.map_eq_nil_iff] at same
          rw [same]
          by_cases empty : body.addresses = [] <;> simp [empty]
      | cons _ _ =>
          rw [early] at same
          cases late : body.failures env (time + env.duration name) with
          | nil => simp [late] at same
          | cons _ _ => simpa only [late] using same

variable {env : Environment}

@[simp] theorem faults_literal (name : String) (address : Address) :
    (literal name address).faults env = [] := rfl

@[simp] theorem faults_host (name : String) (ips : List Ip) :
    (host name ips).faults env = [] := rfl

@[simp] theorem faults_lost (name : String) (reason : Reason) :
    (lost name reason).faults env = [.resolution name reason] := rfl

@[simp] theorem faults_fault (failure : Failure) : (fault failure).faults env = [failure] := rfl

@[simp] theorem faults_group (name : String) (body : Expansion) :
    (group name body).faults env = body.faults env := rfl

@[simp] theorem faults_var (name : String) (body : Expansion) :
    (var name body).faults env = body.faults env := rfl

@[simp] theorem faults_record (comment : Option String) (body : Expansion) :
    (record comment body).faults env = body.faults env := rfl

@[simp] theorem faults_list (parts : List Expansion) :
    (list parts).faults env = parts.flatMap (faults env) := by
  simp only [faults, failures, failuresOfAll_eq_flatMap, List.map_flatMap]
  rfl

theorem faults_rescue (name : String) (reason : Reason) (value : Json.Value) (body : Expansion) :
    (rescue name reason value body).faults env =
      if body.faults env = [] then
        if body.addresses = [] then [.resolution name .emptyOverride] else []
      else body.faults env := by
  rw [← map_snd_failures env (0 + env.duration name) body]
  simp only [faults, failures]
  cases body.failures env (0 + env.duration name) with
  | nil => by_cases empty : body.addresses = [] <;> simp [empty]
  | cons => simp

theorem of_mem_faults_rescue {name : String} {reason : Reason} {value : Json.Value}
    {body : Expansion} {failure : Failure}
    (member : failure ∈ (rescue name reason value body).faults env) :
    failure = .resolution name .emptyOverride ∨ failure ∈ body.faults env := by
  rw [faults_rescue] at member
  split at member
  · split at member
    · exact .inl (List.mem_singleton.mp member)
    · cases member
  · exact .inr member

/-- Whether an expansion is worth something exactly if it has no fault, and nothing is lost between
    its leaves and its atoms and nothing but repetition is dropped. -/
structure Tallies (env : Environment) (e : Expansion) : Prop where
  worth_eq_none : e.worth = none ↔ e.faults env ≠ []
  distinct_eq : ∀ atoms, e.worth = some atoms →
    distinct (Atom.addressesOf atoms) = distinct e.addresses

private theorem Tallies.gathered {e body : Expansion} (tallies : Tallies env body)
    (name? : Option String)
    (worth : e.worth = body.worth.map fun atoms => (Atom.gather? atoms name?).toList)
    (faults : e.faults env = body.faults env) (addresses : e.addresses = body.addresses) :
    Tallies env e := by
  refine ⟨by rw [worth, faults, Option.map_eq_none_iff, tallies.worth_eq_none], fun atoms same => ?_⟩
  rw [worth] at same
  obtain ⟨inner, found, rfl⟩ := Option.map_eq_some_iff.mp same
  rw [Atom.addressesOf_gather?, distinct_distinct, tallies.distinct_eq inner found, addresses]

private theorem Tallies.rescue {body : Expansion} (tallies : Tallies env body) (name : String)
    (reason : Reason) (value : Json.Value) : Tallies env (.rescue name reason value body) := by
  cases worth : body.worth with
  | none =>
      have faulty := tallies.worth_eq_none.mp worth
      exact ⟨by simp [faults_rescue, worth, faulty], by simp [worth]⟩
  | some inner =>
      have clean : body.faults env = [] := by simpa [worth] using tallies.worth_eq_none
      have same := tallies.distinct_eq inner worth
      have empty : Atom.addressesOf inner = [] ↔ body.addresses = [] := by
        rw [← distinct_eq_nil, same, distinct_eq_nil]
      cases gathered : Atom.gather? inner (some name) with
      | none =>
          have none := empty.mp (Atom.gather?_eq_none.mp gathered)
          exact ⟨by simp [faults_rescue, worth, clean, gathered, none], by simp [worth, gathered]⟩
      | some atom =>
          have given : body.addresses ≠ [] := fun none =>
            Option.some_ne_none atom (gathered.symm.trans (Atom.gather?_eq_none.mpr (empty.mpr none)))
          refine ⟨by simp [faults_rescue, worth, clean, gathered, given], fun atoms found => ?_⟩
          obtain rfl : [atom] = atoms := by simpa [worth, gathered] using found
          have kept := Atom.addressesOf_gather? inner (some name)
          rw [gathered, Option.toList_some] at kept
          rw [kept, distinct_distinct, same, addresses]

private theorem Tallies.list {parts : List Expansion} (tallies : ∀ part ∈ parts, Tallies env part) :
    Tallies env (.list parts) := by
  constructor
  case worth_eq_none =>
    rw [worth_list, faults_list, together_eq_none, List.mem_map]
    constructor
    · rintro ⟨part, member, worth⟩ clean
      exact (tallies part member).worth_eq_none.mp worth
        (List.flatMap_eq_nil_iff.mp clean part member)
    · intro faulty
      by_contra sound
      refine faulty (List.flatMap_eq_nil_iff.mpr fun part member => ?_)
      by_contra fault
      exact sound ⟨part, member, (tallies part member).worth_eq_none.mpr fault⟩
  case distinct_eq =>
    intro atoms worth
    rw [worth_list] at worth
    obtain ⟨pieces, same, rfl⟩ := together_eq_some.mp worth
    rw [addresses, addressesOfAll_eq_flatMap]
    clear worth
    induction parts generalizing pieces with
    | nil => simp [List.map_eq_nil_iff.mp same.symm]
    | cons part parts ih =>
        obtain ⟨piece, rest, rfl, worth, same⟩ := List.map_eq_cons_iff.mp same.symm
        obtain ⟨here, others⟩ := List.forall_mem_cons.mp tallies
        rw [List.flatten_cons, Atom.addressesOf_append, List.flatMap_cons]
        exact distinct_append_congr (here.distinct_eq piece worth.symm) (ih others rest same.symm)

theorem tallies (env : Environment) (e : Expansion) : Tallies env e := by
  induction e using induct with
  | literal name address => exact ⟨by simp, by simp [addresses, Atom.single]⟩
  | host name ips => exact ⟨by simp, by simp [addresses, Atom.addressesOf_ofAddresses?]⟩
  | lost | fault => exact ⟨by simp, by simp⟩
  | var _ _ ih => exact ⟨ih.worth_eq_none, ih.distinct_eq⟩
  | group name body ih => exact ih.gathered (some name) (worth_group ..) rfl rfl
  | record comment body ih => exact ih.gathered comment (worth_record ..) rfl rfl
  | rescue name reason value _ ih => exact ih.rescue name reason value
  | list _ ih => exact .list ih

theorem worth_eq_none {e : Expansion} : e.worth = none ↔ e.faults env ≠ [] :=
  (tallies env e).worth_eq_none

/-- The distinct addresses of the atoms are the distinct addresses of the leaves. -/
theorem distinct_addresses (env : Environment) {e : Expansion} {atoms : List Atom}
    (worth : e.worth = some atoms) :
    distinct (Atom.addressesOf atoms) = distinct e.addresses :=
  (tallies env e).distinct_eq atoms worth

theorem gather?_eq_none (env : Environment) {e : Expansion} {atoms : List Atom}
    (worth : e.worth = some atoms) (comment : Option String) :
    Atom.gather? atoms comment = none ↔ e.addresses = [] := by
  rw [Atom.gather?_eq_none, ← distinct_eq_nil, distinct_addresses env worth, distinct_eq_nil]

/-! ## Items of faults -/

/-- Whether a failure that reports a malformed value met it in an item. -/
def IsOfItem (item : Nat) (failure : Failure) : Prop :=
  ∀ item' name fault, failure = .malformedValue item' name fault → item' = item

private theorem isOfItem_ofDefinition {scope : Scope} {name : String}
    {definition : Except Failure Term}
    (read : ∀ failure, definition = .error failure → IsOfItem scope.item failure)
    (inside : ∀ within term, scope.enter? name = .ok within →
      ∀ failure ∈ (inScope env within term).faults env, IsOfItem within.item failure) :
    ∀ failure ∈ (ofDefinition env scope name definition).faults env,
      IsOfItem scope.item failure := by
  unfold ofDefinition
  cases entered : scope.enter? name with
  | error failure =>
      intro _ member
      obtain rfl := List.mem_singleton.mp member
      obtain ⟨rfl, -⟩ := Scope.enter?_eq_error.mp entered
      nofun
  | ok within =>
      have same : within.item = scope.item := by
        obtain ⟨-, -, rfl⟩ := Scope.enter?_eq_ok.mp entered
        rfl
      cases definition with
      | error failure =>
          intro _ member
          obtain rfl := List.mem_singleton.mp member
          exact read _ rfl
      | ok term => exact fun failure member => same ▸ inside within term entered failure member

/-- A malformed value of a variable or an override reports the item in which it was met. -/
theorem isOfItem_of_mem_faults {scope : Scope} {term : Term} :
    ∀ failure ∈ (inScope env scope term).faults env, IsOfItem scope.item failure := by
  have values : ∀ {scope : Scope} {name value failure},
      scope.readValue name value = .error failure → IsOfItem scope.item failure := by
    rintro scope name value failure same item' name' fault rfl
    unfold Scope.readValue at same
    cases read : Term.ofValue value with
    | error => rw [read] at same; cases same; rfl
    | ok => rw [read] at same; cases same
  induction scope, term using unfolding_induct with
  | record scope ip comment ih =>
      rw [inScope_record]
      exact ih
  | list scope items ih =>
      intro failure member
      rw [inScope_list, faults_list, List.flatMap_map] at member
      obtain ⟨item, given, member⟩ := List.mem_flatMap.mp member
      exact ih item given failure member
  | token scope token ih =>
      have inside {definition : Except Failure Term}
          (read : ∀ failure, definition = .error failure → IsOfItem scope.item failure) :=
        isOfItem_ofDefinition read fun within term entered => ih (Text.trim token) within term entered
      have unfolds := ofName_token env scope token
      generalize inScope env scope (.literal token) = e at unfolds ⊢
      cases unfolds with
      | literal | host => nofun
      | group => exact inside nofun
      | var => exact inside fun _ => values
      | lost =>
          intro failure member
          obtain rfl := List.mem_singleton.mp member
          nofun
      | rescue =>
          intro failure member
          rcases of_mem_faults_rescue member with rfl | member
          · nofun
          · exact inside (fun _ => values) failure member

end Expansion

end AddressExpansion
