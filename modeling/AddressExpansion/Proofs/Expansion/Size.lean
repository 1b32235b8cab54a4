import Mathlib.Algebra.Ring.Nat
import Mathlib.Tactic.Common
import AddressExpansion.Run
import AddressExpansion.Proofs.Expansion.Unfolding
import AddressExpansion.Proofs.Table

/-! # How large and how deep expansions are

A token may be opened inside at most `maxNesting` others, and no definition is larger than the
breadth of the environment. This bounds what items can unfold to: its weight, which is how much
there is to be done about it, and its depth, which is how many levels visits have to go down.
-/

namespace AddressExpansion

theorem le_foldl_max {numbers : List Nat} {first number : Nat}
    (member : number ∈ numbers ∨ number ≤ first) : number ≤ numbers.foldl max first := by
  induction numbers generalizing first with
  | nil => exact member.resolve_left List.not_mem_nil
  | cons head tail ih =>
      refine ih ?_
      rcases member with member | low
      · rcases List.mem_cons.mp member with rfl | member
        · exact .inr (Nat.le_max_right _ _)
        · exact .inl member
      · exact .inr (Nat.le_trans low (Nat.le_max_left _ _))

theorem Term.sizeOfAll_eq_sum (terms : List Term) :
    Term.sizeOfAll terms = (terms.map Term.size).sum := by
  induction terms with
  | nil => rfl
  | cons term terms ih => rw [sizeOfAll, ih, List.map_cons, List.sum_cons]

theorem Term.size_le_sizeOfAll {terms : List Term} {term : Term} (member : term ∈ terms) :
    term.size ≤ Term.sizeOfAll terms := by
  induction terms with
  | nil => simp at member
  | cons head tail ih =>
      rw [sizeOfAll]
      rcases List.mem_cons.mp member with rfl | member
      · exact Nat.le_add_right _ _
      · exact Nat.le_trans (ih member) (Nat.le_add_left _ _)

namespace Environment

variable {env : Environment} {name : String} {members : List String} {value : Json.Value}
  {scope : Scope} {term : Term}

theorem group_le_breadth (meaning : env.meaning name = .group members) :
    (Term.list (members.map .literal)).size ≤ env.breadth := by
  have found : (name, members) ∈ env.inventory.groups := by
    refine Table.mem_of_find? ?_
    unfold Environment.meaning at meaning
    split at meaning
    · cases meaning
    · split at meaning
      next members' found =>
        obtain rfl := Meaning.group.inj meaning
        exact found
      next => split at meaning <;> cases meaning
  have size : (Term.list (members.map .literal)).size = members.length + 1 := by
    clear meaning found
    rw [Term.size, Term.sizeOfAll_eq_sum, List.map_map]
    induction members with
    | nil => rfl
    | cons _ _ ih =>
        simp only [List.map_cons, List.sum_cons, List.length_cons, Function.comp_apply, Term.size]
          at ih ⊢
        omega
  rw [size]
  refine le_foldl_max (.inl ?_)
  simp only [List.mem_append, List.mem_map]
  exact .inl (.inl ⟨_, found, rfl⟩)

theorem var_le_breadth (meaning : env.meaning name = .var value) :
    valueSize value ≤ env.breadth := by
  have found : (name, value) ∈ env.inventory.vars := by
    refine Table.mem_of_find? ?_
    unfold Environment.meaning at meaning
    split at meaning
    · cases meaning
    · split at meaning
      · cases meaning
      · split at meaning
        next value' found =>
          obtain rfl := Meaning.var.inj meaning
          exact found
        next => cases meaning
  refine le_foldl_max (.inl ?_)
  simp only [List.mem_append, List.mem_map]
  exact .inl (.inr ⟨_, found, rfl⟩)

theorem override_le_breadth (override : env.override? name = some value) :
    valueSize value ≤ env.breadth := by
  refine le_foldl_max (.inl ?_)
  simp only [List.mem_append, List.mem_map]
  exact .inr ⟨_, Table.mem_of_find? override, rfl⟩

theorem size_readValue (read : scope.readValue name value = .ok term) :
    term.size = valueSize value := by
  unfold Scope.readValue at read
  unfold valueSize
  cases parsed : Term.ofValue value with
  | ok term' =>
      rw [parsed] at read
      obtain rfl := Except.ok.inj read
      rfl
  | error =>
      rw [parsed] at read
      cases read

end Environment

namespace Expansion

mutual

/-- How much there is to be done about an expansion. A lookup goes through five stages. -/
def weight : Expansion → Nat
  | .literal .. | .fault _ => 1
  | .host .. | .lost .. => 5
  | .rescue _ _ _ body => body.weight + 5
  | .group _ body | .var _ body | .record _ body => body.weight + 1
  | .list parts => weightOfAll parts + 1

def weightOfAll : List Expansion → Nat
  | [] => 0
  | part :: parts => part.weight + weightOfAll parts

end

/-- Whether visits that go down some levels reach everything in an expansion. A list takes two
    levels: one to open it and one to go through its parts. -/
def Fits : (levels : Nat) → Expansion → Prop
  | 0, _ => False
  | levels + 1, e =>
    match e with
    | .literal .. | .host .. | .lost .. | .fault _ => True
    | .rescue _ _ _ body | .group _ body | .var _ body | .record _ body => body.Fits levels
    | .list parts =>
      match levels with
      | 0 => False
      | inner + 1 => ∀ part ∈ parts, part.Fits inner

theorem weightOfAll_eq_sum (parts : List Expansion) :
    weightOfAll parts = (parts.map weight).sum := by
  induction parts with
  | nil => rfl
  | cons part parts ih => rw [weightOfAll, ih, List.map_cons, List.sum_cons]

theorem fits_zero {e : Expansion} : ¬ e.Fits 0 := id

theorem Fits.mono {e : Expansion} {levels levels' : Nat} (fits : e.Fits levels)
    (more : levels ≤ levels') : e.Fits levels' := by
  induction e using Expansion.induct generalizing levels levels' with
  | literal | host | lost | fault =>
      cases levels with
      | zero => exact fits.elim
      | succ levels =>
          obtain ⟨rest, rfl⟩ := Nat.exists_eq_add_of_le' (show 1 ≤ levels' by omega)
          trivial
  | rescue _ _ _ _ ih | group _ _ ih | var _ _ ih | record _ _ ih =>
      cases levels with
      | zero => exact fits.elim
      | succ levels =>
          obtain ⟨rest, rfl⟩ := Nat.exists_eq_add_of_le' (show 1 ≤ levels' by omega)
          exact ih fits (by omega)
  | list parts ih =>
      match levels with
      | 0 | 1 => exact fits.elim
      | levels + 2 =>
          obtain ⟨rest, rfl⟩ := Nat.exists_eq_add_of_le' (show 2 ≤ levels' by omega)
          exact fun part member => ih part member (fits part member) (by omega)

/-! ## Bounds -/

/-- How a term unfolds inside one more name; none if no name may be opened any more. -/
private def inside (env : Environment) : (room : Nat) → Deeper
  | 0 => none
  | room + 1 => some (unfold env room)

private theorem unfold_eq (env : Environment) (room : Nat) (scope : Scope) (term : Term) :
    unfold env room scope term = ofTerm (ofToken env (inside env room) scope) term := by
  cases room <;> rfl

/-- Induction over what terms unfold to, with the room and the size of each term: `P` holds of
    terms and `D` of the definitions that their tokens open. -/
theorem unfold_induct {env : Environment} {P : (room size : Nat) → Expansion → Prop}
    {D : (room : Nat) → Expansion → Prop}
    (fault : ∀ room failure, D room (.fault failure))
    (opened : ∀ room size e, size ≤ env.breadth → P room size e → D (room + 1) e)
    (literal : ∀ room name address, P room 1 (.literal name address))
    (host : ∀ room name ips, P room 1 (.host name ips))
    (lost : ∀ room name reason, P room 1 (.lost name reason))
    (rescue : ∀ room name reason value body, D room body → P room 1 (.rescue name reason value body))
    (group : ∀ room name body, D room body → P room 1 (.group name body))
    (var : ∀ room name body, D room body → P room 1 (.var name body))
    (record : ∀ room size comment body, P room size body → P room (size + 1) (.record comment body))
    (list : ∀ room (items : List Term) (unfolded : Term → Expansion),
      (∀ item ∈ items, P room item.size (unfolded item)) →
        P room (Term.sizeOfAll items + 1) (.list (items.map unfolded)))
    (room : Nat) (scope : Scope) (term : Term) : P room term.size (unfold env room scope term) := by
  induction room using Nat.strongRecOn generalizing scope term with
  | ind room deeper =>
      have definition : ∀ name (defined : Except Failure Term),
          (∀ term, defined = .ok term → term.size ≤ env.breadth) →
            D room (Expansion.opened (inside env room) scope name defined) := by
        intro name defined small
        cases room with
        | zero => exact fault ..
        | succ room =>
            simp only [inside, Expansion.opened]
            split
            · exact fault ..
            · cases defined with
              | error => exact fault ..
              | ok term =>
                  exact opened _ _ _ (small term rfl) (deeper room (Nat.lt_succ_self _) _ _)
      rw [unfold_eq]
      induction term using Term.induct with
      | record ip comment ih => exact record _ _ _ _ ih
      | list items ih =>
          rw [ofTerm, ofTerms_eq_map]
          exact list _ _ _ ih
      | literal token =>
          rw [ofTerm, ofToken]
          cases meaning : env.meaning (Text.trim token) with
          | literal address => exact literal ..
          | group members =>
              refine group _ _ _ (definition _ _ ?_)
              rintro term same
              obtain rfl := Except.ok.inj same
              exact Environment.group_le_breadth meaning
          | var value =>
              refine var _ _ _ (definition _ _ fun term read => ?_)
              rw [Environment.size_readValue read]
              exact Environment.var_le_breadth meaning
          | host =>
              simp only
              split
              · exact host ..
              · split
                · exact lost ..
                · next value override =>
                  refine rescue _ _ _ _ _ (definition _ _ fun term read => ?_)
                  rw [Environment.size_readValue read]
                  exact Environment.override_le_breadth override

/-- Two levels for everything in a term, and as many for every definition inside it. -/
theorem unfold_fits (env : Environment) (room : Nat) (scope : Scope) (term : Term) :
    (unfold env room scope term).Fits (2 * term.size + 2 * (room * (env.breadth + 1))) := by
  refine unfold_induct (P := fun room size e => e.Fits (2 * size + 2 * (room * (env.breadth + 1))))
    (D := fun room e => e.Fits (2 * (room * (env.breadth + 1)) + 1))
    ?fault ?opened ?literal ?host ?lost ?rescue ?group ?var ?record ?list room scope term
  case fault => exact fun _ _ => trivial
  case opened =>
    intro room size e small fits
    refine fits.mono ?_
    rw [Nat.add_mul, Nat.one_mul]
    omega
  case literal | host | lost =>
    intros
    rw [Nat.mul_one, Nat.add_comm]
    trivial
  case rescue | group | var =>
    intros
    rw [Nat.mul_one, Nat.add_comm]
    assumption
  case record =>
    intro room size comment body fits
    rw [show 2 * (size + 1) + 2 * (room * (env.breadth + 1)) =
      2 * size + 2 * (room * (env.breadth + 1)) + 1 + 1 by omega]
    exact Fits.mono (e := body) fits (Nat.le_succ _)
  case list =>
    intro room items unfolded fits
    rw [show 2 * (Term.sizeOfAll items + 1) + 2 * (room * (env.breadth + 1)) =
      2 * Term.sizeOfAll items + 2 * (room * (env.breadth + 1)) + 2 by omega]
    intro part member
    obtain ⟨item, given, rfl⟩ := List.mem_map.mp member
    have small := Term.size_le_sizeOfAll given
    exact (fits item given).mono (by omega)

/-- Every definition inside a term multiplies its weight at most by the breadth. -/
theorem weight_unfold_le (env : Environment) (room : Nat) (scope : Scope) (term : Term) :
    (unfold env room scope term).weight ≤ term.size * (6 * (env.breadth + 1) ^ room) := by
  have one_le : ∀ room, 1 ≤ (env.breadth + 1) ^ room := fun room => Nat.pow_pos (Nat.succ_pos _)
  refine unfold_induct (P := fun room size e => e.weight ≤ size * (6 * (env.breadth + 1) ^ room))
    (D := fun room e => e.weight + 5 ≤ 6 * (env.breadth + 1) ^ room)
    ?fault ?opened ?literal ?host ?lost ?rescue ?group ?var ?record ?list room scope term
  case fault =>
    intro room _
    have := one_le room
    simp only [weight]
    omega
  case opened =>
    intro room size e small heavy
    have more := Nat.mul_le_mul_right (6 * (env.breadth + 1) ^ room) small
    have unit := one_le room
    rw [Nat.pow_succ, ← Nat.mul_assoc, Nat.mul_add, Nat.mul_one, Nat.mul_comm _ env.breadth]
    omega
  case literal | host | lost =>
    intro room
    have := one_le room
    simp only [weight]
    omega
  case rescue | group | var =>
    intros
    simp only [weight]
    omega
  case record =>
    intro room size comment body heavy
    have := one_le room
    rw [weight, Nat.add_mul]
    omega
  case list =>
    intro room items unfolded heavy
    have := one_le room
    have total : weightOfAll (items.map unfolded) ≤
        Term.sizeOfAll items * (6 * (env.breadth + 1) ^ room) := by
      induction items with
      | nil => simp [weightOfAll]
      | cons item items ih =>
          have first := heavy item (by simp)
          have rest := ih fun item member => heavy item (by simp [member])
          rw [List.map_cons, weightOfAll, Term.sizeOfAll, Nat.add_mul]
          omega
    rw [weight, Nat.add_mul]
    omega

end Expansion

end AddressExpansion
