import AddressExpansion.Proofs.Expansion.Parts

/-! # Warnings of sound expansions

An expansion without faults is due one warning for each of its lookups that failed, since each of
them is rescued, and one for each group that yields no atom.
-/

namespace AddressExpansion

/-- The warning for the lookup of a name, if it fails and is rescued. -/
def Environment.rescue? (env : Environment) (name : String) : Option Message :=
  match env.outcome name with
  | .ok _ => none
  | .error reason => (env.override? name).map (.rescued (.resolution name reason))

namespace Expansion

mutual

/-- The groups that yield no atom. -/
def vacantGroups : Expansion → List String
  | .literal .. | .host .. | .lost .. | .fault _ => []
  | .group name body =>
    body.vacantGroups ++ if (group name body).worth = some [] then [name] else []
  | .rescue _ _ _ body | .var _ body | .record _ body => body.vacantGroups
  | .list parts => vacantGroupsOfAll parts

def vacantGroupsOfAll : List Expansion → List String
  | [] => []
  | part :: parts => part.vacantGroups ++ vacantGroupsOfAll parts

end

@[simp] theorem vacantGroupsOfAll_eq_flatMap (parts : List Expansion) :
    vacantGroupsOfAll parts = parts.flatMap vacantGroups := by
  induction parts with
  | nil => rfl
  | cons part parts ih => simp only [vacantGroupsOfAll, List.flatMap_cons, ih]

variable {env : Environment} {e : Expansion}

theorem worth_group_eq_nil (name : String) {body : Expansion} (sound : body.faults env = []) :
    (group name body).worth = some [] ↔ body.addresses = [] := by
  obtain ⟨atoms, found⟩ := Option.ne_none_iff_exists'.mp fun lost => worth_eq_none.mp lost sound
  rw [worth_group, found, Option.map_some, Option.some_inj, Option.toList_eq_nil_iff]
  exact gather?_eq_none env found (some name)

theorem warnings_perm (sound : e.faults env = [])
    (supplied : ∀ part, Inside part e → part.Supplied env) :
    e.warnings.Perm (e.lookups.filterMap env.rescue? ++ e.vacantGroups.map .emptyGroup) := by
  induction e using induct with
  | literal | fault => exact .nil
  | lost => exact absurd (supplied _ .whole) id
  | host name ips =>
      obtain ⟨answered, -⟩ := supplied _ .whole
      simp [warnings, lookups, vacantGroups, Environment.rescue?, answered]
  | rescue name reason value body ih =>
      obtain ⟨failed, override, -⟩ := supplied _ .whole
      have inner := ih (sound_of_rescue sound).1 fun part inside => supplied part (.rescue inside)
      have rescued : env.rescue? name = some (.rescued (.resolution name reason) value) := by
        simp only [Environment.rescue?, failed, override, Option.map_some]
      rw [warnings, lookups, vacantGroups, List.filterMap_cons_some rescued]
      exact inner.cons _
  | group name body ih =>
      have clean : body.faults env = [] := sound
      have inner := ih clean fun part inside => supplied part (.group inside)
      have empty : (if body.addresses = [] then [.emptyGroup name] else []) =
          (if (group name body).worth = some [] then [name] else []).map Message.emptyGroup := by
        simp only [worth_group_eq_nil name clean]
        split <;> rfl
      rw [warnings, lookups, vacantGroups, empty, List.map_append, ← List.append_assoc]
      exact inner.append_right _
  | var name body ih => exact ih sound fun part inside => supplied part (.var inside)
  | record comment body ih => exact ih sound fun part inside => supplied part (.record inside)
  | list parts ih =>
      rw [faults_list, List.flatMap_eq_nil_iff] at sound
      have inner := List.Perm.flatMap_left parts fun part member =>
        ih part member (sound part member) fun e inside => supplied e (.list member inside)
      simp only [warnings, lookups, vacantGroups, warningsOfAll_eq_flatMap,
        lookupsOfAll_eq_flatMap, vacantGroupsOfAll_eq_flatMap, List.filterMap_flatMap,
        List.map_flatMap]
      exact inner.trans (List.flatMap_append_perm ..).symm

/-- In an expansion without faults every failed lookup has an override. -/
theorem exists_rescue_of_mem_lookups (supplied : ∀ part, Inside part e → part.Supplied env)
    {name : String} (member : name ∈ e.lookups) {reason : Reason}
    (failed : env.outcome name = .error reason) :
    ∃ value, env.override? name = some value ∧
      env.rescue? name = some (.rescued (.resolution name reason) value) := by
  induction e using induct with
  | literal | fault => cases member
  | lost => exact absurd (supplied _ .whole) id
  | host name' ips =>
      obtain rfl := List.mem_singleton.mp member
      rw [(supplied _ .whole).1] at failed
      cases failed
  | rescue name' reason' value body ih =>
      rcases List.mem_cons.mp member with rfl | member
      · refine ⟨value, (supplied _ .whole).2.1, ?_⟩
        simp only [Environment.rescue?, failed, (supplied _ .whole).2.1, Option.map_some]
      · exact ih (fun part inside => supplied part (.rescue inside)) member
  | group name body ih => exact ih (fun part inside => supplied part (.group inside)) member
  | var name body ih => exact ih (fun part inside => supplied part (.var inside)) member
  | record comment body ih => exact ih (fun part inside => supplied part (.record inside)) member
  | list parts ih =>
      rw [lookups, lookupsOfAll_eq_flatMap] at member
      obtain ⟨part, given, member⟩ := List.mem_flatMap.mp member
      exact ih part given (fun e inside => supplied e (.list given inside)) member

end Expansion

end AddressExpansion
