import AddressExpansion.Proofs.Close
import AddressExpansion.Proofs.Expansion.Parts
import AddressExpansion.Task

/-! # How an expansion comes to a close

What an expansion comes to and when, if no lookup has to wait for a line. A success comes with the
last of the leaves (`finish_eq_of_sound`). A failure comes with the first of all failures
(`close_eq_ofTimes`), except that many parts have to be over from left to right.
-/

namespace AddressExpansion.Expansion

mutual

/-- How an expansion that begins at a time comes to a close. -/
def close (env : Environment) (time : Nat) : Expansion → Close
  | .literal .. => .well time
  | .fault _ => .failed time
  | .host name _ => .well (time + env.duration name)
  | .lost name _ => .failed (time + env.duration name)
  | .rescue name _ _ body =>
    let close := body.close env (time + env.duration name)
    if body.addresses = [] then .failed close.time else close
  | .group _ body | .var _ body | .record _ body => body.close env time
  | .list parts =>
    if parts.length ≤ joinLimit then .ofJoin time (closes env time parts)
    else .ofCrowd time (closes env time parts)

def closes (env : Environment) (time : Nat) : List Expansion → List Close
  | [] => []
  | part :: parts => part.close env time :: closes env time parts

end

/-- How an expansion of a name that has to be looked up comes to a close, given when the lookup
    ends. -/
def closeAnswered (env : Environment) (ends : Nat) : Expansion → Close
  | .host .. => .well ends
  | .rescue _ _ _ body =>
    if body.addresses = [] then .failed (body.close env ends).time else body.close env ends
  | _ => .failed ends

mutual

/-- When each leaf of an expansion that begins at a time is over, from left to right. -/
def leafTimes (env : Environment) (time : Nat) : Expansion → List Nat
  | .literal .. | .fault _ => [time]
  | .host name _ | .lost name _ => [time + env.duration name]
  | .rescue name _ _ body => body.leafTimes env (time + env.duration name)
  | .group _ body | .var _ body | .record _ body => body.leafTimes env time
  | .list parts => leafTimesOfAll env time parts

def leafTimesOfAll (env : Environment) (time : Nat) : List Expansion → List Nat
  | [] => []
  | part :: parts => part.leafTimes env time ++ leafTimesOfAll env time parts

end

mutual

/-- Whether no failure has to wait for the parts before it: no part of a list of many parts has a
    fault. -/
def Prompt (env : Environment) : Expansion → Prop
  | .literal .. | .host .. | .lost .. | .fault _ => True
  | .rescue _ _ _ body | .group _ body | .var _ body | .record _ body => body.Prompt env
  | .list parts =>
    (parts.length ≤ joinLimit ∨ ∀ part ∈ parts, part.faults env = []) ∧ AllPrompt env parts

def AllPrompt (env : Environment) : List Expansion → Prop
  | [] => True
  | part :: parts => part.Prompt env ∧ AllPrompt env parts

end

variable {env : Environment}

@[simp] theorem closes_eq_map (time : Nat) (parts : List Expansion) :
    closes env time parts = parts.map (close env time) := by
  induction parts with
  | nil => rfl
  | cons part parts ih => simp only [closes, List.map_cons, ih]

@[simp] theorem leafTimesOfAll_eq_flatMap (time : Nat) (parts : List Expansion) :
    leafTimesOfAll env time parts = parts.flatMap (leafTimes env time) := by
  induction parts with
  | nil => rfl
  | cons part parts ih => simp only [leafTimesOfAll, List.flatMap_cons, ih]

@[simp] theorem allPrompt_iff {parts : List Expansion} :
    AllPrompt env parts ↔ ∀ part ∈ parts, part.Prompt env := by
  induction parts with
  | nil => simp [AllPrompt]
  | cons part parts ih => simp [AllPrompt, ih]

theorem le_time_close (time : Nat) (e : Expansion) : time ≤ (e.close env time).time := by
  induction e using induct generalizing time with
  | literal | fault => exact Nat.le_refl _
  | host | lost => exact Nat.le_add_right ..
  | group _ _ ih | var _ _ ih | record _ _ ih => exact ih time
  | rescue name reason value body ih =>
      have later := Nat.le_trans (Nat.le_add_right ..) (ih (time + env.duration name))
      simp only [close]
      split <;> exact later
  | list parts ih =>
      have late : ∀ c ∈ parts.map (close env time), time ≤ c.time := by
        intro c member
        obtain ⟨part, given, rfl⟩ := List.mem_map.mp member
        exact ih part given time
      simp only [close, closes_eq_map]
      split
      · exact Close.le_time_ofJoin late
      · exact Close.le_time_ofCrowd late

/-- An expansion comes to a good close exactly if it has no fault. -/
theorem isWell_close_iff {time : Nat} {e : Expansion} :
    (e.close env time).isWell ↔ e.faults env = [] := by
  induction e using induct generalizing time with
  | literal | host => exact iff_of_true rfl rfl
  | lost | fault => exact iff_of_false nofun nofun
  | group _ _ ih | var _ _ ih | record _ _ ih => exact ih
  | rescue name reason value body ih =>
      simp only [close, faults_rescue]
      by_cases empty : body.addresses = []
      · by_cases clean : body.faults env = [] <;> simp [empty, clean]
      · by_cases clean : body.faults env = [] <;> simp [empty, clean, ih]
  | list parts ih =>
      have each : (parts.map (close env time)).all Close.isWell ↔
          (list parts).faults env = [] := by
        rw [List.all_map, List.all_eq_true, faults_list, List.flatMap_eq_nil_iff]
        exact forall₂_congr fun part member => ih part member
      simp only [close, closes_eq_map]
      split
      · rwa [Close.isWell_ofJoin]
      · rwa [Close.isWell_ofCrowd]

theorem isWell_close (time : Nat) (e : Expansion) :
    (e.close env time).isWell = e.worth.isSome := by
  have worthless : e.worth = none ↔ e.faults env ≠ [] := worth_eq_none
  rw [Bool.eq_iff_iff, isWell_close_iff, Option.isSome_iff_ne_none, ne_eq, worthless, not_not]

/-! ## Lookups -/

theorem close_ofHost (time : Nat) (scope : Scope) (name : String) :
    (ofHost env scope name).close env time =
      (ofHost env scope name).closeAnswered env (time + env.duration name) := by
  unfold ofHost
  cases env.outcome name with
  | ok => rfl
  | error =>
      cases env.override? name with
      | none => rfl
      | some => simp only [close, closeAnswered]

theorem le_time_closeAnswered (ends : Nat) (e : Expansion) :
    ends ≤ (e.closeAnswered env ends).time := by
  unfold closeAnswered
  split
  · exact Nat.le_refl _
  · split <;> exact le_time_close ..
  · exact Nat.le_refl _

/-! ## Successes -/

private theorem foldr_max (times : List Nat) (start time : Nat) :
    times.foldr max (max start time) = max (times.foldr max start) time := by
  induction times with
  | nil => rfl
  | cons first times ih => rw [List.foldr_cons, List.foldr_cons, ih, Nat.max_assoc]

private theorem le_foldr_max {times : List Nat} {time : Nat} (member : time ∈ times)
    (start : Nat) : time ≤ times.foldr max start := by
  induction times with
  | nil => cases member
  | cons first times ih =>
      rcases List.mem_cons.mp member with rfl | member
      · exact Nat.le_max_left ..
      · exact Nat.le_trans (ih member) (Nat.le_max_right ..)

theorem le_of_mem_leafTimes {e : Expansion} {time leaf : Nat}
    (member : leaf ∈ e.leafTimes env time) : time ≤ leaf := by
  induction e using induct generalizing time with
  | literal | fault =>
      obtain rfl := List.mem_singleton.mp member
      exact Nat.le_refl _
  | host | lost =>
      obtain rfl := List.mem_singleton.mp member
      exact Nat.le_add_right ..
  | group _ _ ih | var _ _ ih | record _ _ ih => exact ih member
  | rescue _ _ _ _ ih => exact Nat.le_trans (Nat.le_add_right ..) (ih member)
  | list parts ih =>
      rw [leafTimes, leafTimesOfAll_eq_flatMap] at member
      obtain ⟨part, given, member⟩ := List.mem_flatMap.mp member
      exact ih part given member

theorem leafTimes_ne_nil {e : Expansion} (filled : e.addresses ≠ []) (time : Nat) :
    e.leafTimes env time ≠ [] := by
  induction e using induct generalizing time with
  | literal | host | lost | fault => exact List.cons_ne_nil _ _
  | group _ _ ih | var _ _ ih | record _ _ ih => exact ih filled time
  | rescue _ _ _ _ ih => exact ih filled _
  | list parts ih =>
      rw [leafTimes, leafTimesOfAll_eq_flatMap, ne_eq, List.flatMap_eq_nil_iff]
      intro none
      refine filled ?_
      rw [addresses, addressesOfAll_eq_flatMap, List.flatMap_eq_nil_iff]
      intro part member
      by_contra some
      exact ih part member some time (none part member)

theorem finish_eq_of_sound {e : Expansion} (sound : e.faults env = []) (time : Nat) :
    e.finish env time = (e.leafTimes env time).foldr max time := by
  induction e using induct generalizing time with
  | literal | fault => exact (Nat.max_self _).symm
  | host | lost => exact (Nat.max_eq_left (Nat.le_add_right ..)).symm
  | group _ _ ih | var _ _ ih | record _ _ ih => exact ih sound time
  | rescue name reason value body ih =>
      -- The override has a leaf, so the end of the failed lookup is not the last to count.
      obtain ⟨clean, filled⟩ := sound_of_rescue sound
      rw [finish, leafTimes, ih clean]
      have some_leaf : body.leafTimes env (time + env.duration name) ≠ [] :=
        leafTimes_ne_nil filled _
      obtain ⟨leaf, member⟩ := List.exists_mem_of_ne_nil _ some_leaf
      have late := Nat.le_trans (le_of_mem_leafTimes member) (le_foldr_max member time)
      have moved := foldr_max (body.leafTimes env (time + env.duration name)) time
        (time + env.duration name)
      rwa [Nat.max_eq_left late, Nat.max_eq_right (Nat.le_add_right ..)] at moved
  | list parts ih =>
      rw [faults_list, List.flatMap_eq_nil_iff] at sound
      rw [finish, leafTimes]
      induction parts with
      | nil => rfl
      | cons part parts ihParts =>
          obtain ⟨clean, others⟩ := List.forall_mem_cons.mp sound
          rw [finishOfAll, leafTimesOfAll, List.foldr_append, ih part List.mem_cons_self clean,
            ihParts (fun part member => ih part (List.mem_cons_of_mem _ member)) others]
          have start : (leafTimesOfAll env time parts).foldr max time =
              max time ((leafTimesOfAll env time parts).foldr max time) := by
            rw [Nat.max_comm, ← foldr_max, Nat.max_self]
          rw [start, foldr_max, ← start]

theorem prompt_of_sound {e : Expansion} (sound : e.faults env = []) : e.Prompt env := by
  induction e using induct with
  | literal | host | lost | fault => trivial
  | group _ _ ih | var _ _ ih | record _ _ ih => exact ih sound
  | rescue _ _ _ _ ih => exact ih (sound_of_rescue sound).1
  | list parts ih =>
      rw [faults_list, List.flatMap_eq_nil_iff] at sound
      exact ⟨.inr sound, allPrompt_iff.mpr fun part member => ih part member (sound part member)⟩

/-! ## Failures -/

private theorem ofJoin_eq_ofTimes {time : Nat} {parts : List Expansion}
    (each : ∀ part ∈ parts, part.close env time =
      .ofTimes ((part.failures env time).map Prod.fst) (part.finish env time)) :
    Close.ofJoin time (closes env time parts) =
      .ofTimes ((failuresOfAll env time parts).map Prod.fst) (finishOfAll env time parts) := by
  induction parts with
  | nil => rfl
  | cons part parts ih =>
      obtain ⟨here, there⟩ := List.forall_mem_cons.mp each
      rw [closes, Close.ofJoin, here, ih there, Close.ofTimes_beside, failuresOfAll, finishOfAll,
        List.map_append]

/-- A failure of a prompt expansion comes with the first of all its failures. -/
theorem close_eq_ofTimes {e : Expansion} (prompt : e.Prompt env) (time : Nat) :
    e.close env time = .ofTimes ((e.failures env time).map Prod.fst) (e.finish env time) := by
  induction e using induct generalizing time with
  | literal | host | lost | fault => rfl
  | group _ _ ih | var _ _ ih | record _ _ ih => exact ih prompt time
  | rescue name reason value body ih =>
      simp only [close, failures, finish, ih prompt]
      cases body.failures env (time + env.duration name) with
      | nil =>
          by_cases empty : body.addresses = []
          · simp only [if_pos empty]
            rfl
          · simp only [if_neg empty]
      | cons first others =>
          simp only [List.map_cons, Close.ofTimes_cons]
          generalize Close.ofTimes (others.map Prod.fst) _ = rest
          have failing : ((Close.failed first.1).beside rest).isWell = false := by
            cases rest <;> rfl
          rw [Close.failed_time_of_not_isWell failing, ite_self]
  | list parts ih =>
      obtain ⟨narrow, all⟩ := prompt
      rw [allPrompt_iff] at all
      have each := ofJoin_eq_ofTimes fun part member => ih part member (all part member) time
      rw [close, failures, finish]
      split
      · exact each
      · rename_i many
        have sound := narrow.resolve_left many
        rw [← each, closes_eq_map]
        refine Close.ofCrowd_eq_ofJoin fun c member => ?_
        obtain ⟨part, given, rfl⟩ := List.mem_map.mp member
        exact isWell_close_iff.mpr (sound part given)

end AddressExpansion.Expansion
