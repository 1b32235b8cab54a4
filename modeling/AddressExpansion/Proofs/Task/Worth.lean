import AddressExpansion.Proofs.Expansion.Worth
import AddressExpansion.Proofs.Task.Visit

/-! # What a task is worth

A task on its way is worth the atoms that it will come to, and its faults are the failures that it
may come to. Main statements: a step does not change what a task is worth (`Step.worth_eq`), and
brings no new fault (`Step.faults_subset`).
-/

namespace AddressExpansion

theorem Gathering.toOption_gather_override (name : String) (atoms : List Atom) :
    (gather (.override name) atoms).toOption =
      (Atom.gather? atoms (some name)).map ([·]) := by
  simp only [gather]
  cases Atom.gather? atoms (some name) <;> rfl

namespace Task

mutual

/-- The atoms that a task will come to, if it has no fault. -/
def worth (env : Environment) : Task → Option (List Atom)
  | .fresh scope term => (Expansion.inScope env scope term).worth
  | .lookup scope name _ => (Expansion.ofHost env scope name).worth
  | .gather _ gathering body =>
    (worth env body).bind fun atoms => (gathering.gather atoms).toOption
  | .join parts | .crowd _ parts => together (worths env parts)
  | .ended outcome => outcome.toOption

def worths (env : Environment) : List Task → List (Option (List Atom))
  | [] => []
  | task :: tasks => worth env task :: worths env tasks

end

mutual

/-- The failures that a task may come to. -/
def faults (env : Environment) : Task → List Failure
  | .fresh scope term => (Expansion.inScope env scope term).faults env
  | .lookup scope name _ => (Expansion.ofHost env scope name).faults env
  | .gather _ gathering body =>
    match worth env body with
    | none => faults env body
    | some atoms =>
      match gathering.gather atoms with
      | .ok _ => []
      | .error failure => [failure]
  | .join parts | .crowd _ parts => faultsOfAll env parts
  | .ended (.ok _) => []
  | .ended (.error failure) => [failure]

def faultsOfAll (env : Environment) : List Task → List Failure
  | [] => []
  | task :: tasks => faults env task ++ faultsOfAll env tasks

end

variable {env : Environment}

@[simp] theorem worths_eq_map (tasks : List Task) : worths env tasks = tasks.map (worth env) := by
  induction tasks with
  | nil => rfl
  | cons task tasks ih => simp only [worths, List.map_cons, ih]

@[simp] theorem faultsOfAll_eq_flatMap (tasks : List Task) :
    faultsOfAll env tasks = tasks.flatMap (faults env) := by
  induction tasks with
  | nil => rfl
  | cons task tasks ih => simp only [faultsOfAll, List.flatMap_cons, ih]

/-! ## Definitions and lookups -/

variable {scope : Scope} {name : String} {e : Expansion} {task : Task}

theorem Uses.worth_eq {use : Task → Task} (uses : Uses env use e task)
    (f : List Atom → Option (List Atom))
    (used : ∀ task, worth env (use task) = (worth env task).bind f) :
    worth env task = e.worth.bind f := by
  cases uses with
  | refused => rfl
  | inside => exact used _

theorem Opens.worth_eq (opens : Opens env scope name e task) : worth env task = e.worth := by
  cases opens with
  | literal => simp only [worth, Except.toOption, Expansion.worth_literal]
  | host => simp only [worth]
  | group uses =>
      simp only [Expansion.worth_group, Option.map_eq_bind]
      exact uses.worth_eq _ fun task => by simp only [worth]; rfl
  | var uses =>
      simp only [Expansion.worth_var]
      refine (uses.worth_eq some fun task => ?_).trans (Option.bind_fun_some _)
      exact (Option.bind_fun_some _).symm

theorem Answers.worth_eq (answers : Answers env scope name e task) : worth env task = e.worth := by
  cases answers with
  | found | lost => rfl
  | rescued _ _ uses =>
      rw [Expansion.worth_rescue]
      refine uses.worth_eq _ fun task => ?_
      simp only [worth, Gathering.toOption_gather_override]

/-- The failures of a part that is gathered, where the part is an expansion. -/
private theorem faults_gather_of_sound {scope : Scope} {gathering : Gathering} {body : Task}
    {e : Expansion} (same : faults env body = e.faults env) (worth_eq : worth env body = e.worth)
    (sound : ∀ atoms, ∃ atoms', gathering.gather atoms = .ok atoms') :
    faults env (.gather scope gathering body) = e.faults env := by
  rw [faults, worth_eq]
  cases found : e.worth with
  | none => exact same
  | some atoms =>
      obtain ⟨atoms', gathered⟩ := sound atoms
      have clean : e.faults env = [] := by
        by_contra faulty
        simp [Expansion.worth_eq_none.mpr faulty] at found
      simp only [gathered, clean]

private theorem faults_gather_override {scope within : Scope} {name : String} (reason : Reason)
    (value : Json.Value) {term : Term} :
    faults env (.gather scope (.override name) (.fresh within term)) =
      (Expansion.rescue name reason value (Expansion.inScope env within term)).faults env := by
  rw [Expansion.faults_rescue, faults, worth]
  cases found : (Expansion.inScope env within term).worth with
  | none =>
      rw [if_neg (Expansion.worth_eq_none.mp found)]
      rfl
  | some atoms =>
      have clean : (Expansion.inScope env within term).faults env = [] := by
        by_contra faulty
        simp [Expansion.worth_eq_none.mpr faulty] at found
      have empty := Expansion.gather?_eq_none env found (some name)
      rw [if_pos clean]
      simp only [Gathering.gather]
      cases gathered : Atom.gather? atoms (some name) with
      | none => rw [if_pos (empty.mp gathered)]
      | some atom =>
          rw [if_neg fun none => Option.some_ne_none atom (gathered.symm.trans (empty.mpr none))]

theorem Opens.faults_eq (opens : Opens env scope name e task) :
    faults env task = e.faults env := by
  cases opens with
  | literal => simp only [faults, Expansion.faults_literal]
  | host => simp only [faults]
  | group uses =>
      simp only [Expansion.faults_group]
      cases uses with
      | refused => rfl
      | inside => exact faults_gather_of_sound rfl rfl fun atoms => ⟨_, rfl⟩
  | var uses =>
      simp only [Expansion.faults_var]
      cases uses with
      | refused | inside => rfl

theorem Answers.faults_subset (answers : Answers env scope name e task) :
    faults env task ⊆ e.faults env := by
  cases answers with
  | found | lost => exact List.Subset.refl _
  | @rescued reason value _ _ _ _ uses =>
      cases uses with
      | refused => simp [Expansion.faults_rescue, faults]
      | inside =>
          rw [faults_gather_override reason value]
          exact List.Subset.refl _

/-! ## Settled lists -/

theorem eq_ended_of_failure? {task : Task} {failure : Failure}
    (failed : task.failure? = some failure) : task = .ended (.error failure) := by
  cases task with
  | ended outcome =>
      cases outcome with
      | error _ => rw [Option.some.inj failed]
      | ok _ => simp [failure?] at failed
  | fresh | lookup | gather | join | crowd => simp [failure?] at failed

/-- A list that is settled in order is worth what it settled to, and a failure that settled it is
    one of its faults. -/
theorem settled_in_order {parts : List Task} {outcome : Outcome}
    (settled : outcomeInOrder? parts = some outcome) :
    together (parts.map (worth env)) = outcome.toOption ∧
      ∀ failure, outcome = .error failure → failure ∈ parts.flatMap (faults env) := by
  fun_induction outcomeInOrder? generalizing outcome with
  | case1 =>
      obtain rfl := Option.some.inj settled
      refine ⟨rfl, ?_⟩
      intro failure same
      cases same
  | case2 tasks atoms ih =>
      obtain ⟨rest, found, rfl⟩ := Option.map_eq_some_iff.mp settled
      obtain ⟨worth_eq, fault⟩ := ih found
      simp only [List.map_cons, worth, Except.toOption, together, worth_eq, List.flatMap_cons]
      cases rest with
      | error failure =>
          refine ⟨rfl, fun failure' same => List.mem_append_right _ (fault failure' ?_)⟩
          simpa [Except.map] using same
      | ok =>
          refine ⟨rfl, ?_⟩
          intro failure same
          cases same
  | case3 tasks failure =>
      obtain rfl := Option.some.inj settled
      refine ⟨by simp [worth, Except.toOption, together], fun failure' same => ?_⟩
      obtain rfl := Except.error.inj same
      simp [faults]
  | case4 => simp at settled

theorem settled_together {parts : List Task} {outcome : Outcome}
    (settled : outcomeTogether? parts = some outcome) :
    together (parts.map (worth env)) = outcome.toOption ∧
      ∀ failure, outcome = .error failure → failure ∈ parts.flatMap (faults env) := by
  unfold outcomeTogether? at settled
  split at settled
  case h_1 failure found =>
    obtain rfl := Option.some.inj settled
    obtain ⟨part, member, failed⟩ := List.exists_of_findSome?_eq_some found
    obtain rfl := eq_ended_of_failure? failed
    constructor
    · refine together_eq_none.mpr (List.mem_map.mpr ⟨_, member, ?_⟩)
      simp [worth, Except.toOption]
    · rintro failure' same
      obtain rfl := Except.error.inj same
      exact List.mem_flatMap.mpr ⟨_, member, by simp [faults]⟩
  case h_2 => exact settled_in_order settled

/-! ## Steps -/

variable {bell : Bell} {task task' : Task} {p p' : Progress}

theorem Act.worth_eq (act : Act env bell task p task' p') : worth env task' = worth env task := by
  cases act with
  | trace | spend | putOff | draw | take | claim | setAlarm | roster | ring => rfl
  | token => simp only [(opens_token ..).worth_eq, worth]
  | hangUp => simp only [(answers_host ..).worth_eq, worth]
  | record =>
      simp only [worth, Expansion.inScope_record, Expansion.worth_record, Option.map_eq_bind]
      rfl
  | openJoin | openCrowd =>
      simp only [worth, worths_eq_map, Expansion.inScope_list, Expansion.worth_list, List.map_map]
      rfl
  | finish => simp only [worth, Except.toOption, Option.bind_some]
  | fail => simp only [worth, Except.toOption, Option.bind_none]
  | settleJoin settled => simp only [worth, worths_eq_map, (settled_together settled).1]
  | settleCrowd settled => simp only [worth, worths_eq_map, (settled_in_order settled).1]

theorem Step.worth_eq (step : Step env bell task p task' p') :
    worth env task' = worth env task := by
  induction step with
  | act act => exact act.worth_eq
  | inGather _ ih => simp only [worth, ih]
  | inJoin _ ih | inCrowd _ ih =>
      simp only [worth, worths_eq_map, List.map_append, List.map_cons, ih]

private theorem subset_of_outcome {outcome : Outcome} {failures : List Failure}
    (fault : ∀ failure, outcome = .error failure → failure ∈ failures) :
    faults env (.ended outcome) ⊆ failures := by
  cases outcome with
  | ok => simp [faults]
  | error failure => simpa [faults] using fault failure rfl

theorem Act.faults_subset (act : Act env bell task p task' p') :
    faults env task' ⊆ faults env task := by
  cases act with
  | trace | spend | putOff | draw | take | claim | setAlarm | roster | ring =>
      exact List.Subset.refl _
  | token => simp only [(opens_token ..).faults_eq, faults, List.Subset.refl]
  | hangUp =>
      simp only [faults]
      exact (answers_host ..).faults_subset
  | @record scope ip =>
      rw [faults_gather_of_sound (e := Expansion.inScope env scope ip) (by simp only [faults])
        (by simp only [worth]) fun atoms => ⟨_, rfl⟩]
      simp only [faults, Expansion.inScope_record, Expansion.faults_record, List.Subset.refl]
  | openJoin | openCrowd =>
      simp only [faults, faultsOfAll_eq_flatMap, Expansion.inScope_list, Expansion.faults_list,
        List.flatMap_map, List.Subset.refl]
  | finish =>
      refine subset_of_outcome fun failure same => ?_
      simp [faults, worth, Except.toOption, same]
  | fail => simp [faults, worth, Except.toOption]
  | settleJoin settled =>
      simpa only [faults, faultsOfAll_eq_flatMap] using
        subset_of_outcome (settled_together settled).2
  | settleCrowd settled =>
      simpa only [faults, faultsOfAll_eq_flatMap] using
        subset_of_outcome (settled_in_order settled).2

theorem Step.faults_subset (step : Step env bell task p task' p') :
    faults env task' ⊆ faults env task := by
  induction step with
  | act act => exact act.faults_subset
  | inGather inner ih =>
      simp only [faults, inner.worth_eq]
      split
      · exact ih
      · exact List.Subset.refl _
  | inJoin _ ih | inCrowd _ ih =>
      simp only [faults, faultsOfAll_eq_flatMap, List.flatMap_append, List.flatMap_cons]
      intro failure member
      simp only [List.mem_append] at member ⊢
      exact member.imp_right (Or.imp_left (ih ·))

end Task

end AddressExpansion
