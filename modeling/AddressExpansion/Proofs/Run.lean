import Mathlib.Tactic.Linarith
import AddressExpansion.Proofs.Task.Calls
import AddressExpansion.Proofs.Task.Start

/-! # Runs

What a run comes to. It has enough turns, so it ends with what its items are worth or with one of
their failures, unless it is cancelled (`ofTerms_spec`).
-/

namespace AddressExpansion

open Site

namespace Task

def start (terms : List Term) (p : Progress) : Task × Progress :=
  (ofParts (freshItems 0 terms)).run p

variable {env : Environment} {terms : List Term} {index lines : Nat} {p : Progress}

/-! ## Items -/

theorem length_freshItems (index : Nat) (terms : List Term) :
    (freshItems index terms).length = terms.length := by
  induction terms generalizing index with
  | nil => rfl
  | cons term terms ih => simp only [freshItems, List.length_cons, ih]

theorem mem_freshItems {part : Task} (member : part ∈ freshItems index terms) :
    ∃ i term, term ∈ terms ∧ part = .fresh (.root i) term := by
  induction terms generalizing index with
  | nil => cases member
  | cons term terms ih =>
      rcases List.mem_cons.mp member with rfl | member
      · exact ⟨index, term, List.mem_cons_self, rfl⟩
      · obtain ⟨i, term', given, same⟩ := ih member
        exact ⟨i, term', List.mem_cons_of_mem _ given, same⟩

private theorem new_of_mem_freshItems {part : Task} (member : part ∈ freshItems index terms) :
    ∃ scope term, part = .fresh scope term := by
  obtain ⟨i, term, -, same⟩ := mem_freshItems member
  exact ⟨.root i, term, same⟩

theorem worths_freshItems :
    worths env (freshItems index terms) =
      (Expansion.ofItems env index terms).map Expansion.worth := by
  induction terms generalizing index with
  | nil => rfl
  | cons term terms ih =>
      rw [freshItems, worths, ih, Expansion.ofItems_cons, List.map_cons, worth]

theorem faults_freshItems :
    faultsOfAll env (freshItems index terms) =
      (Expansion.ofItems env index terms).flatMap (Expansion.faults env) := by
  induction terms generalizing index with
  | nil => rfl
  | cons term terms ih =>
      rw [freshItems, faultsOfAll, ih, Expansion.ofItems_cons, List.flatMap_cons, faults]

private theorem sites_fresh (bell : Bell) (scope : Scope) (term : Term) :
    (fresh scope term).sites bell = [.fresh bell scope term] := rfl

theorem lookups_freshItems_join {bell : Bell} :
    lookupsOf env (sitesOfJoin bell (freshItems index terms)) =
      Expansion.lookupsOfAll (Expansion.ofItems env index terms) := by
  induction terms generalizing index with
  | nil => rfl
  | cons term terms ih =>
      rw [freshItems, sitesOfJoin, lookupsOf_append, ih, Expansion.ofItems_cons,
        Expansion.lookupsOfAll, sites_fresh]
      simp [lookupsOf, Site.lookups]

theorem lookups_freshItems_crowd {bell : Bell} {roster first : Nat} :
    lookupsOf env (sitesOfCrowd roster bell first (freshItems index terms)) =
      Expansion.lookupsOfAll (Expansion.ofItems env index terms) := by
  rw [lookups_sitesOfCrowd roster first fun _ => new_of_mem_freshItems, lookups_freshItems_join]

/-- What a new task of all items is: a join, or a crowd with the first roster. -/
theorem start_cases (terms : List Term) (untouched : Untouched lines p) :
    start terms p = (.join (freshItems 0 terms), p) ∨
      ∃ q, start terms p = (.crowd 0 (freshItems 0 terms), q) ∧ q.board = p.board ∧
        q.rota = { rosters := #[.ofParts terms.length], rang := true } := by
  rw [← length_freshItems 0 terms]
  exact ofParts_cases (freshItems 0 terms) untouched

theorem worth_start (untouched : Untouched lines p) :
    worth env (start terms p).1 =
      together ((Expansion.ofItems env 0 terms).map Expansion.worth) := by
  rcases start_cases terms untouched with same | ⟨q, same, -⟩ <;>
    rw [same, worth, worths_freshItems]

theorem faults_start (untouched : Untouched lines p) :
    faults env (start terms p).1 =
      (Expansion.ofItems env 0 terms).flatMap (Expansion.faults env) := by
  rcases start_cases terms untouched with same | ⟨q, same, -⟩ <;>
    rw [same, faults, faults_freshItems]

theorem accounts_start (untouched : Untouched lines p) :
    Accounts env (Expansion.lookupsOfAll (Expansion.ofItems env 0 terms))
      ((start terms p).1.sites .main) (start terms p).2 := by
  have called : p.board.called = [] := by simp [Switchboard.called, untouched.board]
  rcases start_cases terms untouched with same | ⟨q, same, board, -⟩
  · rw [same, Accounts, sites, lookups_freshItems_join, called, List.nil_append]
  · rw [same, Accounts, sites, board, called, List.nil_append]
    exact .of_eq lookups_freshItems_crowd

theorem unvisited_start (untouched : Untouched lines p) {site : Site}
    (member : site ∈ (start terms p).1.sites .main) :
    site.roster?.isSome ∨ ∃ bell scope term, site = .fresh bell scope term := by
  refine (mem_sites_ofParts untouched member).imp_right ?_
  rintro ⟨part, given, bell, inside⟩
  obtain ⟨i, term, -, rfl⟩ := mem_freshItems given
  exact ⟨bell, .root i, term, List.mem_singleton.mp inside⟩

/-! ## Enough turns -/

private theorem load_freshItems_join {bell : Bell} :
    loadOf env (sitesOfJoin bell (freshItems index terms)) =
      Expansion.weightOfAll (Expansion.ofItems env index terms) := by
  induction terms generalizing index with
  | nil => rfl
  | cons term terms ih =>
      rw [freshItems, sitesOfJoin, loadOf_append, ih, Expansion.ofItems_cons,
        Expansion.weightOfAll, sites_fresh]
      simp [Site.load]

private theorem load_freshItems_crowd {bell : Bell} {roster first : Nat} :
    loadOf env (sitesOfCrowd roster bell first (freshItems index terms)) =
      Expansion.weightOfAll (Expansion.ofItems env index terms) := by
  rw [load_sitesOfCrowd roster first fun _ => new_of_mem_freshItems, load_freshItems_join]

private theorem weight_ofItems_le (env : Environment) (index : Nat) (terms : List Term) :
    Expansion.weightOfAll (Expansion.ofItems env index terms) ≤
      Term.sizeOfAll terms * (6 * (env.breadth + 1) ^ maxNesting) := by
  induction terms generalizing index with
  | nil => exact Nat.zero_le _
  | cons term terms ih =>
      have first := Expansion.weight_unfold_le env maxNesting (.root index) term
      have rest := ih (index + 1)
      rw [Expansion.ofItems, Expansion.weightOfAll, Term.sizeOfAll, Nat.add_mul]
      omega

theorem load_start_le (env : Environment) (terms : List Term) (untouched : Untouched lines p) :
    loadOf env ((start terms p).1.sites .main) ≤ 6 * env.reach terms := by
  have load : loadOf env ((start terms p).1.sites .main) =
      Expansion.weightOfAll (Expansion.ofItems env 0 terms) := by
    rcases start_cases terms untouched with same | ⟨q, same, -⟩
    · rw [same, sites, load_freshItems_join]
    · rw [same, sites, loadOf_cons, load_freshItems_crowd]
      exact Nat.zero_add _
  have power : 0 < (env.breadth + 1) ^ maxNesting := Nat.pow_pos (Nat.succ_pos _)
  have heavy := weight_ofItems_le env 0 terms
  have wide : Term.sizeOfAll terms * (env.breadth + 1) ^ maxNesting ≤ env.reach terms :=
    Nat.mul_le_mul (Nat.le_succ _) (Nat.pow_le_pow_right (Nat.succ_pos _) (Nat.le_succ _))
  rw [load]
  calc Expansion.weightOfAll (Expansion.ofItems env 0 terms)
      ≤ Term.sizeOfAll terms * (6 * (env.breadth + 1) ^ maxNesting) := heavy
    _ = 6 * (Term.sizeOfAll terms * (env.breadth + 1) ^ maxNesting) := by
        rw [Nat.mul_left_comm]
    _ ≤ 6 * env.reach terms := Nat.mul_le_mul_left 6 wide

private theorem fits_freshItems {part : Task} (member : part ∈ freshItems 0 terms) :
    part.Fits env (2 * (Term.sizeOfAll terms + maxNesting * (env.breadth + 1)) + 2) := by
  obtain ⟨i, term, given, rfl⟩ := mem_freshItems member
  have small := Term.size_le_sizeOfAll given
  have fits := Expansion.unfold_fits env maxNesting (.root i) term
  rw [← Expansion.inScope_root] at fits
  exact fits_fresh.mpr (fits.mono (by omega))

theorem fits_start (env : Environment) (untouched : Untouched lines p) :
    (start terms p).1.Fits env (env.levels terms) := by
  rcases start_cases terms untouched with same | ⟨q, same, -⟩ <;> rw [same]
  · exact fits_join.mpr fun _ => fits_freshItems
  · exact fits_crowd.mpr fun _ => fits_freshItems

theorem rested_start (env : Environment) (untouched : Untouched lines p) (some_item : terms ≠ []) :
    Rested env (env.levels terms) lines (start terms p).1 (start terms p).2 := by
  refine rested_ofParts (fun part member => ?_) untouched ?_ fun _ => fits_freshItems
  · obtain ⟨i, term, -, rfl⟩ := mem_freshItems member
    exact .fresh
  · intro nothing
    exact some_item (List.eq_nil_of_length_eq_zero (by rw [← length_freshItems 0, nothing]; rfl))

private theorem turns_suffice {load reach power : Nat} (small : load ≤ 6 * reach)
    (one_le : 1 ≤ power) :
    load * (2 * (power * load) + 3) + (power * load + 2 + power * load) <
      (reach + 1) ^ 2 * (power * 128) := by
  have square : load * load ≤ 36 * (reach * reach) := by nlinarith
  have bound : load * (2 * (power * load) + 3) + (power * load + 2 + power * load) ≤
      power * (2 * (load * load) + 5 * load + 2) := by nlinarith
  have inner : 2 * (load * load) + 5 * load + 2 < (reach + 1) ^ 2 * 128 := by nlinarith
  calc load * (2 * (power * load) + 3) + (power * load + 2 + power * load)
      ≤ power * (2 * (load * load) + 5 * load + 2) := bound
    _ < power * ((reach + 1) ^ 2 * 128) := Nat.mul_lt_mul_of_pos_left inner one_le
    _ = (reach + 1) ^ 2 * (power * 128) := Nat.mul_left_comm ..

/-- The turns that a run may take are enough. -/
theorem halts_start (env : Environment) (cancelAt : Option Nat) (terms : List Term)
    (some_line : 0 < lines) (untouched : Untouched lines p) :
    (activity env (env.levels terms)).Halts cancelAt
      (((activity env (env.levels terms)).drive cancelAt (env.turns terms)
        (start terms p).1).run (start terms p).2) := by
  by_cases some_item : terms = []
  · subst some_item
    have same : start [] p = (.join [], p) := rfl
    have rang : p.rota.rang := congrArg Rota.rang untouched.rota
    have some_turn : 0 < env.turns [] :=
      Nat.mul_pos (Nat.pow_pos (Nat.succ_pos _)) (Nat.pow_pos Nat.two_pos)
    have some_level : env.levels [] =
        2 * (Term.sizeOfAll [] + maxNesting * (env.breadth + 1)) + 2 + 1 := rfl
    generalize env.turns [] = turns at some_turn
    obtain ⟨turns, rfl⟩ := Nat.exists_eq_succ_of_ne_zero (Nat.ne_of_gt some_turn)
    rw [same, some_level, Nat.succ_eq_add_one, Activity.run_drive_over rang rfl]
    exact .inl ⟨rfl, rfl⟩
  · have rested := rested_start env untouched some_item
    have small := load_start_le env terms untouched
    have turns : env.turns terms = (env.reach terms + 1) ^ 2 * (2 ^ env.levels terms * 128) := by
      unfold Environment.turns
      generalize env.levels terms = levels
      exact congrArg _ (Nat.pow_add 2 levels 7)
    rw [turns]
    -- The numbers themselves are far too large to be computed.
    generalize env.levels terms = levels, env.reach terms = reach at *
    have suffice := turns_suffice small (Nat.one_le_two_pow (n := levels))
    exact (Activity.pictured_task env levels lines).drive_halts some_line rested (Nat.le_refl _)
      (.restless rested.restlessness_le) suffice

/-! ## What turns keep -/

theorem Turns.worth_eq {x y : Task × Progress} (turns : Turns env x y) :
    worth env y.1 = worth env x.1 :=
  turns.keeps (P := fun task _ => worth env task = worth env x.1)
    (fun step same => step.worth_eq.trans same) (fun _ => id) rfl

theorem Turns.faults_subset {x y : Task × Progress} (turns : Turns env x y) :
    faults env y.1 ⊆ faults env x.1 :=
  turns.keeps (P := fun task _ => faults env task ⊆ faults env x.1)
    (fun step fewer => List.Subset.trans step.faults_subset fewer) (fun _ => id)
    (List.Subset.refl _)

theorem Turns.accounts {x y : Task × Progress} (turns : Turns env x y) {names : List String}
    (sound : worth env x.1 ≠ none) (accounts : Accounts env names (x.1.sites .main) x.2) :
    Accounts env names (y.1.sites .main) y.2 := by
  have kept := turns.keeps (P := fun task p =>
    worth env task = worth env x.1 ∧ Accounts env names (task.sites .main) p) ?_ ?_ ⟨rfl, accounts⟩
  · exact kept.2
  · rintro task task' p p' step ⟨same, accounts⟩
    exact ⟨step.worth_eq.trans same, step.accounts (same ▸ sound) accounts⟩
  · rintro task p p' ⟨⟨time, board⟩, -⟩ ⟨same, accounts⟩
    refine ⟨same, ?_⟩
    unfold Accounts
    rw [board]
    exact accounts

end Task

/-! ## What a run comes to -/

/-- How a run ends whose task came to an outcome. -/
def Ending.ofOutcome : Outcome → Ending (List Atom)
  | .ok atoms => .value atoms
  | .error f => .failure f

open AddressExpansion.Task

namespace Run

variable {env : Environment} {terms : List Term} {p : Progress}

theorem ofTerms_eq (env : Environment) (cancelAt : Option Nat) (terms : List Term)
    (p : Progress) :
    ∃ result, result = ((activity env (env.levels terms)).drive cancelAt (env.turns terms)
        (start terms p).1).run (start terms p).2 ∧
      ofTerms env cancelAt terms p = ofHalt result.1.2 result.2 result.1.1 := by
  refine ⟨_, rfl, ?_⟩
  unfold ofTerms
  generalize env.turns terms = turns
  rfl

/-- A run comes to an outcome in turns, unless it is cancelled. -/
theorem ofTerms_cases (cancelAt : Option Nat) (terms : List Term)
    (untouched : Untouched env.permits p) :
    (∃ outcome q, ofTerms env cancelAt terms p = ⟨.ofOutcome outcome, q⟩ ∧
      Turns env (start terms p) (.ended outcome, q)) ∨
    ∃ time task q, cancelAt = some time ∧ ofTerms env cancelAt terms p = cancelled q time ∧
      Turns env (start terms p) (task, q) := by
  have some_line : 0 < env.permits := Nat.le_max_left 1 _
  obtain ⟨result, driven, same⟩ := ofTerms_eq env cancelAt terms p
  have halts := halts_start env cancelAt terms some_line untouched
  have turns := turns_drive env (env.levels terms) cancelAt (env.turns terms) (start terms p).1
    (start terms p).2
  rw [← driven] at halts turns
  rw [same]
  clear driven same
  obtain ⟨⟨halt, task⟩, q⟩ := result
  rcases halts with ⟨ended, finished⟩ | ⟨time, cancels, halted⟩
  · left
    obtain rfl : halt = .ended := ended
    match task, finished with
    | .ended (.ok atoms), _ => exact ⟨.ok atoms, q, rfl, turns⟩
    | .ended (.error failure), _ => exact ⟨.error failure, q, rfl, turns⟩
  · right
    obtain rfl : halt = .cancelled time := halted
    exact ⟨time, task, q, cancels, rfl, turns⟩

/-- Whether an outcome, and the names that were called, agree with what items unfold to: all of it
    is sound, and was looked up, or the outcome is one of its faults. -/
structure Agrees (env : Environment) (terms : List Term) (outcome : Outcome)
    (called : List String) : Prop where
  worth : outcome.toOption = (Expansion.atomsOfAll (Expansion.ofItems env 0 terms)).toOption
  faults : ∀ failure, outcome = .error failure →
    failure ∈ (Expansion.ofItems env 0 terms).flatMap (Expansion.faults env)
  calls : outcome.isOk → called.Perm (Expansion.lookupsOfAll (Expansion.ofItems env 0 terms))

/-- A run that is not cancelled ends in agreement with what its items unfold to. -/
theorem ofTerms_spec (cancelAt : Option Nat) (terms : List Term)
    (untouched : Untouched env.permits p) :
    (∃ outcome q, ofTerms env cancelAt terms p = ⟨.ofOutcome outcome, q⟩ ∧
      Agrees env terms outcome q.board.called) ∨
    ∃ time q, cancelAt = some time ∧ ofTerms env cancelAt terms p = cancelled q time := by
  rcases ofTerms_cases cancelAt terms untouched with
    ⟨outcome, q, same, turns⟩ | ⟨time, task, q, cancels, same, -⟩
  · left
    have worth := turns.worth_eq
    rw [worth_start untouched, ← Expansion.toOption_atomsOfAll] at worth
    refine ⟨outcome, q, same, worth, ?_, ?_⟩
    · rintro failure rfl
      rw [← faults_start untouched]
      exact turns.faults_subset List.mem_cons_self
    · intro sound
      have made := turns.accounts (fun lost => ?_) (accounts_start untouched)
      · simpa [Accounts, sites, lookupsOf] using made
      · rw [← turns.worth_eq] at lost
        cases outcome with
        | error => cases sound
        | ok => cases lost
  · exact .inr ⟨time, q, cancels, same⟩

end Run

end AddressExpansion
