import AddressExpansion.Proofs.Expansion.Size
import AddressExpansion.Proofs.Task.Change

/-! # What is left to be done about a task

The load of sites is what there is left to be done about them. No step adds to it, and every step
that opens a term or takes a lookup on lowers it. A task fits some levels if visits that go down so
many levels reach everything in it; steps keep it fitting.
-/

namespace AddressExpansion

def Stage.load : Stage → Nat
  | idle => 4
  | queued _ => 3
  | underway _ none => 2
  | underway _ (some _) => 1

/-- What is left to be done at a site. -/
def Site.load (env : Environment) : Site → Nat
  | fresh _ scope term => (Expansion.inScope env scope term).weight
  | lookup _ scope name stage => (Expansion.ofHost env scope name).weight - 5 + stage.load
  | crowd .. => 0

namespace Task

def loadOf (env : Environment) (sites : List Site) : Nat :=
  (sites.map (Site.load env)).sum

variable {env : Environment} {bell : Bell} {task task' : Task} {p p' : Progress}

@[simp] theorem loadOf_nil : loadOf env [] = 0 := rfl

@[simp] theorem loadOf_cons (site : Site) (sites : List Site) :
    loadOf env (site :: sites) = site.load env + loadOf env sites := by
  simp [loadOf]

@[simp] theorem loadOf_append (front back : List Site) :
    loadOf env (front ++ back) = loadOf env front + loadOf env back := by
  simp [loadOf]

section Opened

variable {scope : Scope} {name : String} {e : Expansion}

theorem Uses.load_le {use : Task → Task} (uses : Uses env use e task)
    (used : ∀ task, (use task).sites bell = task.sites bell) :
    loadOf env (task.sites bell) ≤ e.weight := by
  cases uses with
  | refused => exact Nat.zero_le _
  | inside => simp [used, sites, Site.load]

theorem Answers.load_le (answers : Answers env scope name e task) :
    loadOf env (task.sites bell) ≤ e.weight - 5 := by
  cases answers with
  | found | lost => exact Nat.zero_le _
  | rescued _ _ uses =>
      simp only [Expansion.weight, Nat.add_sub_cancel]
      exact uses.load_le fun _ => rfl

theorem load_answered (env : Environment) (bell : Bell) (scope : Scope) (name : String) :
    loadOf env ((answered env scope name).sites bell) ≤
      (Expansion.ofHost env scope name).weight - 5 :=
  (answers_host env scope name).load_le

theorem weight_ofHost_ge (env : Environment) (scope : Scope) (name : String) :
    5 ≤ (Expansion.ofHost env scope name).weight := by
  unfold Expansion.ofHost
  split
  · exact Nat.le_refl _
  · split
    · exact Nat.le_refl _
    · exact Nat.le_add_left _ _

theorem Opens.load_lt (opens : Opens env scope name e task) :
    loadOf env (task.sites bell) < e.weight := by
  cases opens with
  | literal => simp only [sites, loadOf_nil, Expansion.weight, Nat.zero_lt_one]
  | group uses | var uses =>
      simp only [Expansion.weight]
      exact Nat.lt_succ_of_le (uses.load_le fun _ => rfl)
  | host =>
      have := weight_ofHost_ge env scope name
      simp only [sites, loadOf_cons, loadOf_nil, Site.load, Stage.load]
      omega

end Opened

theorem load_freshAll (env : Environment) (bell : Bell) (scope : Scope) (items : List Term) :
    loadOf env (items.map (.fresh bell scope)) + 1 =
      (Expansion.inScope env scope (.list items)).weight := by
  rw [Expansion.inScope_list, Expansion.weight, Expansion.weightOfAll_eq_sum]
  simp [loadOf, Function.comp_def, Site.load]

theorem load_sitesOfCrowd {parts : List Task} (roster index : Nat)
    (new : ∀ part ∈ parts, ∃ scope term, part = .fresh scope term) :
    loadOf env (sitesOfCrowd roster bell index parts) = loadOf env (sitesOfJoin bell parts) := by
  rw [loadOf, map_sitesOfCrowd_fresh roster index (fun _ _ _ => rfl) new, loadOf]

theorem load_sitesOfCrowd_fresh (roster : Nat) (bell : Bell) (index : Nat) (scope : Scope)
    (items : List Term) :
    loadOf env (sitesOfCrowd roster bell index (items.map (.fresh scope))) =
      loadOf env (items.map (.fresh bell scope)) := by
  rw [load_sitesOfCrowd roster index (by simp), ← sites_fresh_map, sites]

theorem load_ofParts (env : Environment) (bell : Bell) (scope : Scope) (items : List Term)
    (p : Progress) :
    loadOf env (((ofParts (items.map (.fresh scope))).run p).1.sites bell) + 1 =
      (Expansion.inScope env scope (.list items)).weight := by
  rw [← load_freshAll env bell]
  unfold ofParts
  split
  · change loadOf env ((join (items.map (.fresh scope))).sites bell) + 1 = _
    rw [sites_fresh_map]
  · change loadOf env (.crowd bell _ ::
      sitesOfCrowd p.rota.rosters.size bell 0 (items.map (.fresh scope))) + 1 = _
    rw [loadOf_cons, load_sitesOfCrowd_fresh]
    exact congrArg (· + 1) (Nat.zero_add _)

theorem Unfolds.load_lt {scope : Scope} {term : Term} (unfolds : Unfolds env scope term task)
    (bell : Bell) :
    loadOf env (task.sites bell) < (Expansion.inScope env scope term).weight := by
  cases unfolds with
  | record =>
      simp [Expansion.inScope_record, Expansion.weight, sites, Site.load]
  | join =>
      rw [sites_fresh_map, ← load_freshAll env bell]
      exact Nat.lt_succ_self _
  | token => exact (opens_token ..).load_lt

theorem Change.load_le {old new : List Site} (change : Change env old p new p') :
    loadOf env new ≤ loadOf env old := by
  cases change with
  | remark | spend | putOff | roster | ring => exact Nat.le_refl _
  | unfold unfolds =>
      simpa [Site.load] using Nat.le_of_lt (unfolds.load_lt _)
  | @openCrowd bell scope items =>
      have whole := load_freshAll env bell scope items
      simp only [loadOf_cons, load_sitesOfCrowd_fresh, loadOf_nil, Site.load]
      omega
  | draw | take | claim | setAlarm =>
      simp only [loadOf_cons, loadOf_nil, Site.load, Stage.load]
      omega
  | @hangUp bell scope name ends alarm =>
      have body := load_answered env bell scope name
      simp only [loadOf_cons, loadOf_nil, Site.load]
      omega

theorem Steps.load_le {x y : Task × Progress} (steps : Steps env bell x y) :
    loadOf env (y.1.sites bell) ≤ loadOf env (x.1.sites bell) := by
  have kept := steps.keepsSites
    (I := fun sites _ => loadOf env sites ≤ loadOf env (x.1.sites bell)) ?_ ?_ [] [] (by simp)
  · simpa using kept
  · intro front old new back p p' change low
    have := change.load_le
    simp only [loadOf_append] at low ⊢
    omega
  · intro front site back p low
    simp only [loadOf_append, loadOf_cons] at low ⊢
    omega

/-! ## Levels -/

/-- Whether visits that go down some levels reach everything in a task. -/
def Fits (env : Environment) : (levels : Nat) → Task → Prop
  | _, .ended _ => True
  | levels, .fresh scope term => (Expansion.inScope env scope term).Fits levels
  | levels, .lookup scope name _ => (Expansion.ofHost env scope name).Fits levels
  | levels + 1, .gather _ _ body => body.Fits env levels
  | levels + 1, .join parts | levels + 1, .crowd _ parts => ∀ part ∈ parts, part.Fits env levels
  | 0, _ => False

variable {levels : Nat}

@[simp] theorem fits_ended {outcome : Outcome} : (ended outcome).Fits env levels := by
  cases levels <;> trivial

@[simp] theorem fits_fresh {scope : Scope} {term : Term} :
    (fresh scope term).Fits env levels ↔ (Expansion.inScope env scope term).Fits levels := by
  cases levels <;> rfl

@[simp] theorem fits_lookup {scope : Scope} {name : String} {stage : Stage} :
    (lookup scope name stage).Fits env levels ↔ (Expansion.ofHost env scope name).Fits levels := by
  cases levels <;> rfl

@[simp] theorem fits_gather {scope : Scope} {gathering : Gathering} {body : Task} :
    (gather scope gathering body).Fits env (levels + 1) ↔ body.Fits env levels := Iff.rfl

@[simp] theorem fits_join {parts : List Task} :
    (join parts).Fits env (levels + 1) ↔ ∀ part ∈ parts, part.Fits env levels := Iff.rfl

@[simp] theorem fits_crowd {roster : Nat} {parts : List Task} :
    (crowd roster parts).Fits env (levels + 1) ↔ ∀ part ∈ parts, part.Fits env levels := Iff.rfl

theorem Fits.of_gather {scope : Scope} {gathering : Gathering} {body : Task}
    (fits : (gather scope gathering body).Fits env levels) :
    ∃ inner, levels = inner + 1 ∧ body.Fits env inner := by
  cases levels with
  | zero => exact fits.elim
  | succ inner => exact ⟨inner, rfl, fits⟩

theorem Fits.of_join {parts : List Task} (fits : (join parts).Fits env levels) :
    ∃ inner, levels = inner + 1 ∧ ∀ part ∈ parts, part.Fits env inner := by
  cases levels with
  | zero => exact fits.elim
  | succ inner => exact ⟨inner, rfl, fits⟩

theorem Fits.of_crowd {roster : Nat} {parts : List Task}
    (fits : (crowd roster parts).Fits env levels) :
    ∃ inner, levels = inner + 1 ∧ ∀ part ∈ parts, part.Fits env inner := by
  cases levels with
  | zero => exact fits.elim
  | succ inner => exact ⟨inner, rfl, fits⟩

theorem Fits.of_zero (fits : task.Fits env 0) : ∃ outcome, task = .ended outcome := by
  cases task with
  | ended outcome => exact ⟨outcome, rfl⟩
  | fresh | lookup => exact (Expansion.fits_zero fits).elim
  | gather | join | crowd => exact fits.elim

-- Unfolding it further would run into the definitions of names.
attribute [irreducible] Fits

section Opened

variable {scope : Scope} {name : String} {e : Expansion}

theorem Uses.fits {use : Task → Task} (uses : Uses env use e task) (fits : e.Fits levels)
    (used : ∀ {within term}, (Expansion.inScope env within term).Fits levels →
      (use (.fresh within term)).Fits env (levels + 1)) : task.Fits env (levels + 1) := by
  cases uses with
  | refused => exact fits_ended
  | inside => exact used fits

theorem Opens.fits (opens : Opens env scope name e task) (fits : e.Fits levels) :
    task.Fits env levels := by
  cases levels with
  | zero => exact (Expansion.fits_zero fits).elim
  | succ levels =>
      cases opens with
      | literal => exact fits_ended
      | host => exact fits_lookup.mpr fits
      | group uses => exact uses.fits fits fun fits => fits_gather.mpr (fits_fresh.mpr fits)
      | var uses => exact uses.fits fits fun fits => fits_fresh.mpr (fits.mono (Nat.le_succ _))

theorem Answers.fits (answers : Answers env scope name e task) (fits : e.Fits levels) :
    task.Fits env levels := by
  cases levels with
  | zero => exact (Expansion.fits_zero fits).elim
  | succ levels =>
      cases answers with
      | found | lost => exact fits_ended
      | rescued _ _ uses =>
          exact uses.fits fits fun fits => fits_gather.mpr (fits_fresh.mpr fits)

end Opened

theorem fits_items {scope : Scope} {items : List Term}
    (fits : (Expansion.inScope env scope (.list items)).Fits levels) :
    ∃ inner, levels = inner + 2 ∧
      ∀ item ∈ items, (Expansion.inScope env scope item).Fits inner := by
  rw [Expansion.inScope_list] at fits
  match levels with
  | 0 | 1 => exact fits.elim
  | inner + 2 => exact ⟨inner, rfl, fun item given => fits _ (List.mem_map_of_mem given)⟩

theorem fits_freshAll {scope : Scope} {items : List Term} {levels' : Nat}
    (fits : ∀ item ∈ items, (Expansion.inScope env scope item).Fits levels)
    (more : levels ≤ levels') : ∀ part ∈ items.map (Task.fresh scope), part.Fits env levels' := by
  intro part member
  obtain ⟨item, given, rfl⟩ := List.mem_map.mp member
  exact fits_fresh.mpr ((fits item given).mono more)

/-- What a list becomes is one level less deep. -/
theorem fits_ofParts {scope : Scope} {items : List Term}
    (fits : (fresh scope (.list items)).Fits env (levels + 1)) (p : Progress) :
    ((ofParts (items.map (.fresh scope))).run p).1.Fits env levels := by
  obtain ⟨inner, same, inside⟩ := fits_items (fits_fresh.mp fits)
  obtain rfl : levels = inner + 1 := Nat.succ.inj same
  have parts := fits_freshAll inside (Nat.le_refl _)
  unfold ofParts
  split
  · exact fits_join.mpr parts
  · exact fits_crowd.mpr parts

theorem Act.fits (act : Act env bell task p task' p') (fits : task.Fits env levels) :
    task'.Fits env levels := by
  cases act with
  | trace | spend | putOff | roster | ring => exact fits
  | draw | take | claim | setAlarm => exact fits_lookup.mpr (fits_lookup.mp fits)
  | finish | fail | settleJoin | settleCrowd => exact fits_ended
  | token => exact (opens_token ..).fits (fits_fresh.mp fits)
  | hangUp => exact (answers_host ..).fits (fits_lookup.mp fits)
  | record =>
      rw [fits_fresh, Expansion.inScope_record] at fits
      cases levels with
      | zero => exact fits.elim
      | succ levels => exact fits_gather.mpr (fits_fresh.mpr fits)
  | openJoin =>
      obtain ⟨inner, rfl, inside⟩ := fits_items (fits_fresh.mp fits)
      exact fits_join.mpr (fits_freshAll inside (Nat.le_succ _))
  | openCrowd =>
      obtain ⟨inner, rfl, inside⟩ := fits_items (fits_fresh.mp fits)
      exact fits_crowd.mpr (fits_freshAll inside (Nat.le_succ _))

theorem Step.fits (step : Step env bell task p task' p') (fits : task.Fits env levels) :
    task'.Fits env levels := by
  induction step generalizing levels with
  | act act => exact act.fits fits
  | inGather _ ih =>
      obtain ⟨inner, rfl, inside⟩ := fits.of_gather
      exact fits_gather.mpr (ih inside)
  | inJoin _ ih =>
      obtain ⟨inner, rfl, inside⟩ := fits.of_join
      exact fits_join.mpr (forall_mem_exchange inside (ih (inside _ (by simp))))
  | inCrowd _ ih =>
      obtain ⟨inner, rfl, inside⟩ := fits.of_crowd
      exact fits_crowd.mpr (forall_mem_exchange inside (ih (inside _ (by simp))))

end Task

end AddressExpansion
