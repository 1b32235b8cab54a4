import Mathlib.Tactic.Common
import AddressExpansion.Rota

/-! # Rings

What a ring changes and what it leaves alone. Bells are nested, and a plan gives each roster the
bell of its crowd. A ring that stands as planned is heard, is passed on by every armed roster that
it reaches, and takes nothing back.
-/

namespace AddressExpansion

namespace Bell

def roster? : Bell → Option Nat
  | main => none
  | part id _ _ => some id

/-- Whether a bell stands where a plan has it, on rosters with numbers below `count`: each roster
    has the outer bell that the plan gives it, and outer rosters have lower numbers. -/
def Placed (plan : Nat → Bell) : (count : Nat) → Bell → Prop
  | _, main => True
  | count, part id _ outer => id < count ∧ outer = plan id ∧ Placed plan id outer

/-- Whether a bell is another one or stands inside it. -/
inductive Within (outer : Bell) : Bell → Prop
  | refl : Within outer outer
  | part {id index inner} (within : Within outer inner) : Within outer (part id index inner)

variable {plan plan' : Nat → Bell} {count count' : Nat} {bell inner : Bell}

theorem Placed.mono (placed : bell.Placed plan count) (more : count ≤ count') :
    bell.Placed plan count' := by
  cases bell with
  | main => trivial
  | part => exact ⟨Nat.lt_of_lt_of_le placed.1 more, placed.2⟩

/-- A plan matters only for rosters below the count. -/
theorem Placed.congr (placed : bell.Placed plan count)
    (same : ∀ id, id < count → plan' id = plan id) : bell.Placed plan' count := by
  induction bell generalizing count with
  | main => trivial
  | part id index outer ih =>
      obtain ⟨low, planned, placed⟩ := placed
      refine ⟨low, planned.trans (same id low).symm, ih placed fun id' lower => ?_⟩
      exact same id' (Nat.lt_trans lower low)

theorem Placed.outward (placed : inner.Placed plan count) (within : Within bell inner) :
    bell.Placed plan count := by
  induction within generalizing count with
  | refl => exact placed
  | part _ ih => exact ih (placed.2.2.mono (Nat.le_of_lt placed.1))

theorem Placed.roster?_ne (placed : bell.Placed plan count) {id : Nat} (high : count ≤ id) :
    bell.roster? ≠ some id := by
  cases bell with
  | main => simp [roster?]
  | part => simpa [roster?] using Nat.ne_of_lt (Nat.lt_of_lt_of_le placed.1 high)

theorem Within.trans {outer middle inner : Bell} (first : Within outer middle)
    (second : Within middle inner) : Within outer inner := by
  induction second with
  | refl => exact first
  | part _ ih => exact ih.part

theorem Within.sizeOf_le (within : Within bell inner) : sizeOf bell ≤ sizeOf inner := by
  induction within with
  | refl => exact Nat.le_refl _
  | part _ ih =>
      simp only [Bell.part.sizeOf_spec]
      omega

theorem Within.ne {id index : Nat} (within : Within (.part id index bell) inner) :
    inner ≠ bell := by
  rintro rfl
  have := within.sizeOf_le
  simp only [Bell.part.sizeOf_spec] at this
  omega

end Bell

/-! ## Entries on a roster -/

namespace Roster

theorem mem_rung_enter {roster : Roster} {index other : Nat} :
    index ∈ (roster.enter other).rung ↔ index ∈ roster.rung ∨ index = other := by
  unfold enter
  split
  next known =>
    constructor
    · exact .inl
    · rintro (rung | rfl)
      · exact rung
      · exact known
  next => rw [List.mem_append, List.mem_singleton]

theorem nodup_rung_enter {roster : Roster} (nodup : roster.rung.Nodup) (index : Nat) :
    (roster.enter index).rung.Nodup := by
  unfold enter
  split
  next => exact nodup
  next new =>
    refine List.nodup_append.mpr ⟨nodup, by simp, ?_⟩
    rintro other member _ last rfl
    exact new (List.mem_singleton.mp last ▸ member)

end Roster

namespace Rota

/-- Whether a bell rang and was not answered yet. -/
def HasRung (rota : Rota) : Bell → Prop
  | .main => rota.rang
  | .part id index _ => rota.isRung id index

/-- Whether the next ring of a part is passed on. -/
def IsArmed (rota : Rota) (id : Nat) : Prop :=
  ∃ roster, rota.rosters[id]? = some roster ∧ roster.armed

variable {rota : Rota} {bell : Bell} {id id' index : Nat} {f : Roster → Roster}

theorem isRung_iff :
    rota.isRung id index ↔ ∃ roster, rota.rosters[id]? = some roster ∧ index ∈ roster.rung := by
  unfold isRung
  cases rota.rosters[id]? <;> simp

theorem isRung_congr {rota' : Rota} (same : rota'.rosters[id]? = rota.rosters[id]?) :
    rota'.isRung id index = rota.isRung id index := by
  simp only [isRung, same]

/-! ## Changes of one roster -/

@[simp] theorem size_update : (rota.update id f).rosters.size = rota.rosters.size :=
  Array.size_modify

@[simp] theorem later_update : (rota.update id f).later = rota.later := rfl

theorem rosters_update_self :
    (rota.update id f).rosters[id]? = rota.rosters[id]?.map f := by
  simp [update, Array.getElem?_modify]

theorem rosters_update_ne (other : id ≠ id') :
    (rota.update id f).rosters[id']? = rota.rosters[id']? := by
  simp [update, Array.getElem?_modify, other]

theorem mem_rosters_update {roster : Roster} (member : roster ∈ (rota.update id f).rosters) :
    roster ∈ rota.rosters ∨ ∃ before, rota.rosters[id]? = some before ∧ roster = f before := by
  obtain ⟨id', found⟩ := Array.mem_iff_getElem?.mp member
  by_cases same : id = id'
  · subst same
    rw [rosters_update_self] at found
    obtain ⟨before, here, rfl⟩ := Option.map_eq_some_iff.mp found
    exact .inr ⟨before, here, rfl⟩
  · rw [rosters_update_ne same] at found
    exact .inl (Array.mem_of_getElem? found)

theorem update_eq_self (same : ∀ roster, rota.rosters[id]? = some roster → f roster = roster) :
    rota.update id f = rota := by
  have kept : rota.rosters.modify id f = rota.rosters := by
    refine Array.ext_getElem? fun id' => ?_
    rw [Array.getElem?_modify]
    split
    next here =>
      subst here
      cases found : rota.rosters[id]? with
      | none => rfl
      | some roster => rw [Option.map_some, same roster found]
    next => rfl
  simp only [update, kept]

theorem hasRung_update_ne (other : bell.roster? ≠ some id) :
    (rota.update id f).HasRung bell ↔ rota.HasRung bell := by
  cases bell with
  | main => exact Iff.rfl
  | part id' index outer =>
      have same : (rota.update id f).isRung id' index = rota.isRung id' index :=
        isRung_congr (rosters_update_ne fun same => other (congrArg some same.symm))
      simp only [HasRung, same]

/-! ## Rings -/

theorem ring_part {outer : Bell} :
    rota.ring (.part id index outer) =
      match rota.rosters[id]? with
      | none => rota
      | some roster =>
        if roster.armed ∧ index ∉ roster.rung then (rota.update id (·.enter index)).ring outer
        else rota.update id (·.enter index) := rfl

@[simp] theorem size_ring : (rota.ring bell).rosters.size = rota.rosters.size := by
  induction bell generalizing rota with
  | main => rfl
  | part id index outer ih =>
      rw [ring_part]
      split
      · rfl
      · split
        · rw [ih, size_update]
        · exact size_update

@[simp] theorem later_ring : (rota.ring bell).later = rota.later := by
  induction bell generalizing rota with
  | main => rfl
  | part id index outer ih =>
      rw [ring_part]
      split
      · rfl
      · split
        · rw [ih, later_update]
        · exact later_update

theorem isRung_update_enter (rung : rota.isRung id index) (other : Nat) :
    (rota.update id' (·.enter other)).isRung id index := by
  obtain ⟨roster, here, member⟩ := isRung_iff.mp rung
  by_cases same : id' = id
  · subst same
    exact isRung_iff.mpr ⟨_, by rw [rosters_update_self, here]; rfl,
      Roster.mem_rung_enter.mpr (.inl member)⟩
  · exact isRung_iff.mpr ⟨roster, by rw [rosters_update_ne same, here], member⟩

theorem HasRung.ring {other : Bell} (rung : rota.HasRung bell) :
    (rota.ring other).HasRung bell := by
  induction other generalizing rota with
  | main =>
      cases bell with
      | main => rfl
      | part => exact rung
  | part id index outer ih =>
      have entered : (rota.update id (·.enter index)).HasRung bell := by
        cases bell with
        | main => exact rung
        | part => exact isRung_update_enter rung index
      rw [ring_part]
      split
      · exact rung
      · split
        · exact ih entered
        · exact entered

private theorem hasRung_ring_part {outer : Bell} {roster : Roster}
    (here : rota.rosters[id]? = some roster) :
    (rota.ring (.part id index outer)).HasRung (.part id index outer) := by
  have entered : (rota.update id (·.enter index)).HasRung (.part id index outer) := by
    have changed : (rota.update id (·.enter index)).rosters[id]? = _ := rosters_update_self
    rw [here, Option.map_some] at changed
    exact isRung_iff.mpr ⟨_, changed, Roster.mem_rung_enter.mpr (.inr rfl)⟩
  rw [ring_part, here]
  simp only
  split
  · exact entered.ring
  · exact entered

theorem hasRung_ring {plan : Nat → Bell} (placed : bell.Placed plan rota.rosters.size) :
    (rota.ring bell).HasRung bell := by
  cases bell with
  | main => rfl
  | part id index outer => exact hasRung_ring_part (Array.getElem?_eq_getElem placed.1)

/-- A ring leaves an armed roster as it was or is passed on by it. -/
theorem ring_passed {plan : Nat → Bell} (placed : bell.Placed plan rota.rosters.size)
    (armed : rota.IsArmed id) :
    (rota.ring bell).rosters[id]? = rota.rosters[id]? ∨ (rota.ring bell).HasRung (plan id) := by
  induction bell generalizing rota with
  | main => exact .inl rfl
  | part id' index outer ih =>
      obtain ⟨low, rfl, placed⟩ := placed
      obtain ⟨roster, here, isArmed⟩ := armed
      have there : rota.rosters[id']? = some (rota.rosters[id']) :=
        Array.getElem?_eq_getElem low
      have outside : (plan id').Placed plan (rota.update id' (·.enter index)).rosters.size := by
        rw [size_update]
        exact placed.mono (Nat.le_of_lt low)
      by_cases same : id' = id
      · subst same
        rw [ring_part, here]
        simp only [isArmed, true_and]
        split
        case isTrue => exact .inr (hasRung_ring outside)
        case isFalse present =>
          left
          rw [rosters_update_self, here, Option.map_some, Roster.enter,
            if_pos (not_not.mp present)]
      · have kept : (rota.update id' (·.enter index)).rosters[id]? = rota.rosters[id]? :=
          rosters_update_ne same
        rw [ring_part, there]
        simp only
        split
        case isFalse => exact .inl kept
        case isTrue =>
          rw [← kept]
          exact ih outside ⟨roster, kept.trans here, isArmed⟩

theorem mem_rosters_ring {P : Roster → Prop}
    (enter : ∀ roster index, P roster → P (roster.enter index))
    (all : ∀ roster ∈ rota.rosters, P roster) : ∀ roster ∈ (rota.ring bell).rosters, P roster := by
  induction bell generalizing rota with
  | main => exact all
  | part id index outer ih =>
      have entered : ∀ roster ∈ (rota.update id (·.enter index)).rosters, P roster := by
        intro roster member
        rcases mem_rosters_update member with same | ⟨before, here, rfl⟩
        · exact all roster same
        · exact enter before index (all before (Array.mem_of_getElem? here))
      rw [ring_part]
      split
      · exact all
      · split
        · exact ih entered
        · exact entered

/-! ## Rings seen from outside -/

/-- Whether a rota differs from another one only in some rosters. -/
structure Agree (own : List Nat) (rota rota' : Rota) : Prop where
  rosters : ∀ id, id ∉ own → rota'.rosters[id]? = rota.rosters[id]?
  rang : rota'.rang = rota.rang
  later : rota'.later = rota.later

variable {own own' : List Nat} {rota' rota'' : Rota}

theorem Agree.refl : Agree own rota rota := ⟨fun _ _ => rfl, rfl, rfl⟩

theorem Agree.trans (first : Agree own rota rota') (second : Agree own rota' rota'') :
    Agree own rota rota'' :=
  ⟨fun id other => (second.rosters id other).trans (first.rosters id other),
    second.rang.trans first.rang, second.later.trans first.later⟩

theorem Agree.mono (agree : Agree own rota rota') (subset : own ⊆ own') : Agree own' rota rota' :=
  ⟨fun id other => agree.rosters id fun member => other (subset member), agree.rang, agree.later⟩

theorem agree_update (own : id ∈ own') : Agree own' rota (rota.update id f) :=
  ⟨fun _ other => rosters_update_ne fun same => other (same ▸ own), rfl, rfl⟩

/-- Whether a bell, and every bell outside it, stands on none of some rosters. -/
def Clear (own : List Nat) (bell : Bell) : Prop :=
  ∀ outer, Bell.Within outer bell → ∀ id ∈ own, outer.roster? ≠ some id

theorem Clear.outer {outer : Bell} (clear : Clear own (.part id index outer)) : Clear own outer :=
  fun _ within => clear _ within.part

theorem Clear.rosters_ring (clear : Clear own bell) (member : id ∈ own) :
    (rota.ring bell).rosters[id]? = rota.rosters[id]? := by
  induction bell generalizing rota with
  | main => rfl
  | part id' index outer ih =>
      have other : id' ≠ id := fun same => clear _ .refl id member (congrArg some same)
      have kept : (rota.update id' (·.enter index)).rosters[id]? = rota.rosters[id]? :=
        rosters_update_ne other
      rw [ring_part]
      split
      · rfl
      · split
        · exact (ih clear.outer).trans kept
        · exact kept

/-- A ring treats rotas alike that differ only where it does not come. -/
theorem Agree.ring (agree : Agree own rota rota') (clear : Clear own bell) :
    Agree own (rota.ring bell) (rota'.ring bell) := by
  induction bell generalizing rota rota' with
  | main => exact ⟨agree.rosters, rfl, agree.later⟩
  | part id' index outer ih =>
      have here : id' ∉ own := fun member => clear _ .refl id' member rfl
      have entered : Agree own (rota.update id' (·.enter index))
          (rota'.update id' (·.enter index)) := by
        refine ⟨fun id other => ?_, agree.rang, agree.later⟩
        by_cases same : id' = id
        · subst same
          rw [rosters_update_self, rosters_update_self, agree.rosters id' other]
        · rw [rosters_update_ne same, rosters_update_ne same, agree.rosters id other]
      rw [ring_part, ring_part, agree.rosters id' here]
      split
      · exact agree
      · split
        · exact ih entered clear.outer
        · exact entered

/-- A bell that has rung on its roster rings for nothing. -/
theorem HasRung.ring_self (rung : rota.HasRung bell) : rota.ring bell = rota := by
  cases bell with
  | main =>
      change { rota with rang := true } = rota
      rw [show true = rota.rang from rung.symm]
  | part id index outer =>
      obtain ⟨roster, found, rung⟩ := isRung_iff.mp rung
      have kept : rota.update id (·.enter index) = rota := update_eq_self fun roster' found' => by
        obtain rfl := Option.some.inj (found.symm.trans found')
        exact if_pos rung
      rw [ring_part, found]
      simp only [rung, not_true, and_false, if_false, kept]

theorem ring_ring : (rota.ring bell).ring bell = rota.ring bell := by
  cases bell with
  | main => rfl
  | part id index outer =>
      cases here : rota.rosters[id]? with
      | some roster => exact (hasRung_ring_part here).ring_self
      | none =>
          have same : rota.ring (.part id index outer) = rota := by rw [ring_part, here]
          rw [same, same]

end Rota

end AddressExpansion
