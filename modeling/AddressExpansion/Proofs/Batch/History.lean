import Mathlib.Tactic.Linarith
import AddressExpansion.Proofs.Batch.Picture
import AddressExpansion.Proofs.Task.History

/-! # The history of a batch

A batch starts with nothing asked for, and what comes of it is a moment of its course
(`Batch.exists_moment`). At every moment it has a journal (`Batch.exists_journal`), and every journal
is in order (`Batch.History.inOrder`). All names of a batch are over at last (`Batch.run_completes`).
-/

namespace AddressExpansion.Batch

open AddressExpansion.Task (Rested)

variable {engine : Engine} {manner : Manner} {roster? : Option Nat} {lines : Nat}
  {slots : List Slot} {p : Progress} {journal : List Request}

theorem tells_task (tells : Tells engine journal (sites roster? slots)) :
    Tells engine journal ((task engine roster? slots).sites .main) := by
  have tells : Tells engine journal ([] ++ [] ++ sites roster? slots) := tells
  rw [sites_task]
  refine (tells.congr_unstarted nofun fun site member => ?_ :
    Tells engine journal ([] ++ roster?.toList.map (.crowd .main) ++ sites roster? slots))
  obtain ⟨roster, -, rfl⟩ := List.mem_map.mp member
  rfl

/-- What holds of a batch between turns; a batch of no names has nothing to wait for. -/
def AtRest (engine : Engine) (lines : Nat) (roster? : Option Nat) (slots : List Slot)
    (p : Progress) : Prop :=
  Rests engine lines roster? slots p ∨ slots = [] ∧ roster? = none ∧ p.rota.rang = true

section Next

variable {m m' : Activity.Moment (List Slot)}

private theorem AtRest.keeps
    (next : Activity.Next (activity engine manner roster?) (Step engine roster?) m m')
    (atRest : m.Keeps (activity engine manner roster?) (AtRest engine lines roster?)) :
    m'.Keeps (activity engine manner roster?) (AtRest engine lines roster?) := by
  have pictured := pictured engine manner roster? lines
  refine next.keeps (fun {slots p} atRest going => ?_) (fun {slots p time} atRest silent next => ?_)
    atRest
  · rcases atRest with rests | ⟨rfl, rfl, -⟩
    · exact .inl (pictured.visited rests going)
    · cases going
  · rcases atRest with rests | ⟨-, -, rang⟩
    · exact .inl (pictured.advanced rests silent next)
    · rw [rang] at silent
      cases silent

private theorem deals_of_next
    (next : Activity.Next (activity engine manner roster?) (Step engine roster?) m m')
    (atRest : m.Keeps (activity engine manner roster?) (AtRest engine lines roster?))
    (tells : Tells engine journal (sites roster? m.state)) :
    ∃ journal', Deals engine False (journal, m.board) (journal', m'.board) ∧
      Tells engine journal' (sites roster? m'.state) := by
  cases next with
  | begin | rest => exact ⟨journal, .refl, tells⟩
  | step here => exact here.deals tells
  | clock silent next =>
      rcases atRest with rests | ⟨-, -, rang⟩
      · rw [alarms_task] at next
        exact ⟨journal, .single (rests.rested.deal_wait silent (tells_task tells) next), tells⟩
      · rw [rang] at silent
        cases silent

end Next

/-! ## The outset -/

/-- The roster of so many names. -/
def rosterOf (names : Nat) : Option Nat :=
  if names ≤ joinLimit then none else some 0

def outset (engine : Engine) (names : List String) : Activity.Moment (List Slot) :=
  ⟨names.map (.looking · .idle),
    ((enroll names.length).run (.initial (max 1 engine.maxLookups))).2, none⟩

abbrev Course (engine : Engine) (manner : Manner) (names : List String) :
    Activity.Moment (List Slot) → Activity.Moment (List Slot) → Prop :=
  Activity.Course (activity engine manner (rosterOf names.length))
    (Step engine (rosterOf names.length))

/-- The journals that a batch may have at a moment of its course. No lookup is ever given up. -/
abbrev History (engine : Engine) (manner : Manner) (names : List String) :
    Activity.Moment (List Slot) → List Request → Prop :=
  Activity.History (activity engine manner (rosterOf names.length))
    (Step engine (rosterOf names.length)) (sites (rosterOf names.length)) engine (fun _ => False)
    (outset engine names)

theorem enroll_initial (names lines : Nat) :
    ((enroll names).run (.initial lines)).1 = rosterOf names ∧
      ((enroll names).run (.initial lines)).2.board = { free := lines } := by
  unfold enroll rosterOf
  split <;> exact ⟨rfl, rfl⟩

theorem task_outset (engine : Engine) (names : List String) :
    (task engine (rosterOf names.length) (outset engine names).state,
        (outset engine names).progress) =
      (Task.ofParts ((outset engine names).state.map (Slot.task engine))).run
        (.initial (max 1 engine.maxLookups)) := by
  have length : ((outset engine names).state.map (Slot.task engine)).length = names.length := by
    rw [List.length_map]
    exact List.length_map ..
  unfold Task.ofParts rosterOf
  rw [length]
  change (_, ((enroll names.length).run (.initial _)).2) = _
  unfold enroll
  split <;> rfl

theorem conducted_outset (engine : Engine) (names : List String) :
    Conducted engine (max 1 engine.maxLookups) [] (outset engine names).board := by
  change Conducted _ _ _ ((enroll names.length).run (.initial _)).2.board
  rw [(enroll_initial ..).2]
  exact .initial ..

theorem tells_outset (engine : Engine) (names : List String) :
    Tells engine [] (sites (rosterOf names.length) (outset engine names).state) := by
  have quiet : ∀ site ∈ sites (rosterOf names.length) (outset engine names).state,
      site.standing? = none := by
    intro site member
    obtain ⟨list, inside, there⟩ := List.mem_flatten.mp member
    obtain ⟨index, inside, rfl⟩ := List.mem_mapIdx.mp inside
    simp only [outset, List.getElem_map] at there
    obtain rfl := List.mem_singleton.mp there
    rfl
  unfold Tells
  rw [List.filterMap_eq_nil_iff.mpr quiet]
  exact .nil

theorem rests_outset (engine : Engine) {names : List String} (some_name : names ≠ []) :
    Rests engine (max 1 engine.maxLookups) (rosterOf names.length) (outset engine names).state
      (outset engine names).progress := by
  have idle : ∀ part ∈ (outset engine names).state.map (Slot.task engine),
      ∃ name, part = .lookup (.root 0) name .idle := by
    intro part member
    obtain ⟨slot, given, rfl⟩ := List.mem_map.mp member
    obtain ⟨name, -, rfl⟩ := List.mem_map.mp given
    exact ⟨name, rfl⟩
  have new : ∀ part ∈ (outset engine names).state.map (Slot.task engine), part.New := by
    intro part member
    obtain ⟨name, rfl⟩ := idle part member
    exact .idle
  have fits : ∀ part ∈ (outset engine names).state.map (Slot.task engine),
      part.Fits engine.granting 1 := by
    intro part member
    obtain ⟨name, rfl⟩ := idle part member
    obtain ⟨ips, unfolds⟩ := engine.ofHost_granting (.root 0) name
    rw [Task.fits_lookup, unfolds]
    trivial
  have untouched : Task.Untouched (max 1 engine.maxLookups) (.initial (max 1 engine.maxLookups)) :=
    ⟨rfl, rfl⟩
  have rested := Task.rested_ofParts new untouched (by simpa [outset] using some_name) fits
  rw [← task_outset] at rested
  refine ⟨rested, ?_⟩
  change ((enroll names.length).run (.initial _)).2.tracing = false
  unfold enroll
  split <;> rfl

theorem atRest_outset (engine : Engine) (manner : Manner) (names : List String) :
    (outset engine names).Keeps (activity engine manner (rosterOf names.length))
      (AtRest engine (max 1 engine.maxLookups) (rosterOf names.length)) := by
  by_cases some_name : names = []
  · subst some_name
    exact .inr ⟨rfl, rfl, rfl⟩
  · exact .inl (rests_outset engine some_name)

/-! ## Moments -/

section Moments

variable {names : List String} {m : Activity.Moment (List Slot)}

theorem exists_journal (course : Course engine manner names (outset engine names) m) :
    ∃ journal, History engine manner names m journal := by
  obtain ⟨journal, history, -⟩ := Activity.exists_history
    (I := fun m => m.Keeps (activity engine manner (rosterOf names.length))
      (AtRest engine (max 1 engine.maxLookups) (rosterOf names.length)))
    AtRest.keeps deals_of_next (atRest_outset engine manner names) (tells_outset engine names) .start
    course
  exact ⟨journal, history⟩

private theorem Course.rested (course : Course engine manner names (outset engine names) m)
    (silent : m.Silent) :
    Rested engine.granting 2 (max 1 engine.maxLookups)
      (task engine (rosterOf names.length) m.state) m.progress := by
  have atRest := Activity.Course.keeps course AtRest.keeps (atRest_outset engine manner names)
  obtain ⟨slots, p, goal⟩ := m
  obtain ⟨rfl, silent⟩ := silent
  rcases atRest with rests | ⟨-, -, rang⟩
  · exact rests.rested
  · exact absurd rang (by simpa using silent)

/-- While nothing can go on, a name that is not over waits for the end of its call, or for a line,
    and then every line is in use. -/
theorem Course.standing (course : Course engine manner names (outset engine names) m)
    (silent : m.Silent) {name : String} {stage : Stage} (left : .looking name stage ∈ m.state) :
    (∃ ends alarm, stage = .underway ends (some alarm)) ∨
      (∃ ticket, stage = .queued ticket) ∧ m.board.inFlight = max 1 engine.maxLookups := by
  have rested := course.rested silent
  obtain ⟨index, located⟩ := List.mem_iff_getElem?.mp left
  have there : .lookup (bell (rosterOf names.length) index) (.root 0) name stage ∈
      (task engine (rosterOf names.length) m.state).sites .main := by
    rw [sites_task]
    exact List.mem_append_right _ (mem_sites.mpr ⟨index, _, located, List.mem_singleton_self _⟩)
  cases stage with
  | idle => exact absurd .idle (rested.stuck silent.2 there)
  | queued ticket => exact .inr ⟨⟨ticket, rfl⟩, rested.lines_busy silent.2 there⟩
  | underway ends alarm =>
      obtain ⟨-, number, rfl⟩ := rested.alarmed silent.2 there
      exact .inl ⟨ends, number, rfl⟩

/-- The journals of a batch are in order at every moment. -/
theorem History.inOrder (history : History engine manner names m journal) :
    m.InOrder engine (max 1 engine.maxLookups) False journal :=
  Task.inOrder_of_rested (history.deals.conducted (conducted_outset engine names))
    (tells_task (history.tells (tells_outset engine names))) (Course.rested history.course)
    (history.lost_of_givenUp fun _ => id)

end Moments

/-! ## The end -/

theorem exists_moment (engine : Engine) (manner : Manner) (names : List String) :
    ∃ m, Course engine manner names (outset engine names) m ∧
      (run engine manner names).run (.initial (max 1 engine.maxLookups)) =
        (m.state, m.progress) := by
  obtain ⟨goal, course⟩ := Activity.course_drive
    (steps_round engine manner (rosterOf names.length)) none (turns names.length)
    (outset engine names).state (outset engine names).progress
  refine ⟨_, course, ?_⟩
  unfold run
  rw [Work.run_bind, (enroll_initial ..).1]
  rfl

private theorem turns_suffice (names : Nat) :
    4 * names * (2 * (2 ^ 2 * (4 * names)) + 3) +
      (2 ^ 2 * (4 * names) + 2 + 2 ^ 2 * (4 * names)) < turns names := by
  unfold turns
  nlinarith

end AddressExpansion.Batch
