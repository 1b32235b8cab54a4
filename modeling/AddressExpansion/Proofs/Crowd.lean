import Mathlib.Data.List.TakeDrop
import Mathlib.Data.List.TakeWhile
import Mathlib.Logic.Relation
import AddressExpansion.Proofs.Work

/-! # Visits to a crowd

What attending to a crowd comes to, with the visits to its parts left open as a passage. Main
statement: a crowd is attended to in stretches of visits to the parts that rang (`attended`).
-/

namespace AddressExpansion

namespace Crowd

open Work

variable {α : Type} {p : Progress}

/-- How visits may take parts on. -/
abbrev Passage (α : Type) := Bell → α → Progress → α → Progress → Prop

def passage (visit : Bell → α → Work α) : Passage α :=
  fun bell part p part' p' => (visit bell part).run p = (part', p')

/-- The parts of a crowd that rang, from the first on that is not over. -/
def rungParts (crowd : Crowd α) (parts : List α) (p : Progress) : List Nat :=
  match p.rota.rosters[crowd.id]? with
  | none => []
  | some roster => roster.rung.dropWhile fun index => (crowd.pending? parts index).isNone

theorem rungParts_of_roster {crowd : Crowd α} {parts : List α} {roster : Roster}
    (found : p.rota.rosters[crowd.id]? = some roster) :
    rungParts crowd parts p =
      roster.rung.dropWhile fun index => (crowd.pending? parts index).isNone := by
  simp only [rungParts, found]

theorem rungParts_sublist {crowd : Crowd α} {parts : List α} {roster : Roster}
    (found : p.rota.rosters[crowd.id]? = some roster) :
    (rungParts crowd parts p).Sublist roster.rung := by
  rw [rungParts_of_roster found]
  exact List.dropWhile_sublist _

/-- The progress of a crowd when the next part is taken off its roster. -/
def taken (crowd : Crowd α) (parts : List α) (p : Progress) : Progress :=
  p.onRota (·.update crowd.id ({ · with rung := (rungParts crowd parts p).tail }))

theorem run_next? (crowd : Crowd α) (parts : List α) :
    (crowd.next? parts).run p =
      ((rungParts crowd parts p).head?.bind fun index =>
          (crowd.pending? parts index).map (index, ·),
        taken crowd parts p) :=
  rfl

theorem getElem?_of_pending? {crowd : Crowd α} {parts : List α} {index : Nat} {part : α}
    (pending : crowd.pending? parts index = some part) :
    parts[index]? = some part ∧ crowd.isOver part = false := by
  simpa [Crowd.pending?, Option.filter_eq_some_iff] using pending

/-- A part that rang and is not over is kept when others are passed by, unless it comes next. -/
theorem mem_tail_rungParts {crowd : Crowd α} {parts : List α} {index : Nat} {part : α}
    {roster : Roster} (found : p.rota.rosters[crowd.id]? = some roster) (rung : index ∈ roster.rung)
    (pending : crowd.pending? parts index = some part)
    (other : (rungParts crowd parts p).head? ≠ some index) :
    index ∈ (rungParts crowd parts p).tail := by
  have kept : index ∈ rungParts crowd parts p := by
    rw [← List.takeWhile_append_dropWhile (l := roster.rung)
      (p := fun index => (crowd.pending? parts index).isNone)] at rung
    rw [rungParts_of_roster found]
    rcases List.mem_append.mp rung with passed | kept
    · have := List.mem_takeWhile_imp passed
      simp [pending] at this
    · exact kept
  generalize rungParts crowd parts p = rung at other kept
  cases rung with
  | nil => cases kept
  | cons head tail =>
      refine (List.mem_cons.mp kept).resolve_left ?_
      rintro rfl
      exact other rfl

/-- What a stretch of at most `left` visits to the parts of a crowd does: whether a part ended, the
    parts, and the progress. -/
inductive Stretched (R : Passage α) (crowd : Crowd α) :
    (left : Nat) → List α → Progress → Bool → List α → Progress → Prop
  | weary {parts} {p : Progress} :
      Stretched R crowd 0 parts p false parts (p.onRota (·.ring crowd.bell))
  | quiet {left parts} {p : Progress} (nothing : rungParts crowd parts p = []) :
      Stretched R crowd (left + 1) parts p false parts (taken crowd parts p)
  | finished {left parts index part part' p'} {p : Progress}
      (pending : crowd.pending? parts index = some part)
      (first : (rungParts crowd parts p).head? = some index)
      (visited : R (crowd.partBell index) part (taken crowd parts p) part' p')
      (finished : crowd.isOver part') :
      Stretched R crowd (left + 1) parts p true (parts.set index part') p'
  | restless {left parts index part part' p'} {p : Progress}
      (pending : crowd.pending? parts index = some part)
      (first : (rungParts crowd parts p).head? = some index)
      (visited : R (crowd.partBell index) part (taken crowd parts p) part' p')
      (going : crowd.isOver part' = false) :
      Stretched R crowd (left + 1) parts p false (parts.set index part')
        (p'.onRota (·.ring crowd.bell))
  | next {left parts index part part' p' ended parts' p''} {p : Progress}
      (pending : crowd.pending? parts index = some part)
      (first : (rungParts crowd parts p).head? = some index)
      (visited : R (crowd.partBell index) part (taken crowd parts p) part' p')
      (going : crowd.isOver part' = false)
      (rest : Stretched R crowd left (parts.set index part') p' ended parts' p'') :
      Stretched R crowd (left + 1) parts p ended parts' p''

theorem pending_of_rungParts {crowd : Crowd α} {parts : List α} {index : Nat}
    (first : (rungParts crowd parts p).head? = some index) :
    ∃ part, crowd.pending? parts index = some part := by
  unfold rungParts at first
  split at first
  · simp at first
  · next roster _ =>
    have found := List.head?_dropWhile_not
      (fun index => (crowd.pending? parts index).isNone) roster.rung
    rw [first] at found
    simpa [Option.isNone_eq_false_iff, Option.isSome_iff_exists] using found

theorem stretched (crowd : Crowd α) (left again : Nat) (parts : List α) (p : Progress) :
    Stretched (passage crowd.visit) crowd left parts p ((crowd.stretch left again parts).run p).1.1
      ((crowd.stretch left again parts).run p).1.2 ((crowd.stretch left again parts).run p).2 := by
  induction left generalizing again parts p with
  | zero => exact .weary
  | succ left ih =>
      unfold Crowd.stretch
      rw [run_bind, run_next?]
      cases first : (rungParts crowd parts p).head? with
      | none => exact .quiet (List.head?_eq_none_iff.mp first)
      | some index =>
          obtain ⟨part, pending⟩ := pending_of_rungParts first
          simp only [Option.bind_some, pending, Option.map_some, run_bind]
          cases visited : (crowd.visit (crowd.partBell index) part).run (taken crowd parts p) with
          | mk part' p' =>
              by_cases finished : crowd.isOver part'
              · rw [if_pos finished]
                exact .finished pending first visited finished
              · rw [if_neg finished, run_get_bind]
                have going : crowd.isOver part' = false := by simpa using finished
                by_cases restless :
                    2 ≤ if p'.rota.isRung crowd.id index then again + 1 else again
                · rw [if_pos restless]
                  exact .restless pending first visited going
                · rw [if_neg restless]
                  exact .next pending first visited going (ih ..)

theorem all_set {Q : α → Prop} {parts : List α} {part' : α}
    (all : ∀ part ∈ parts, Q part) (changed : Q part') (index : Nat) :
    ∀ part ∈ parts.set index part', Q part := by
  intro part member
  rcases List.mem_or_eq_of_mem_set member with member | rfl
  · exact all part member
  · exact changed

theorem of_pending {Q : α → Prop} {crowd : Crowd α} {parts : List α} {index : Nat}
    {part : α} (all : ∀ part ∈ parts, Q part) (pending : crowd.pending? parts index = some part) :
    Q part :=
  all part (List.mem_of_getElem? (getElem?_of_pending? pending).1)

theorem Stretched.all {R : Passage α} {Q : α → Prop} {crowd : Crowd α} {left : Nat}
    {parts parts' : List α} {ended : Bool} {p' : Progress}
    (stretched : Stretched R crowd left parts p ended parts' p') (all : ∀ part ∈ parts, Q part)
    (keeps : ∀ {bell part q part' q'}, Q part → R bell part q part' q' → Q part') :
    ∀ part ∈ parts', Q part := by
  induction stretched with
  | weary | quiet => exact all
  | finished pending _ visited _ | restless pending _ visited _ =>
      exact all_set all (keeps (of_pending all pending) visited) _
  | next pending _ visited _ _ ih =>
      exact ih (all_set all (keeps (of_pending all pending) visited) _)

/-- Whether one crowd is a picture of another, part by part. -/
structure Pictures {β : Type} (f : α → β) (crowd : Crowd α) (crowd' : Crowd β) : Prop where
  id_eq : crowd'.id = crowd.id
  bell_eq : crowd'.bell = crowd.bell
  isOver_eq : ∀ part, crowd'.isOver (f part) = crowd.isOver part
  isSettled_eq : ∀ parts : List α, crowd'.isSettled (parts.map f) = crowd.isSettled parts

namespace Pictures

variable {β : Type} {f : α → β} {crowd : Crowd α} {crowd' : Crowd β}
  (pictures : Pictures f crowd crowd') {parts : List α}
include pictures

theorem pending?_eq (index : Nat) :
    crowd'.pending? (parts.map f) index = (crowd.pending? parts index).map f := by
  unfold pending?
  cases located : parts[index]? with
  | none => simp [located]
  | some part => cases finished : crowd.isOver part <;> 
      simp [located, Option.filter_some, pictures.isOver_eq, finished]

theorem rungParts_eq (p : Progress) :
    rungParts crowd' (parts.map f) p = rungParts crowd parts p := by
  unfold rungParts
  simp only [pictures.id_eq, pictures.pending?_eq, Option.isNone_map]

theorem taken_eq (p : Progress) : taken crowd' (parts.map f) p = taken crowd parts p := by
  unfold taken
  rw [pictures.id_eq, pictures.rungParts_eq]

theorem partBell_eq (index : Nat) : crowd'.partBell index = crowd.partBell index := by
  unfold partBell
  rw [pictures.id_eq, pictures.bell_eq]

end Pictures

section Picture

variable {β : Type} {f : α → β} {crowd : Crowd α} {crowd' : Crowd β} {R : Passage α}
  {S : Passage β} {Q : α → Prop} {I : Progress → Prop} (pictures : Pictures f crowd crowd')
  (bells : ∀ {p : Progress} (g : Rota → Rota), I p → I (p.onRota g))
  (visits : ∀ {bell part q part' q'}, Q part → I q → R bell part q part' q' →
    S bell (f part) q (f part') q' ∧ Q part' ∧ I q')
  {parts parts' : List α} {p' : Progress}
include pictures bells visits

/-- If every visit to a part is pictured by a visit to its picture, then so is a stretch of them. -/
theorem Stretched.map {left : Nat} {ended : Bool}
    (stretched : Stretched R crowd left parts p ended parts' p') (all : ∀ part ∈ parts, Q part)
    (start : I p) :
    Stretched S crowd' left (parts.map f) p ended (parts'.map f) p' ∧ (∀ part ∈ parts', Q part) ∧
      I p' := by
  have visit : ∀ {parts : List α} {p : Progress} {index part part' p'},
      (∀ part ∈ parts, Q part) → I p → crowd.pending? parts index = some part →
        R (crowd.partBell index) part (taken crowd parts p) part' p' →
          crowd'.pending? (parts.map f) index = some (f part) ∧
            S (crowd'.partBell index) (f part) (taken crowd' (parts.map f) p) (f part') p' ∧
              (∀ part ∈ parts.set index part', Q part) ∧ I p' := by
    intro parts p index part part' p' all start pending visited
    obtain ⟨pictured, kept, still⟩ := visits (of_pending all pending) (bells _ start) visited
    rw [pictures.pending?_eq, pictures.partBell_eq, pictures.taken_eq, pending]
    exact ⟨rfl, pictured, all_set all kept index, still⟩
  induction stretched with
  | @weary parts p => exact ⟨pictures.bell_eq ▸ .weary, all, bells _ start⟩
  | @quiet _ parts p nothing =>
      refine ⟨?_, all, bells _ start⟩
      rw [← pictures.taken_eq]
      exact .quiet ((pictures.rungParts_eq p).trans nothing)
  | finished pending first visited finished =>
      obtain ⟨pending', visited', all', still⟩ := visit all start pending visited
      rw [List.map_set]
      exact ⟨.finished pending' ((congrArg _ (pictures.rungParts_eq _)).trans first) visited'
        ((pictures.isOver_eq _).trans finished), all', still⟩
  | restless pending first visited going =>
      obtain ⟨pending', visited', all', still⟩ := visit all start pending visited
      rw [List.map_set, ← pictures.bell_eq]
      exact ⟨.restless pending' ((congrArg _ (pictures.rungParts_eq _)).trans first) visited'
        ((pictures.isOver_eq _).trans going), all', bells _ still⟩
  | next pending first visited going _ ih =>
      obtain ⟨pending', visited', all', still⟩ := visit all start pending visited
      obtain ⟨rest, last⟩ := ih all' still
      rw [List.map_set] at rest
      exact ⟨.next pending' ((congrArg _ (pictures.rungParts_eq _)).trans first) visited'
        ((pictures.isOver_eq _).trans going) rest, last⟩

end Picture

theorem busy_set {crowd : Crowd α} {parts : List α} {index : Nat} {part : α}
    (pending : crowd.pending? parts index = some part) (part' : α) :
    busy crowd (parts.set index part') + (if crowd.isOver part' then 1 else 0) =
      busy crowd parts := by
  obtain ⟨located, open'⟩ := getElem?_of_pending? pending
  obtain ⟨inside, rfl⟩ := List.getElem?_eq_some_iff.mp located
  have some_busy : 0 < busy crowd parts :=
    List.countP_pos_iff.mpr ⟨_, List.getElem_mem inside, by simp [open']⟩
  unfold busy at some_busy ⊢
  rw [List.countP_set inside, open']
  cases crowd.isOver part' <;> simp <;> omega

theorem Stretched.busy_eq {R : Passage α} {crowd : Crowd α} {left : Nat}
    {parts parts' : List α} {ended : Bool} {p' : Progress}
    (stretched : Stretched R crowd left parts p ended parts' p') :
    busy crowd parts' + (if ended then 1 else 0) = busy crowd parts := by
  induction stretched with
  | weary | quiet => rfl
  | @finished _ _ _ _ part' _ _ pending _ _ finished =>
      simpa [finished] using busy_set pending part'
  | @restless _ _ _ _ part' _ _ pending _ _ open' =>
      simpa [open'] using busy_set pending part'
  | @next _ _ _ _ part' _ _ _ _ _ pending _ _ open' _ ih =>
      rw [ih]
      simpa [open'] using busy_set pending part'

def armed (crowd : Crowd α) (p : Progress) : Progress :=
  p.onRota (·.update crowd.id ({ · with armed := true }))

theorem run_attendUpTo (crowd : Crowd α) (ends : Nat) (parts : List α) :
    (crowd.attendUpTo (ends + 1) parts).run p =
      if crowd.isSettled parts then (parts, p)
      else
        let stretched :=
          (crowd.stretch (busy crowd parts) 0 parts).run (armed crowd p)
        if stretched.1.1 then (crowd.attendUpTo ends stretched.1.2).run stretched.2
        else (stretched.1.2, stretched.2) := by
  rw [Crowd.attendUpTo]
  by_cases settled : crowd.isSettled parts
  · rw [if_pos settled, if_pos settled]
    rfl
  · rw [if_neg settled, if_neg settled]
    let stretched :=
      (crowd.stretch (busy crowd parts) 0 parts).run (armed crowd p)
    change (if stretched.1.1 then crowd.attendUpTo ends stretched.1.2
        else pure stretched.1.2 : Work (List α)).run stretched.2 =
      if stretched.1.1 then (crowd.attendUpTo ends stretched.1.2).run stretched.2
      else (stretched.1.2, stretched.2)
    cases stretched.1.1 <;> rfl

theorem Pictures.busy_eq {β : Type} {f : α → β} {crowd : Crowd α} {crowd' : Crowd β}
    (pictures : Pictures f crowd crowd') (parts : List α) :
    busy crowd' (parts.map f) = busy crowd parts := by
  simp only [busy, List.countP_map, Function.comp_def, pictures.isOver_eq]

/-- What attending to a crowd does, until it is settled, breaks off, or `ends` parts have ended:
    the parts and the progress. -/
inductive Attended (R : Passage α) (crowd : Crowd α) :
    (ends : Nat) → List α → Progress → List α → Progress → Prop
  | out {parts} {p : Progress} : Attended R crowd 0 parts p parts p
  | settled {ends parts} {p : Progress} (settled : crowd.isSettled parts) :
      Attended R crowd (ends + 1) parts p parts p
  | breakOff {ends parts parts' p'} {p : Progress} (unsettled : crowd.isSettled parts = false)
      (stretch : Stretched R crowd (busy crowd parts) parts (armed crowd p)
        false parts' p') :
      Attended R crowd (ends + 1) parts p parts' p'
  | pause {ends parts parts' p'} {p : Progress} (unsettled : crowd.isSettled parts = false)
      (stretch : Stretched R crowd (busy crowd parts) parts (armed crowd p)
        true parts' p') :
      Attended R crowd (ends + 1) parts p parts' (p'.onRota (·.ring crowd.bell))
  | again {ends parts parts' p' parts'' p''} {p : Progress}
      (unsettled : crowd.isSettled parts = false)
      (stretch : Stretched R crowd (busy crowd parts) parts (armed crowd p)
        true parts' p')
      (rest : Attended R crowd ends parts' p' parts'' p'') :
      Attended R crowd (ends + 1) parts p parts'' p''

/-- What visits keep in each part is kept in all. -/
theorem Attended.all {R : Passage α} {Q : α → Prop} {crowd : Crowd α} {ends : Nat}
    {parts parts' : List α} {p' : Progress} (attended : Attended R crowd ends parts p parts' p')
    (all : ∀ part ∈ parts, Q part)
    (keeps : ∀ {bell part q part' q'}, Q part → R bell part q part' q' → Q part') :
    ∀ part ∈ parts', Q part := by
  induction attended with
  | out | settled => exact all
  | breakOff _ stretch | pause _ stretch => exact stretch.all all keeps
  | again _ stretch _ ih => exact ih (stretch.all all keeps)

theorem Attended.map {β : Type} {f : α → β} {crowd : Crowd α} {crowd' : Crowd β} {R : Passage α}
    {S : Passage β} {Q : α → Prop} {I : Progress → Prop} (pictures : Pictures f crowd crowd')
    (bells : ∀ {p : Progress} (g : Rota → Rota), I p → I (p.onRota g))
    (visits : ∀ {bell part q part' q'}, Q part → I q → R bell part q part' q' →
      S bell (f part) q (f part') q' ∧ Q part' ∧ I q')
    {ends : Nat} {parts parts' : List α} {p' : Progress}
    (attended : Attended R crowd ends parts p parts' p') (all : ∀ part ∈ parts, Q part)
    (start : I p) : Attended S crowd' ends (parts.map f) p (parts'.map f) p' ∧ I p' := by
  have stretches : ∀ {parts : List α} {p : Progress} {ended parts' p'},
      (∀ part ∈ parts, Q part) → I p →
        Stretched R crowd (busy crowd parts) parts (armed crowd p) ended
          parts' p' →
        Stretched S crowd' (busy crowd' (parts.map f)) (parts.map f)
          (armed crowd' p) ended (parts'.map f) p' ∧ (∀ part ∈ parts', Q part) ∧ I p' := by
    intro parts p ended parts' p' all start stretch
    have same : armed crowd' p = armed crowd p := by
      unfold armed
      rw [pictures.id_eq]
    rw [same, pictures.busy_eq]
    exact stretch.map pictures bells (fun kept still visited => visits kept still visited) all
      (bells _ start)
  have unsettled' : ∀ {parts : List α} {b}, crowd.isSettled parts = b →
      crowd'.isSettled (parts.map f) = b := fun settled => (pictures.isSettled_eq _).trans settled
  induction attended with
  | out => exact ⟨.out, start⟩
  | settled settled => exact ⟨.settled (unsettled' settled), start⟩
  | breakOff unsettled stretch =>
      obtain ⟨pictured, -, still⟩ := stretches all start stretch
      exact ⟨.breakOff (unsettled' unsettled) pictured, still⟩
  | pause unsettled stretch =>
      obtain ⟨pictured, -, still⟩ := stretches all start stretch
      rw [← pictures.bell_eq]
      exact ⟨.pause (unsettled' unsettled) pictured, bells _ still⟩
  | again unsettled stretch _ ih =>
      obtain ⟨pictured, all', still⟩ := stretches all start stretch
      obtain ⟨rest, last⟩ := ih all' still
      exact ⟨.again (unsettled' unsettled) pictured rest, last⟩

theorem Attended.imp {R S : Passage α} {Q : α → Prop} {crowd : Crowd α} {ends : Nat}
    {parts parts' : List α} {p' : Progress} (attended : Attended R crowd ends parts p parts' p')
    (all : ∀ part ∈ parts, Q part)
    (imp : ∀ {bell part q part' q'}, Q part → R bell part q part' q' →
      S bell part q part' q' ∧ Q part') :
    Attended S crowd ends parts p parts' p' := by
  have pictures : Pictures (fun part => part) crowd crowd := ⟨rfl, rfl, fun _ => rfl, by simp⟩
  have pictured := attended.map (I := fun _ => True) pictures (fun _ _ => trivial)
    (fun kept _ visited => (imp kept visited).imp_right (⟨·, trivial⟩)) all trivial
  simpa using pictured.1

theorem attended (crowd : Crowd α) (ends : Nat) (parts : List α) (p : Progress) :
    Attended (passage crowd.visit) crowd ends parts p ((crowd.attendUpTo ends parts).run p).1
      ((crowd.attendUpTo ends parts).run p).2 := by
  induction ends generalizing parts p with
  | zero => exact .out
  | succ ends ih =>
      rw [run_attendUpTo]
      by_cases settled : crowd.isSettled parts
      · rw [if_pos settled]
        exact .settled settled
      · rw [if_neg settled]
        have unsettled : crowd.isSettled parts = false := by simpa using settled
        have stretch :=
          stretched crowd (busy crowd parts) 0 parts (armed crowd p)
        simp only
        split
        case isTrue more =>
          rw [more] at stretch
          exact .again unsettled stretch (ih ..)
        case isFalse done =>
          rw [Bool.not_eq_true] at done
          rw [done] at stretch
          exact .breakOff unsettled stretch

theorem run_attendOneByOne (crowd : Crowd α) (ends : Nat) (parts : List α) (p : Progress) :
    (crowd.attendOneByOne (ends + 1) parts).run p =
      if crowd.isSettled parts then (parts, p)
      else
        let stretched :=
          (crowd.stretch (busy crowd parts) 0 parts).run (armed crowd p)
        if stretched.1.1 then
          if stretched.2.allowance = 0 then
            (stretched.1.2, stretched.2.onRota (·.ring crowd.bell))
          else (crowd.attendOneByOne ends stretched.1.2).run stretched.2
        else (stretched.1.2, stretched.2) := by
  rw [Crowd.attendOneByOne]
  by_cases settled : crowd.isSettled parts
  · rw [if_pos settled, if_pos settled]
    rfl
  · rw [if_neg settled, if_neg settled]
    let stretched :=
      (crowd.stretch (busy crowd parts) 0 parts).run (armed crowd p)
    change (if !stretched.1.1 then pure stretched.1.2 else do
        if (← get).allowance = 0 then
          onRota (·.ring crowd.bell)
          return stretched.1.2
        crowd.attendOneByOne ends stretched.1.2 : Work (List α)).run stretched.2 =
      if stretched.1.1 then
        if stretched.2.allowance = 0 then (stretched.1.2, stretched.2.onRota (·.ring crowd.bell))
        else (crowd.attendOneByOne ends stretched.1.2).run stretched.2
      else (stretched.1.2, stretched.2)
    cases stretched.1.1 with
    | false => rfl
    | true =>
        rw [if_pos rfl, if_neg (by decide), run_get_bind]
        by_cases spent : stretched.2.allowance = 0
        · rw [if_pos spent, if_pos spent]
          rfl
        · rw [if_neg spent, if_neg spent]

theorem attended_oneByOne (crowd : Crowd α) (ends : Nat) (parts : List α) (p : Progress) :
    Attended (passage crowd.visit) crowd ends parts p ((crowd.attendOneByOne ends parts).run p).1
      ((crowd.attendOneByOne ends parts).run p).2 := by
  induction ends generalizing parts p with
  | zero => exact .out
  | succ ends ih =>
      rw [run_attendOneByOne]
      by_cases settled : crowd.isSettled parts
      · rw [if_pos settled]
        exact .settled settled
      · rw [if_neg settled]
        have unsettled : crowd.isSettled parts = false := by simpa using settled
        have stretch :=
          stretched crowd (busy crowd parts) 0 parts (armed crowd p)
        simp only
        split
        case isTrue more =>
          rw [more] at stretch
          split
          case isTrue => exact .pause unsettled stretch
          case isFalse => exact .again unsettled stretch (ih ..)
        case isFalse done =>
          rw [Bool.not_eq_true] at done
          rw [done] at stretch
          exact .breakOff unsettled stretch

/-- Whether whatever happens to a crowd leads from a state of it to another. -/
structure Leads (R : Passage α) (crowd : Crowd α)
    (S : List α × Progress → List α × Progress → Prop) : Prop where
  ring : ∀ {parts} {p : Progress}, S (parts, p) (parts, p.onRota (·.ring crowd.bell))
  take : ∀ {parts} {p : Progress}, S (parts, p) (parts, taken crowd parts p)
  arm : ∀ {parts} {p : Progress}, S (parts, p) (parts, armed crowd p)
  visit : ∀ {parts index part part' p'} {p : Progress}, parts[index]? = some part →
    R (crowd.partBell index) part p part' p' → S (parts, p) (parts.set index part', p')

namespace Leads

open Relation

variable {R : Passage α} {crowd : Crowd α} {S : List α × Progress → List α × Progress → Prop}
  (leads : Leads R crowd S) {parts parts' : List α} {p' : Progress}
include leads

theorem stretched {left : Nat} {ended : Bool}
    (stretched : Stretched R crowd left parts p ended parts' p') :
    ReflTransGen S (parts, p) (parts', p') := by
  induction stretched with
  | weary => exact .single leads.ring
  | quiet => exact .single leads.take
  | finished pending _ visited =>
      exact .head leads.take (.single (leads.visit (getElem?_of_pending? pending).1 visited))
  | restless pending _ visited =>
      exact .head leads.take (.head (leads.visit (getElem?_of_pending? pending).1 visited)
        (.single leads.ring))
  | next pending _ visited _ _ ih =>
      exact .head leads.take (.head (leads.visit (getElem?_of_pending? pending).1 visited) ih)

theorem attended {ends : Nat} (attended : Attended R crowd ends parts p parts' p') :
    ReflTransGen S (parts, p) (parts', p') := by
  induction attended with
  | out | settled => exact .refl
  | breakOff _ stretch => exact .head leads.arm (leads.stretched stretch)
  | pause _ stretch => exact .head leads.arm ((leads.stretched stretch).tail leads.ring)
  | again _ stretch _ ih => exact .head leads.arm ((leads.stretched stretch).trans ih)

end Leads

end Crowd

end AddressExpansion
