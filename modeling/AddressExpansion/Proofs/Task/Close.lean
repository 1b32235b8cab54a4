import AddressExpansion.Proofs.Expansion.Close
import AddressExpansion.Proofs.Task.Unsettled

/-! # How a task comes to a close

What a task comes to and when, if no lookup has to wait for a line. Steps take no time and leave the
close as it is (`Step.close_eq`). The clock may move as long as all lookups are under way and none
of them is over before (`close_atTime`).
-/

namespace AddressExpansion

/-- When a lookup ends that has its line, or gets it now. -/
def Stage.ends (duration now : Nat) : Stage → Nat
  | idle | queued _ => now + duration
  | underway ends _ => ends

/-- Whether a lookup that is under way at a site ends no earlier than a time. -/
def Site.EndsFrom (time : Nat) : Site → Prop
  | lookup _ _ _ (.underway ends _) => time ≤ ends
  | _ => True

/-- Whether nothing can go on at a site before a time. -/
def Site.StaysUntil (time : Nat) : Site → Prop
  | lookup _ _ _ (.underway ends _) => time ≤ ends
  | crowd .. => True
  | _ => False

namespace Task

mutual

/-- How a task comes to a close, seen from a time. -/
def close (env : Environment) (now : Nat) : Task → Close
  | .fresh scope term => (Expansion.inScope env scope term).close env now
  | .lookup scope name stage =>
    (Expansion.ofHost env scope name).closeAnswered env (stage.ends (env.duration name) now)
  | .gather _ gathering body =>
    (close env now body).yielding
      ((worth env body).bind fun atoms => (gathering.gather atoms).toOption)
  | .join parts => .ofJoin now (closes env now parts)
  | .crowd _ parts => .ofCrowd now (closes env now parts)
  | .ended (.ok _) => .well now
  | .ended (.error _) => .failed now

def closes (env : Environment) (now : Nat) : List Task → List Close
  | [] => []
  | task :: tasks => close env now task :: closes env now tasks

end

variable {env : Environment} {bell : Bell} {now next : Nat} {task task' : Task} {p p' : Progress}

@[simp] theorem closes_eq_map (tasks : List Task) :
    closes env now tasks = tasks.map (close env now) := by
  induction tasks with
  | nil => rfl
  | cons task tasks ih => simp only [closes, List.map_cons, ih]

theorem close_fresh_map (scope : Scope) (items : List Term) :
    closes env now (items.map (.fresh scope)) =
      Expansion.closes env now (items.map (Expansion.inScope env scope)) := by
  simp only [closes_eq_map, Expansion.closes_eq_map, List.map_map, Function.comp_def, close]

/-! ## Definitions and lookups -/

theorem Uses.close_eq {use : Task → Task} {e : Expansion} (uses : Uses env use e task)
    (f : Expansion → Close) (refused : ∀ failure, f (.fault failure) = .failed now)
    (used : ∀ within term,
      close env now (use (.fresh within term)) = f (Expansion.inScope env within term)) :
    close env now task = f e := by
  cases uses with
  | refused => exact (refused _).symm
  | inside => exact used _ _

private theorem close_gather_fresh {scope within : Scope} {gathering : Gathering} {term : Term}
    (sound : ∀ atoms, ∃ atoms', gathering.gather atoms = .ok atoms') :
    close env now (.gather scope gathering (.fresh within term)) =
      (Expansion.inScope env within term).close env now := by
  rw [close, close]
  refine Close.yielding_eq_self fun well => ?_
  rw [Expansion.isWell_close, Option.isSome_iff_exists] at well
  obtain ⟨atoms, found⟩ := well
  obtain ⟨atoms', gathered⟩ := sound atoms
  rw [worth, found, Option.bind_some, gathered]
  rfl

private theorem close_gather_override {scope within : Scope} {name : String} {term : Term} :
    close env now (.gather scope (.override name) (.fresh within term)) =
      let body := Expansion.inScope env within term
      if body.addresses = [] then .failed (body.close env now).time else body.close env now := by
  rw [close, close, worth]
  dsimp only
  generalize Expansion.inScope env within term = body
  cases found : body.worth with
  | none =>
      have failing : (body.close env now).isWell = false := by
        rw [Expansion.isWell_close, found]
        rfl
      rw [Close.failed_time_of_not_isWell failing, ite_self, Option.bind_none]
      exact Close.failed_time_of_not_isWell failing
  | some atoms =>
      -- Repetition is dropped on the way from the leaves to the atoms, but no address is lost.
      have empty : Atom.gather? atoms (some name) = none ↔ body.addresses = [] := by
        rw [Atom.gather?_eq_none, ← distinct_eq_nil, Expansion.distinct_addresses env found,
          distinct_eq_nil]
      rw [Option.bind_some, Gathering.toOption_gather_override]
      by_cases none : body.addresses = []
      · rw [if_pos none, empty.mpr none]
        rfl
      · rw [if_neg none]
        cases gathered : Atom.gather? atoms (some name) with
        | none => exact absurd (empty.mp gathered) none
        | some => rfl

section Opened

variable {scope : Scope} {name : String} {e : Expansion}

theorem Opens.close_eq (opens : Opens env scope name e task) :
    close env now task = e.close env now := by
  cases opens with
  | literal => rfl
  | host => simp only [Expansion.close_ofHost, close, Stage.ends]
  | group uses =>
      simp only [Expansion.close]
      exact uses.close_eq _ (fun _ => rfl) fun within term =>
        close_gather_fresh fun atoms => ⟨_, rfl⟩
  | var uses =>
      simp only [Expansion.close]
      exact uses.close_eq _ (fun _ => rfl) fun within term => by rw [id, close]

theorem Answers.close_eq (answers : Answers env scope name e task) :
    close env now task = e.closeAnswered env now := by
  cases answers with
  | found | lost => rfl
  | rescued _ _ uses =>
      simp only [Expansion.closeAnswered]
      exact uses.close_eq
        (fun body => if body.addresses = [] then .failed (body.close env now).time
          else body.close env now)
        (fun _ => rfl) fun within term => close_gather_override

end Opened

/-! ## Parts of lists -/

section Parts

variable {roster : Nat} {parts : List Task}

theorem forall_sites_join {I : Site → Prop} :
    (∀ site ∈ (join parts).sites bell, I site) ↔
      ∀ part ∈ parts, ∀ site ∈ part.sites bell, I site := by
  simp only [sites, sitesOfJoin_eq_flatMap, List.mem_flatMap]
  constructor
  · exact fun all part member site there => all site ⟨part, member, there⟩
  · rintro all site ⟨part, member, there⟩
    exact all part member site there

theorem forall_sites_crowd {I : Site → Prop}
    (all : ∀ site ∈ (crowd roster parts).sites bell, I site) :
    ∀ part ∈ parts, ∃ inner, ∀ site ∈ part.sites inner, I site := by
  intro part member
  obtain ⟨i, located⟩ := List.mem_iff_getElem?.mp member
  refine ⟨.part roster (0 + i) bell, fun site there => all site ?_⟩
  rw [sites]
  exact List.mem_cons_of_mem _ (mem_sitesOfCrowd.mpr ⟨i, part, located, there⟩)

private theorem closes_succeeded (all : ∀ part ∈ parts, ∃ atoms, part = .ended (.ok atoms)) :
    ∀ c ∈ parts.map (close env now), c = .well now := by
  intro c member
  obtain ⟨part, given, rfl⟩ := List.mem_map.mp member
  obtain ⟨atoms, rfl⟩ := all part given
  rfl

end Parts

/-! ## Steps -/

theorem le_time_close (punctual : ∀ site ∈ task.sites bell, site.EndsFrom now) :
    now ≤ (close env now task).time := by
  induction task using Task.induct generalizing bell with
  | fresh scope term =>
      rw [close]
      exact Expansion.le_time_close ..
  | lookup scope name stage =>
      rw [close]
      refine Nat.le_trans ?_ (Expansion.le_time_closeAnswered ..)
      cases stage with
      | idle | queued => exact Nat.le_add_right ..
      | underway => exact punctual _ (List.mem_singleton_self _)
  | gather _ _ _ ih =>
      rw [close, Close.time_yielding]
      exact ih punctual
  | join parts ih =>
      rw [close, closes_eq_map]
      refine Close.le_time_ofJoin fun c member => ?_
      obtain ⟨part, given, rfl⟩ := List.mem_map.mp member
      exact ih part given (forall_sites_join.mp punctual part given)
  | crowd roster parts ih =>
      rw [close, closes_eq_map]
      refine Close.le_time_ofCrowd fun c member => ?_
      obtain ⟨part, given, rfl⟩ := List.mem_map.mp member
      obtain ⟨inner, inside⟩ := forall_sites_crowd punctual part given
      exact ih part given inside
  | ended outcome => cases outcome <;> exact Nat.le_refl _

private theorem close_settled {parts : List Task} {outcome : Outcome}
    (settled : outcomeTogether? parts = some outcome)
    (punctual : ∀ site ∈ (join parts).sites bell, site.EndsFrom now) :
    close env now (.ended outcome) = close env now (.join parts) := by
  have failing : ∀ failure, outcome = .error failure → .ended (.error failure) ∈ parts →
      close env now (.ended outcome) = close env now (.join parts) := by
    rintro failure rfl member
    have now_failed : .failed now ∈ parts.map (close env now) := List.mem_map_of_mem member
    have late : ∀ c ∈ parts.map (close env now), now ≤ c.time := by
      intro c member
      obtain ⟨part, given, rfl⟩ := List.mem_map.mp member
      exact le_time_close (forall_sites_join.mp punctual part given)
    rw [close.eq_def env now (.join parts)]
    dsimp only
    rw [closes_eq_map, Close.ofJoin_eq_failed now_failed late]
    rfl
  unfold outcomeTogether? at settled
  split at settled
  · next failure found =>
      obtain ⟨part, member, failed⟩ := List.exists_of_findSome?_eq_some found
      obtain rfl := eq_ended_of_failure? failed
      exact failing failure (Option.some.inj settled).symm member
  · rcases settled_cases settled with ⟨⟨atoms, rfl⟩, all⟩ | ⟨front, failure, back, same, rfl, -⟩
    · rw [close, closes_eq_map, Close.ofJoin_eq_well (closes_succeeded all)]
      rfl
    · exact failing failure same (by simp)

private theorem close_settled_in_order {roster : Nat} {parts : List Task} {outcome : Outcome}
    (settled : outcomeInOrder? parts = some outcome) :
    close env now (.ended outcome) = close env now (.crowd roster parts) := by
  rw [close, closes_eq_map]
  rcases settled_cases settled with ⟨⟨atoms, rfl⟩, all⟩ | ⟨front, failure, back, rfl, rfl, before⟩
  · have closed : ∀ c ∈ parts.map (close env now), c = .well now := closes_succeeded all
    rw [Close.ofCrowd_eq_ofJoin fun c member => by rw [closed c member]; rfl,
      Close.ofJoin_eq_well closed]
    rfl
  · rw [List.map_append, List.map_cons]
    exact (Close.ofCrowd_eq_failed (closes_succeeded before)).symm

theorem Act.close_eq (act : Act env bell task p task' p')
    (punctual : ∀ site ∈ task.sites bell, site.EndsFrom p.board.now) :
    close env p.board.now task' = close env p.board.now task := by
  cases act with
  | trace | spend | putOff | draw | take | claim | setAlarm | roster | ring => rfl
  | token => rw [(opens_token ..).close_eq, close]
  | record =>
      rw [close_gather_fresh fun atoms => ⟨_, rfl⟩, close, Expansion.inScope_record,
        Expansion.close]
  | openJoin few =>
      rw [close, close, close_fresh_map, Expansion.inScope_list, Expansion.close,
        if_pos (by simpa using few)]
  | openCrowd many =>
      rw [close, close, close_fresh_map, Expansion.inScope_list, Expansion.close,
        if_neg (by simpa using many)]
  | hangUp due =>
      -- The call is due, and it cannot have been over before.
      have late := punctual _ (List.mem_singleton_self _)
      rw [(answers_host ..).close_eq, close, Stage.ends, Nat.le_antisymm late due]
  | @finish scope gathering atoms =>
      rw [close.eq_def env _ (.gather ..)]
      simp only [worth, Except.toOption, Option.bind_some]
      cases gathering.gather atoms <;> rfl
  | fail => rfl
  | settleJoin settled => exact close_settled settled punctual
  | settleCrowd settled => exact close_settled_in_order settled

/-- A step does not change how a task comes to a close. -/
theorem Step.close_eq (step : Step env bell task p task' p')
    (punctual : ∀ site ∈ task.sites bell, site.EndsFrom p.board.now) :
    close env p.board.now task' = close env p.board.now task := by
  induction step with
  | act act => exact act.close_eq punctual
  | inGather inner ih => simp only [close, ih punctual, inner.worth_eq]
  | inJoin _ ih =>
      have inside := forall_sites_join.mp punctual _ (List.mem_append_right _ List.mem_cons_self)
      simp only [close, closes_eq_map, List.map_append, List.map_cons, ih inside]
  | @inCrowd bell roster front part part' back p p' _ ih =>
      have inside : ∀ site ∈ part.sites (.part roster front.length bell),
          site.EndsFrom p.board.now := by
        intro site there
        refine punctual site ?_
        rw [sites, sitesOfCrowd_append, sitesOfCrowd, Nat.zero_add]
        exact List.mem_cons_of_mem _ (List.mem_append_right _ (List.mem_append_left _ there))
      simp only [close, closes_eq_map, List.map_append, List.map_cons, ih inside]

/-! ## Moves of the clock -/

/-- Seen from a later time, what is over is over then, and everything else closes as before. -/
private theorem close_eq_notBefore (later : now ≤ next)
    (stays : ∀ site ∈ task.sites bell, site.StaysUntil next) :
    close env next task = (close env now task).notBefore next := by
  induction task using Task.induct generalizing bell with
  | fresh => exact (stays _ (List.mem_singleton_self _)).elim
  | lookup scope name stage =>
      cases stage with
      | idle | queued => exact (stays _ (List.mem_singleton_self _)).elim
      | underway ends alarm =>
          have late : next ≤ ends := stays _ (List.mem_singleton_self _)
          exact (Close.notBefore_eq_self
            (Nat.le_trans late (Expansion.le_time_closeAnswered ..))).symm
  | gather _ _ _ ih => rw [close, close, ih stays, Close.notBefore_yielding]
  | join parts ih =>
      rw [close, close, Close.notBefore_ofJoin, Nat.max_eq_left later, closes_eq_map,
        closes_eq_map, List.map_map]
      refine congrArg (Close.ofJoin next) (List.map_congr_left fun part member => ?_)
      exact ih part member (forall_sites_join.mp stays part member)
  | crowd roster parts ih =>
      rw [close, close, Close.notBefore_ofCrowd, Nat.max_eq_left later, closes_eq_map,
        closes_eq_map, List.map_map]
      refine congrArg (Close.ofCrowd next) (List.map_congr_left fun part member => ?_)
      obtain ⟨inner, inside⟩ := forall_sites_crowd stays part member
      exact ih part member inside
  | ended outcome =>
      cases outcome
      · exact congrArg Close.failed (Nat.max_eq_left later).symm
      · exact congrArg Close.well (Nat.max_eq_left later).symm

private theorem le_time_close_of_going (unsettled : task.Unsettled) (going : task.outcome? = none)
    (stays : ∀ site ∈ task.sites bell, site.StaysUntil next) :
    next ≤ (close env now task).time := by
  induction task using Task.induct generalizing bell with
  | fresh => exact (stays _ (List.mem_singleton_self _)).elim
  | ended => cases going
  | lookup scope name stage =>
      cases stage with
      | idle | queued => exact (stays _ (List.mem_singleton_self _)).elim
      | underway ends alarm =>
          have late : next ≤ ends := stays _ (List.mem_singleton_self _)
          exact Nat.le_trans late (Expansion.le_time_closeAnswered ..)
  | gather _ _ _ ih =>
      cases unsettled with
      | gather going inside =>
          rw [close, Close.time_yielding]
          exact ih inside going stays
  | join parts ih =>
      cases unsettled with
      | join open' inside =>
          have late : ∀ part ∈ parts, part.outcome? = none → next ≤ (close env now part).time :=
            fun part member going => ih part member (inside part member) going
              (forall_sites_join.mp stays part member)
          rw [close, closes_eq_map]
          refine Close.le_time_ofJoin_of_going ?_ fun c member failing => ?_
          · obtain ⟨part, member, going⟩ := exists_going (outcomeInOrder?_of_together open')
            exact ⟨_, List.mem_map_of_mem member, late part member going⟩
          · -- A part that had failed would have settled the join, so this one is still going.
            obtain ⟨part, given, rfl⟩ := List.mem_map.mp member
            have sound := failure?_of_together open' part given
            match part with
            | .ended (.ok atoms) => cases failing
            | .ended (.error failure) => cases sound
            | .fresh .. | .lookup .. | .gather .. | .join .. | .crowd .. => exact late _ given rfl
  | crowd roster parts ih =>
      cases unsettled with
      | crowd open' inside =>
          obtain ⟨front, part, back, rfl, going, before⟩ := going_cases open'
          have member : part ∈ front ++ part :: back := by simp
          obtain ⟨inner, there⟩ := forall_sites_crowd stays part member
          rw [close, closes_eq_map, List.map_append, List.map_cons]
          refine Close.le_time_ofCrowd_of_going (ih part member (inside part member) going there)
            fun c member => ?_
          rw [closes_succeeded before c member]
          rfl

/-- A move of the clock does not change how a task comes to a close. -/
theorem close_atTime (unsettled : task.Unsettled) (going : task.outcome? = none)
    (later : now ≤ next) (stays : ∀ site ∈ task.sites bell, site.StaysUntil next) :
    close env next task = close env now task := by
  rw [close_eq_notBefore later stays]
  exact Close.notBefore_eq_self (le_time_close_of_going unsettled going stays)

end Task

end AddressExpansion
