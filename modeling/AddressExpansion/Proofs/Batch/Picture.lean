import AddressExpansion.Proofs.Batch.Steps
import AddressExpansion.Proofs.Task.Start

/-! # Batches as lists of lookups

Lines and bells do not depend on what a lookup finds, only on how long it takes. So a batch goes on
as the list of its names does where every lookup succeeds (`Batch.pictured`), and what holds of tasks
between turns holds of batches.
-/

namespace AddressExpansion

/-- An answer that takes as long, and gives an address. -/
def Answer.granted (limit : Nat) (answer : Answer) : Answer :=
  match answer.wait? limit with
  | none => .atOnce (.addresses [⟨.v6, 1, by decide⟩])
  | some wait => .after wait (.addresses [⟨.v6, 1, by decide⟩])

/-- The environment in which every lookup succeeds. -/
def Engine.granting (engine : Engine) : Environment :=
  { engine with
    answer := fun name => (engine.answer name).granted engine.timeout
    overrides := [] }

namespace Engine

variable (engine : Engine) (name : String)

private theorem le_of_wait? {limit wait : Nat} {answer : Answer}
    (waits : answer.wait? limit = some wait) : wait ≤ limit := by
  cases answer with
  | atOnce => cases waits
  | after delay =>
      obtain rfl := Option.some.inj waits
      exact Nat.min_le_right ..
  | silence =>
      obtain rfl := Option.some.inj waits
      exact Nat.le_refl _

theorem wait?_granting :
    engine.granting.wait? name = (engine.answer name).wait? engine.timeout := by
  change ((engine.answer name).granted engine.timeout).wait? engine.timeout = _
  unfold Answer.granted
  cases waits : (engine.answer name).wait? engine.timeout with
  | none => rfl
  | some wait => exact congrArg some (Nat.min_eq_left (le_of_wait? waits))

theorem outcome_granting : ∃ ips, engine.granting.outcome name = .ok ips := by
  change ∃ ips, ((engine.answer name).granted engine.timeout).outcome engine.timeout = .ok ips
  unfold Answer.granted
  cases waits : (engine.answer name).wait? engine.timeout with
  | none => exact ⟨_, rfl⟩
  | some wait => exact ⟨_, if_pos (le_of_wait? waits)⟩

theorem ofHost_granting (scope : Scope) (name : String) :
    ∃ ips, Expansion.ofHost engine.granting scope name = .host name ips := by
  obtain ⟨ips, found⟩ := engine.outcome_granting name
  unfold Expansion.ofHost
  rw [found]
  exact ⟨ips, rfl⟩

theorem answered_granting (scope : Scope) :
    ∃ atoms, Task.answered engine.granting scope name = .ended (.ok atoms) := by
  obtain ⟨ips, found⟩ := engine.outcome_granting name
  unfold Task.answered
  rw [found]
  exact ⟨_, rfl⟩

theorem isTrace_answerRemark (scope : Scope) :
    (Task.answerRemark engine.granting scope name).isTrace = true := by
  obtain ⟨ips, found⟩ := engine.outcome_granting name
  unfold Task.answerRemark
  rw [found]
  rfl

end Engine

theorem Progress.say_trace {p : Progress} {message : Message} (quiet : p.tracing = false)
    (isTrace : message.isTrace = true) : p.say message = p := by
  obtain ⟨board, rota, allowance, tracing, log⟩ := p
  obtain rfl : tracing = false := quiet
  unfold say
  rw [isTrace]
  rfl

theorem Stage.tracing_visit (name : String) (wait? : Option Nat) (bell : Bell) (stage : Stage)
    (p : Progress) : ((stage.visit name wait? bell).run p).2.tracing = p.tracing := by
  have acts : ∀ {x y : Stage × Progress},
      Relation.ReflTransGen (Stage.Act name (wait?.getD 0) bell) x y →
        y.2.tracing = x.2.tracing := by
    intro x y acts
    induction acts with
    | refl => rfl
    | tail _ act ih => exact (by cases act <;> rfl : _ = _).trans ih
  have comesTo := comesTo_visit name wait? bell stage p
  generalize (stage.visit name wait? bell).run p = visited at comesTo
  obtain ⟨_ | stage', q⟩ := visited
  · obtain ⟨ends, alarm, q, made, -, rfl⟩ := comesTo
    exact acts made
  · exact acts comesTo

open AddressExpansion.Task (Passage Sound VisitCases Steps Rested)

namespace Slot

def task (engine : Engine) : Slot → Task
  | looking name stage => .lookup (.root 0) name stage
  | ended name _ => Task.answered engine.granting (.root 0) name

variable {engine : Engine} {bell : Bell} {slot slot' : Slot} {p p' : Progress}

theorem task_cases (engine : Engine) (slot : Slot) :
    (∃ name stage, slot = .looking name stage) ∨
      slot.isOver = true ∧ ∃ atoms, slot.task engine = .ended (.ok atoms) := by
  cases slot with
  | looking name stage => exact .inl ⟨name, stage, rfl⟩
  | ended name => exact .inr ⟨rfl, engine.answered_granting name (.root 0)⟩

theorem isOver_task (engine : Engine) (slot : Slot) : (slot.task engine).isOver = slot.isOver := by
  rcases slot.task_cases engine with ⟨name, stage, rfl⟩ | ⟨finished, atoms, same⟩
  · rfl
  · rw [same, finished]
    rfl

theorem failure?_task (engine : Engine) (slot : Slot) : (slot.task engine).failure? = none := by
  rcases slot.task_cases engine with ⟨name, stage, rfl⟩ | ⟨-, atoms, same⟩
  · rfl
  · rw [same]
    rfl

theorem unsettled_task (engine : Engine) (slot : Slot) : (slot.task engine).Unsettled := by
  rcases slot.task_cases engine with ⟨name, stage, rfl⟩ | ⟨-, atoms, same⟩
  · exact .lookup
  · rw [same]
    exact .ended

theorem sound_visit {P : Passage} (cases : VisitCases engine.granting P)
    (visited : (slot.visit engine bell).run p = (slot', p')) (quiet : p.tracing = false) :
    Sound engine.granting P bell (slot.task engine) p (slot'.task engine) p' ∧
      p'.tracing = false := by
  cases slot with
  | ended name time =>
      obtain ⟨rfl, rfl⟩ := Prod.mk.inj visited
      obtain ⟨atoms, same⟩ := engine.answered_granting name (.root 0)
      rw [task, same]
      exact ⟨⟨.refl _, cases.ended⟩, quiet⟩
  | looking name stage =>
      rw [run_visit_looking, ← engine.wait?_granting name] at visited
      have kept := stage.tracing_visit name (engine.granting.wait? name) bell p
      cases looked : (stage.visit name (engine.granting.wait? name) bell).run p with
      | mk stage? q =>
          rw [looked] at visited kept
          have quiet' : q.tracing = false := kept.trans quiet
          cases stage? with
          | some stage' =>
              obtain ⟨rfl, rfl⟩ := Prod.mk.inj visited
              exact ⟨⟨Task.steps_stage looked, cases.stay looked⟩, quiet'⟩
          | none =>
              obtain ⟨rfl, rfl⟩ := Prod.mk.inj visited
              have silent := Progress.say_trace quiet' (engine.isTrace_answerRemark name (.root 0))
              obtain ⟨atoms, same⟩ := engine.answered_granting name (.root 0)
              have steps : Steps engine.granting bell (.lookup (.root 0) name stage, p)
                  (Task.answered engine.granting (.root 0) name, q.say _) :=
                Task.steps_answered looked
              have ends : P bell (.lookup (.root 0) name stage) p
                  (Task.answered engine.granting (.root 0) name) q := by
                refine cases.answer looked ?_
                rw [silent, same]
                exact cases.ended
              rw [silent] at steps
              exact ⟨⟨steps, ends⟩, quiet'⟩

end Slot

namespace Batch

/-- A batch as the list of its lookups. -/
def task (engine : Engine) (roster? : Option Nat) (slots : List Slot) : Task :=
  match roster? with
  | none => .join (slots.map (Slot.task engine))
  | some roster => .crowd roster (slots.map (Slot.task engine))

variable {engine : Engine} {manner : Manner} {roster? : Option Nat} {slots slots' : List Slot}
  {lines : Nat} {p p' : Progress}

theorem isSome_outcomeInOrder? (engine : Engine) (slots : List Slot) :
    (Task.outcomeInOrder? (slots.map (Slot.task engine))).isSome = isOver slots := by
  induction slots with
  | nil => rfl
  | cons slot slots ih =>
      rcases slot.task_cases engine with ⟨name, stage, rfl⟩ | ⟨finished, atoms, same⟩
      · rfl
      · rw [List.map_cons, same, Task.outcomeInOrder?, Option.isSome_map, ih]
        simp [isOver, finished]

theorem going_task (going : isOver slots = false) :
    Task.outcomeTogether? (slots.map (Slot.task engine)) = none := by
  have none : (slots.map (Slot.task engine)).findSome? Task.failure? = none := by
    simp [List.findSome?_eq_none_iff, Slot.failure?_task]
  have inOrder := isSome_outcomeInOrder? engine slots
  rw [going] at inOrder
  unfold Task.outcomeTogether?
  rw [none]
  simpa using inOrder

theorem unsettled_task (roster? : Option Nat) (going : isOver slots = false) :
    (task engine roster? slots).Unsettled := by
  have inside : ∀ part ∈ slots.map (Slot.task engine), part.Unsettled := by
    simp [Slot.unsettled_task]
  cases roster? with
  | none => exact .join (going_task going) inside
  | some => exact .crowd (Task.outcomeInOrder?_of_together (going_task going)) inside

theorem outcome?_task (engine : Engine) (roster? : Option Nat) (slots : List Slot) :
    (task engine roster? slots).outcome? = none := by
  cases roster? <;> rfl

/-! ## Rounds -/

section Visits

variable {P : Passage} (cases : VisitCases engine.granting P)
include cases

private theorem visited_each (slots : List Slot) (quiet : p.tracing = false) :
    Task.VisitedEach (Sound engine.granting P) .main (slots.map (Slot.task engine)) p
        (((slots.mapM (Slot.visit engine .main)).run p).1.map (Slot.task engine))
        ((slots.mapM (Slot.visit engine .main)).run p).2 ∧
      ((slots.mapM (Slot.visit engine .main)).run p).2.tracing = false := by
  induction slots generalizing p with
  | nil => exact ⟨.nil, quiet⟩
  | cons slot slots ih =>
      rw [List.mapM_cons, Work.run_bind]
      cases visited : (slot.visit engine .main).run p with
      | mk slot' q =>
          obtain ⟨first, quiet'⟩ := Slot.sound_visit cases visited quiet
          obtain ⟨rest, last⟩ := ih quiet'
          exact ⟨.next first (slot'.failure?_task engine) rest, last⟩

private theorem visited_crowd (manner : Manner) (roster : Nat) (slots : List Slot)
    (quiet : p.tracing = false) (inner : Task.Visit) :
    Crowd.Attended (Sound engine.granting P) (Task.crowdOf inner .main roster) (slots.length + 1)
        (slots.map (Slot.task engine)) p
        (((visit engine manner (some roster) slots).run p).1.map (Slot.task engine))
        ((visit engine manner (some roster) slots).run p).2 ∧
      ((visit engine manner (some roster) slots).run p).2.tracing = false := by
  have pictures : Crowd.Pictures (Slot.task engine) (crowd engine roster)
      (Task.crowdOf inner .main roster) :=
    ⟨rfl, rfl, Slot.isOver_task engine, isSome_outcomeInOrder? engine⟩
  refine Crowd.Attended.map (Q := fun _ => True) (I := fun p => p.tracing = false) pictures
    (fun _ => id) ?_ (attended_visit engine manner roster slots p) (fun _ _ => trivial) quiet
  intro bell slot q slot' q' _ quiet visited
  exact (Slot.sound_visit cases visited quiet).imp_right (⟨trivial, ·⟩)

theorem sound_round (quiet : p.tracing = false)
    (going : isOver ((activity engine manner roster?).round slots p).1 = false) :
    Sound engine.granting P .main (task engine roster? slots) p.begun
        (task engine roster? ((activity engine manner roster?).round slots p).1)
        ((activity engine manner roster?).round slots p).2 ∧
      ((activity engine manner roster?).round slots p).2.tracing = false := by
  have quiet : p.begun.tracing = false := quiet
  unfold Activity.round at going ⊢
  have open' : Task.outcomeTogether? ((((activity engine manner roster?).visit slots).run
    p.begun).1.map (Slot.task engine)) = none := going_task going
  cases roster? with
  | none =>
      obtain ⟨each, quiet'⟩ := visited_each cases slots quiet
      exact ⟨⟨each.steps Task.sound_stepwise [], cases.join open' each⟩, quiet'⟩
  | some roster =>
      obtain ⟨attended, quiet'⟩ :=
        visited_crowd cases manner roster slots quiet (Task.visit engine.granting 0)
      have attended' := attended
      rw [← List.length_map (f := Slot.task engine)] at attended'
      exact ⟨⟨Task.steps_attended Task.sound_stepwise attended,
        cases.crowd (Task.outcomeInOrder?_of_together open') attended'⟩, quiet'⟩

end Visits

/-- What holds of a batch between rounds while it is not over. -/
structure Rests (engine : Engine) (lines : Nat) (roster? : Option Nat) (slots : List Slot)
    (p : Progress) : Prop where
  rested : Rested engine.granting 2 lines (task engine roster? slots) p
  quiet : p.tracing = false

theorem Rests.passes (rests : Rests engine lines roster? slots p)
    (going : isOver ((activity engine manner roster?).round slots p).1 = false) :
    Task.Passes engine.granting lines (task engine roster? slots) p
      (task engine roster? ((activity engine manner roster?).round slots p).1)
      ((activity engine manner roster?).round slots p).2 := by
  obtain ⟨⟨steps, calms⟩, -⟩ :=
    sound_round (Task.calm_cases engine.granting lines) rests.quiet going
  obtain ⟨⟨-, advances⟩, -⟩ :=
    sound_round (Task.advance_cases engine.granting lines) rests.quiet going
  exact ⟨steps, calms, advances⟩

/-- A batch has the sites of the list of its lookups, apart from the roster. -/
theorem sites_task (engine : Engine) (roster? : Option Nat) (slots : List Slot) :
    (task engine roster? slots).sites .main =
      roster?.toList.map (.crowd .main) ++ sites roster? slots := by
  have here : ∀ (slot : Slot) (bell : Bell), (slot.task engine).sites bell = slot.sites bell := by
    intro slot bell
    rcases slot.task_cases engine with ⟨name, stage, rfl⟩ | ⟨finished, atoms, same⟩
    · rfl
    · rw [same]
      cases slot with
      | looking => cases finished
      | ended => rfl
  cases roster? with
  | none =>
      change Task.sitesOfJoin .main (slots.map (Slot.task engine)) =
        (slots.mapIdx fun _ slot => slot.sites .main).flatten
      induction slots with
      | nil => rfl
      | cons slot slots ih =>
          rw [List.mapIdx_cons, List.flatten_cons, List.map_cons, Task.sitesOfJoin, ih, here]
  | some roster =>
      have from' : ∀ first, Task.sitesOfCrowd roster .main first (slots.map (Slot.task engine)) =
          (slots.mapIdx fun index slot =>
            slot.sites (.part roster (index + first) .main)).flatten := by
        induction slots with
        | nil => exact fun _ => rfl
        | cons slot slots ih =>
            intro first
            simp only [List.mapIdx_cons, List.flatten_cons, List.map_cons, Task.sitesOfCrowd, here,
              Nat.zero_add, ih (first + 1), Nat.add_assoc, Nat.add_comm 1 first]
      exact congrArg (Site.crowd .main roster :: ·) (from' 0)

theorem alarms_task (engine : Engine) (manner : Manner) (roster? : Option Nat) (slots : List Slot) :
    (activity engine manner roster?).alarms slots = (task engine roster? slots).alarms .main := by
  have here : ∀ (slot : Slot) (bell : Bell),
      slot.alarms bell = (slot.sites bell).flatMap Site.alarms := by
    rintro (_ | _) bell <;> simp [Slot.alarms, Slot.sites, Site.alarms]
  have rosters : (roster?.toList.map (Site.crowd .main)).flatMap Site.alarms = [] := by
    cases roster? <;> rfl
  have apart : ∀ bells : Nat → Bell,
      (slots.mapIdx fun index slot => slot.alarms (bells index)).flatten =
        (slots.mapIdx fun index slot => slot.sites (bells index)).flatten.flatMap Site.alarms := by
    induction slots with
    | nil => exact fun _ => rfl
    | cons slot slots ih =>
        intro bells
        rw [List.mapIdx_cons, List.mapIdx_cons, List.flatten_cons, List.flatten_cons,
          List.flatMap_append, here, ih fun index => bells (index + 1)]
  rw [Task.alarms_eq_flatMap, sites_task, List.flatMap_append, rosters, List.nil_append]
  exact apart (bell roster?)

/-- A batch is pictured by the list of its lookups. -/
theorem pictured (engine : Engine) (manner : Manner) (roster? : Option Nat) (lines : Nat) :
    (activity engine manner roster?).Pictured engine.granting 2 lines (task engine roster?)
      (Rests engine lines roster?) where
  rested := Rests.rested
  alarms := alarms_task engine manner roster?
  passes := fun rests going => rests.passes going
  visited := by
    intro slots p rests going
    have passes := rests.passes going
    refine ⟨rests.rested.passed passes (unsettled_task roster? going) (outcome?_task ..), ?_⟩
    exact (sound_round (Task.calm_cases engine.granting lines) rests.quiet going).2
  advanced := by
    intro slots p time rests silent next
    rw [alarms_task] at next ⊢
    exact ⟨(rests.rested.advanced silent next).1, rests.quiet⟩

end Batch

end AddressExpansion
