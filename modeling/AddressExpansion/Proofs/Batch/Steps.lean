import AddressExpansion.Batch
import AddressExpansion.Proofs.Crowd
import AddressExpansion.Proofs.Journal
import AddressExpansion.Proofs.Stage

/-! # Steps of a batch

What a round does to a batch is a sequence of steps (`Batch.steps_round`), and what a step does to
the switchboard is a sequence of deals (`Batch.Step.deals`). No lookup of a batch is ever given up.
-/

namespace AddressExpansion

open Relation

namespace Slot

/-- The site of a name of a batch, in no particular scope. -/
def sites (bell : Bell) : Slot → List Site
  | looking name stage => [.lookup bell (.root 0) name stage]
  | ended .. => []

/-- What a name of a batch may do that leaves a bell. -/
inductive Act (engine : Engine) (bell : Bell) : Slot × Progress → Slot × Progress → Prop
  | go {name stage stage' p p'}
      (act : Stage.Act name (engine.duration name) bell (stage, p) (stage', p')) :
      Act engine bell (looking name stage, p) (looking name stage', p')
  | hangUp {name ends alarm p} (due : ends ≤ p.board.now) :
      Act engine bell (looking name (.underway ends alarm), p)
        (ended name p.board.now, p.handOver Switchboard.hangUp)

variable {engine : Engine} {bell : Bell} {x y : Slot × Progress} {p : Progress}

theorem run_visit_looking (engine : Engine) (bell : Bell) (name : String) (stage : Stage)
    (p : Progress) :
    ((looking name stage).visit engine bell).run p =
      match (stage.visit name ((engine.answer name).wait? engine.timeout) bell).run p with
      | (some stage', q) => (looking name stage', q)
      | (none, q) => (ended name q.board.now, q) := by
  unfold visit
  rw [Work.run_bind]
  generalize (stage.visit name ((engine.answer name).wait? engine.timeout) bell).run p = visited
  obtain ⟨_ | _, q⟩ := visited <;> rfl

theorem acts_visit (engine : Engine) (bell : Bell) (slot : Slot) (p : Progress) :
    ReflTransGen (Act engine bell) (slot, p) ((slot.visit engine bell).run p) := by
  cases slot with
  | ended name time => exact .refl
  | looking name stage =>
      have comesTo :=
        Stage.comesTo_visit name ((engine.answer name).wait? engine.timeout) bell stage p
      rw [run_visit_looking]
      generalize (stage.visit name ((engine.answer name).wait? engine.timeout) bell).run p = visited
        at comesTo
      have go : ∀ {x y}, ReflTransGen (Stage.Act name (engine.duration name) bell) x y →
          ReflTransGen (Act engine bell) (looking name x.1, x.2) (looking name y.1, y.2) :=
        fun acts => ReflTransGen.lift (fun x : Stage × Progress => (looking name x.1, x.2))
          (fun _ _ act => .go act) _ _ acts
      obtain ⟨_ | stage', q⟩ := visited
      · obtain ⟨ends, alarm, q, acts, due, rfl⟩ := comesTo
        have time : (q.handOver Switchboard.hangUp).board.now = q.board.now :=
          (Switchboard.startsNone_hangUp q.board).now
        have hangsUp : Act engine bell (looking name (.underway ends alarm), q)
            (ended name q.board.now, q.handOver Switchboard.hangUp) := .hangUp due
        rw [← time] at hangsUp
        exact .tail (go acts) hangsUp
      · exact go comesTo

private theorem sites_answered (engine : Engine) (scope : Scope) (name : String) (bell : Bell) :
    (Task.answered (engine.environment []) scope name).sites bell = [] := by
  unfold Task.answered
  cases (engine.environment []).outcome name <;> rfl

theorem Act.deals {journal : List Request} {front back : List Site} (act : Act engine bell x y)
    (tells : Tells engine journal (front ++ x.1.sites bell ++ back)) :
    ∃ journal', Deals engine False (journal, x.2.board) (journal', y.2.board) ∧
      Tells engine journal' (front ++ y.1.sites bell ++ back) := by
  have deals : ∀ {old new : List Site} {p q : Progress},
      Task.Change (engine.environment []) old p new q → Tells engine journal (front ++ old ++ back) →
        ∃ journal', Deals engine False (journal, p.board) (journal', q.board) ∧
          Tells engine journal' (front ++ new ++ back) := fun change tells => change.deals tells
  cases act with
  | go act =>
      cases act with
      | spend | putOff => exact ⟨journal, .refl, tells⟩
      | draw busy => exact deals (.draw busy) tells
      | take idle => exact deals (.take idle) tells
      | claim served => exact deals (.claim served) tells
      | setAlarm early => exact deals (.setAlarm early) tells
  | @hangUp name _ _ _ due =>
      have ends := deals (.hangUp due) tells
      rwa [sites_answered] at ends

end Slot

namespace Batch

def sites (roster? : Option Nat) (slots : List Slot) : List Site :=
  (slots.mapIdx fun index slot => slot.sites (bell roster? index)).flatten

/-- One step of a batch: a name acts, or bells and the roster change. -/
inductive Step (engine : Engine) (roster? : Option Nat) :
    List Slot × Progress → List Slot × Progress → Prop
  | rota {slots p} (f : Rota → Rota) : Step engine roster? (slots, p) (slots, p.onRota f)
  | act {front slot slot' back p p'}
      (act : Slot.Act engine (bell roster? front.length) (slot, p) (slot', p')) :
      Step engine roster? (front ++ slot :: back, p) (front ++ slot' :: back, p')

variable {engine : Engine} {roster? : Option Nat} {x y : List Slot × Progress} {slots : List Slot}
  {p : Progress}

private theorem steps_acts {front back : List Slot} {slot slot' : Slot} {p' : Progress}
    (acts : ReflTransGen (Slot.Act engine (bell roster? front.length)) (slot, p) (slot', p')) :
    ReflTransGen (Step engine roster?) (front ++ slot :: back, p) (front ++ slot' :: back, p') :=
  ReflTransGen.lift (fun x : Slot × Progress => (front ++ x.1 :: back, x.2)) (fun _ _ act => .act act)
    _ _ acts

private theorem leads_steps (engine : Engine) (roster : Nat) :
    Crowd.Leads (Crowd.passage (Slot.visit engine)) (crowd engine roster)
      (ReflTransGen (Step engine (some roster))) where
  ring := .single (.rota _)
  take := .single (.rota _)
  arm := .single (.rota _)
  visit := by
    intro slots index slot slot' p' p located visited
    obtain ⟨front, back, rfl, rfl⟩ : ∃ front back, slots = front ++ slot :: back ∧
        front.length = index := by
      obtain ⟨inside, rfl⟩ := List.getElem?_eq_some_iff.mp located
      refine ⟨slots.take index, slots.drop (index + 1), ?_, by simp; omega⟩
      rw [List.getElem_cons_drop, List.take_append_drop]
    have acts := Slot.acts_visit engine (.part roster front.length .main) slot p
    have visited : (slot.visit engine (.part roster front.length .main)).run p = (slot', p') :=
      visited
    rw [visited] at acts
    rw [List.set_append_right _ _ (Nat.le_refl _), Nat.sub_self, List.set_cons_zero]
    exact steps_acts acts

/-- In either manner a round attends to the names as a crowd. -/
theorem attended_visit (engine : Engine) (manner : Manner) (roster : Nat) (slots : List Slot)
    (p : Progress) :
    Crowd.Attended (Crowd.passage (Slot.visit engine)) (crowd engine roster) (slots.length + 1) slots
      p ((visit engine manner (some roster) slots).run p).1
      ((visit engine manner (some roster) slots).run p).2 := by
  cases manner with
  | together => exact Crowd.attended (crowd engine roster) _ slots p
  | oneByOne => exact Crowd.attended_oneByOne (crowd engine roster) _ slots p

private theorem steps_each (engine : Engine) (front slots : List Slot) (p : Progress) :
    ReflTransGen (Step engine none) (front ++ slots, p)
      (front ++ ((slots.mapM (Slot.visit engine .main)).run p).1,
        ((slots.mapM (Slot.visit engine .main)).run p).2) := by
  induction slots generalizing front p with
  | nil => exact .refl
  | cons slot slots ih =>
      have acts := Slot.acts_visit engine .main slot p
      rw [List.mapM_cons, Work.run_bind]
      generalize (slot.visit engine .main).run p = visited at acts
      have first : ReflTransGen (Step engine none) (front ++ slot :: slots, p)
          (front ++ visited.1 :: slots, visited.2) := steps_acts acts
      have rest := ih (front ++ [visited.1]) visited.2
      simp only [List.append_assoc, List.singleton_append] at rest
      exact first.trans rest

/-- A round takes a batch on by steps. -/
theorem steps_round (engine : Engine) (manner : Manner) (roster? : Option Nat) (slots : List Slot)
    (p : Progress) :
    ReflTransGen (Step engine roster?) (slots, p.begun)
      ((activity engine manner roster?).round slots p) := by
  cases roster? with
  | none => exact steps_each engine [] slots p.begun
  | some roster =>
      have attended := attended_visit engine manner roster slots p.begun
      have steps := (leads_steps engine roster).attended attended
      rwa [reflTransGen_eq_self] at steps

theorem mem_sites {site : Site} :
    site ∈ sites roster? slots ↔
      ∃ (index : Nat) (slot : Slot), slots[index]? = some slot ∧
        site ∈ slot.sites (bell roster? index) := by
  simp only [sites, List.mem_flatten, List.mem_mapIdx]
  constructor
  · rintro ⟨_, ⟨index, inside, rfl⟩, there⟩
    exact ⟨index, _, List.getElem?_eq_getElem inside, there⟩
  · rintro ⟨index, slot, located, there⟩
    obtain ⟨inside, rfl⟩ := List.getElem?_eq_some_iff.mp located
    exact ⟨_, ⟨index, inside, rfl⟩, there⟩

theorem sites_append_cons (roster? : Option Nat) (front : List Slot) (slot : Slot)
    (back : List Slot) :
    sites roster? (front ++ slot :: back) =
      sites roster? front ++ slot.sites (bell roster? front.length) ++
        (back.mapIdx fun index slot => slot.sites (bell roster? (index + 1 + front.length))).flatten := by
  simp only [sites, List.mapIdx_append, List.mapIdx_cons, List.flatten_append, List.flatten_cons,
    Nat.zero_add, List.append_assoc]

theorem Step.deals {journal : List Request} (step : Step engine roster? x y)
    (tells : Tells engine journal (sites roster? x.1)) :
    ∃ journal', Deals engine False (journal, x.2.board) (journal', y.2.board) ∧
      Tells engine journal' (sites roster? y.1) := by
  cases step with
  | rota => exact ⟨journal, .refl, tells⟩
  | act act =>
      simp only [sites_append_cons] at tells ⊢
      exact act.deals tells

end Batch

end AddressExpansion
