import Mathlib.Data.List.TakeDrop
import Mathlib.Logic.Relation
import Mathlib.Tactic.Common
import AddressExpansion.Proofs.Work

/-! # Steps of a task

Whatever a visit does, it does in steps: a term is opened, a lookup takes a line or calls or ends, a
bell rings, a finished part is put together, a settled list gives up its parts. A step says nothing
about the order in which visits go to the parts of a list, so what every step keeps is kept in any
order.
-/

namespace AddressExpansion

namespace Task

theorem induct {P : Task → Prop} (fresh : ∀ scope term, P (.fresh scope term))
    (lookup : ∀ scope name stage, P (.lookup scope name stage))
    (gather : ∀ scope gathering body, P body → P (.gather scope gathering body))
    (join : ∀ parts, (∀ part ∈ parts, P part) → P (.join parts))
    (crowd : ∀ roster parts, (∀ part ∈ parts, P part) → P (.crowd roster parts))
    (ended : ∀ outcome, P (.ended outcome)) (task : Task) : P task := by
  refine @Task.rec P (fun parts => ∀ part ∈ parts, P part)
    fresh lookup gather join crowd ended ?_ ?_ task
  · simp
  · intro head tail ihHead ihTail part member
    rcases List.mem_cons.mp member with rfl | member
    · exact ihHead
    · exact ihTail part member

theorem forall_mem_exchange {P : Task → Prop} {front back : List Task} {part part' : Task}
    (all : ∀ other ∈ front ++ part :: back, P other) (here : P part') :
    ∀ other ∈ front ++ part' :: back, P other := by
  rw [List.forall_mem_append, List.forall_mem_cons] at all ⊢
  exact ⟨all.1, here, all.2.2⟩

/-- The definition of a name that is opened in a scope, to be used in some way. -/
def inDefinition (scope : Scope) (name : String) (definition : Except Failure Term)
    (use : Task → Task) : Task :=
  match scope.enter? name with
  | .error failure => .ended (.error failure)
  | .ok within =>
    match definition with
    | .error failure => .ended (.error failure)
    | .ok term => use (.fresh within term)

/-- What a token becomes when it is looked at. -/
def opened (env : Environment) (scope : Scope) (token : String) : Task :=
  let name := Text.trim token
  match env.meaning name with
  | .literal address => .ended (.ok [.single address name])
  | .group members =>
    inDefinition scope name (.ok (.list (members.map .literal))) (.gather scope (.group name))
  | .var value => inDefinition scope name (scope.readValue name value) id
  | .host => .lookup scope name .idle

def answered (env : Environment) (scope : Scope) (name : String) : Task :=
  match env.outcome name with
  | .ok ips => .ended (.ok (Atom.ofAddresses? (ips.map .host) (some name)).toList)
  | .error reason =>
    match env.override? name with
    | none => .ended (.error (.resolution name reason))
    | some value =>
      inDefinition scope name (scope.readValue name value) (.gather scope (.override name))

/-- What is reported when a lookup ends. -/
def answerRemark (env : Environment) (scope : Scope) (name : String) : Message :=
  match env.outcome name with
  | .ok ips => .traced scope.item scope.depth (.answered name ips)
  | .error reason =>
    let failure := Failure.resolution name reason
    match env.override? name with
    | none => .traced scope.item scope.depth (.unresolvable name failure)
    | some value => .rescued failure value

/-- What a task that leaves a bell may do itself, not through a part of it. -/
inductive Act (env : Environment) : Bell → Task → Progress → Task → Progress → Prop
  /-- A trace. -/
  | trace {bell task p} (message : Message) (isTrace : message.isTrace) :
      Act env bell task p task (p.say message)
  /-- An action. -/
  | spend {bell task p} : Act env bell task p task p.spend
  | token {bell scope token p} :
      Act env bell (.fresh scope (.literal token)) p (opened env scope token) p
  | record {bell scope ip comment p} :
      Act env bell (.fresh scope (.record ip comment)) p
        (.gather scope (.record comment) (.fresh scope ip)) p
  | openJoin {bell scope items p} (few : items.length ≤ joinLimit) :
      Act env bell (.fresh scope (.list items)) p (.join (items.map (.fresh scope))) p
  | openCrowd {bell scope items p} (many : joinLimit < items.length) :
      Act env bell (.fresh scope (.list items)) p
        (.crowd p.rota.rosters.size (items.map (.fresh scope)))
        (p.onRota (·.add (.ofParts items.length)))
  /-- A lookup is put off until the round is over. -/
  | putOff {bell scope name stage p} :
      Act env bell (.lookup scope name stage) p (.lookup scope name stage)
        (p.onRota (·.putOff bell))
  | draw {bell scope name p} (busy : p.board.free = 0) :
      Act env bell (.lookup scope name .idle) p (.lookup scope name (.queued p.board.drawn))
        (p.onBoard (·.draw bell))
  | take {bell scope name p} (idle : p.board.free ≠ 0) :
      Act env bell (.lookup scope name .idle) p
        (.lookup scope name (.underway (p.board.now + env.duration name) none))
        ((p.onBoard Switchboard.take).onBoard (·.call name))
  | claim {bell scope name ticket p} (served : ticket ∈ p.board.served) :
      Act env bell (.lookup scope name (.queued ticket)) p
        (.lookup scope name (.underway (p.board.now + env.duration name) none))
        ((p.onBoard (·.claim ticket)).onBoard (·.call name))
  | setAlarm {bell scope name ends p} (early : p.board.now < ends) :
      Act env bell (.lookup scope name (.underway ends none)) p
        (.lookup scope name (.underway ends (some p.board.alarms)))
        (p.onBoard fun board => { board with alarms := p.board.alarms + 1 })
  | hangUp {bell scope name ends alarm p} (due : ends ≤ p.board.now) :
      Act env bell (.lookup scope name (.underway ends alarm)) p (answered env scope name)
        ((p.handOver Switchboard.hangUp).say (answerRemark env scope name))
  | finish {bell scope gathering atoms p} :
      Act env bell (.gather scope gathering (.ended (.ok atoms))) p
        (.ended (gathering.gather atoms)) (p.sayAll (gathering.remarks scope atoms))
  | fail {bell scope gathering failure p} :
      Act env bell (.gather scope gathering (.ended (.error failure))) p
        (.ended (.error failure)) p
  | settleJoin {bell parts outcome p} (settled : outcomeTogether? parts = some outcome) :
      Act env bell (.join parts) p (.ended outcome) ((giveUpAll parts).run p).2
  | settleCrowd {bell roster parts outcome p} (settled : outcomeInOrder? parts = some outcome) :
      Act env bell (.crowd roster parts) p (.ended outcome)
        ((giveUpAll parts).run (p.onRota (·.update roster ({ · with armed := false })))).2
  /-- The roster of a crowd is armed, or parts are taken off it. -/
  | roster {bell id parts p} (f : Roster → Roster)
      (fewer : ∀ r, p.rota.rosters[id]? = some r → (f r).rung.Sublist r.rung) :
      Act env bell (.crowd id parts) p (.crowd id parts) (p.onRota (·.update id f))
  /-- A crowd rings its own bell. -/
  | ring {bell id parts p} :
      Act env bell (.crowd id parts) p (.crowd id parts) (p.onRota (·.ring bell))

/-- One step of a task that leaves a bell: it acts, or a part of it takes a step. -/
inductive Step (env : Environment) : Bell → Task → Progress → Task → Progress → Prop
  | act {bell task task' p p'} (act : Act env bell task p task' p') :
      Step env bell task p task' p'
  | inGather {bell scope gathering body body' p p'} (inner : Step env bell body p body' p') :
      Step env bell (.gather scope gathering body) p (.gather scope gathering body') p'
  | inJoin {bell front part part' back p p'} (inner : Step env bell part p part' p') :
      Step env bell (.join (front ++ part :: back)) p (.join (front ++ part' :: back)) p'
  | inCrowd {bell roster front part part' back p p'}
      (inner : Step env (.part roster front.length bell) part p part' p') :
      Step env bell (.crowd roster (front ++ part :: back)) p
        (.crowd roster (front ++ part' :: back)) p'

def Steps (env : Environment) (bell : Bell) : Task × Progress → Task × Progress → Prop :=
  Relation.ReflTransGen fun x y => Step env bell x.1 x.2 y.1 y.2

namespace Steps

variable {env : Environment} {bell : Bell}

theorem refl (x : Task × Progress) : Steps env bell x x :=
  Relation.ReflTransGen.refl

theorem trans {x y z : Task × Progress} (first : Steps env bell x y) (second : Steps env bell y z) :
    Steps env bell x z :=
  Relation.ReflTransGen.trans first second

theorem one {task task' : Task} {p p' : Progress} (act : Act env bell task p task' p') :
    Steps env bell (task, p) (task', p') :=
  Relation.ReflTransGen.single (Step.act act)

theorem cons {task task' : Task} {p p' : Progress} {z : Task × Progress}
    (act : Act env bell task p task' p') (rest : Steps env bell (task', p') z) :
    Steps env bell (task, p) z :=
  Relation.ReflTransGen.head (Step.act act) rest

theorem sayAll {task : Task} {p : Progress} (messages : List Message)
    (traces : ∀ message ∈ messages, message.isTrace) :
    Steps env bell (task, p) (task, p.sayAll messages) := by
  induction messages generalizing p with
  | nil => exact .refl _
  | cons message messages ih =>
      exact .cons (.trace message (traces message (by simp)))
        (ih fun message member => traces message (by simp [member]))

theorem keeps {P : Task → Progress → Prop}
    (step : ∀ {task task' p p'}, Step env bell task p task' p' → P task p → P task' p')
    {x y : Task × Progress} (steps : Steps env bell x y) (start : P x.1 x.2) : P y.1 y.2 := by
  induction steps with
  | refl => exact start
  | tail _ last ih => exact step last ih

theorem inGather {body body' : Task} {p p' : Progress} (scope : Scope) (gathering : Gathering)
    (inner : Steps env bell (body, p) (body', p')) :
    Steps env bell (.gather scope gathering body, p) (.gather scope gathering body', p') :=
  Relation.ReflTransGen.lift (fun x : Task × Progress => (Task.gather scope gathering x.1, x.2))
    (fun _ _ step => Step.inGather step) _ _ inner

theorem inJoin {part part' : Task} {p p' : Progress} (front back : List Task)
    (inner : Steps env bell (part, p) (part', p')) :
    Steps env bell (.join (front ++ part :: back), p) (.join (front ++ part' :: back), p') :=
  Relation.ReflTransGen.lift (fun x : Task × Progress => (Task.join (front ++ x.1 :: back), x.2))
    (fun _ _ step => Step.inJoin step) _ _ inner

theorem inCrowd {roster : Nat} {part part' : Task} {p p' : Progress} {parts : List Task}
    {index : Nat} (inner : Steps env (.part roster index bell) (part, p) (part', p'))
    (located : parts[index]? = some part) :
    Steps env bell (.crowd roster parts, p) (.crowd roster (parts.set index part'), p') := by
  obtain ⟨inside, rfl⟩ := List.getElem?_eq_some_iff.mp located
  have length : (parts.take index).length = index := by
    simp only [List.length_take]
    omega
  have lifted : Steps env bell
      (.crowd roster (parts.take index ++ parts[index] :: parts.drop (index + 1)), p)
      (.crowd roster (parts.take index ++ part' :: parts.drop (index + 1)), p') :=
    Relation.ReflTransGen.lift
      (fun x : Task × Progress =>
        (Task.crowd roster (parts.take index ++ x.1 :: parts.drop (index + 1)), x.2))
      (fun _ _ step => Step.inCrowd (length.symm ▸ step)) _ _ inner
  rwa [List.getElem_cons_drop, List.take_append_drop,
    ← List.set_eq_take_append_cons_drop.trans (if_pos inside)] at lifted

end Steps

end Task

end AddressExpansion
