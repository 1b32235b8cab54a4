import AddressExpansion.Crowd
import AddressExpansion.Environment
import AddressExpansion.Stage

/-! # Tasks

A term that is being resolved is a task: a tree whose leaves are terms that nobody looked at yet,
lookups that have not ended, and what is over. A visit to a task takes it as far as it goes at this
time.

The parts of a list go on side by side. A few parts are a join: a visit goes through all of them
from left to right, and the first failure met gives up the others. Many parts are a crowd: a visit
goes to those whose bells rang, and the outcomes of the parts count from left to right, so that a
failure has to wait until every part before it is over.
-/

namespace AddressExpansion

/-- The largest number of parts that are not a crowd. -/
def joinLimit : Nat := 30

/-- Why the addresses of a term are put into one atom. -/
inductive Gathering where
  | record (comment : Option String)
  | group (name : String)
  | override (name : String)
  deriving Repr, DecidableEq, BEq

abbrev Outcome := Except Failure (List Atom)

inductive Task where
  /-- A term that was not visited yet. -/
  | fresh (scope : Scope) (term : Term)
  /-- The lookup of a name. -/
  | lookup (scope : Scope) (name : String) (stage : Stage)
  /-- A part whose addresses go into one atom. -/
  | gather (scope : Scope) (gathering : Gathering) (body : Task)
  /-- A few parts whose atoms follow one another. -/
  | join (parts : List Task)
  /-- Many parts whose atoms follow one another, with a roster. -/
  | crowd (roster : Nat) (parts : List Task)
  | ended (outcome : Outcome)
  deriving Repr, Inhabited

open Work

/-- Puts the addresses of a finished part into one atom. A record or a group may have none; an
    override must have one. -/
def Gathering.finish (gathering : Gathering) (scope : Scope) (atoms : List Atom) :
    Work Outcome := do
  match gathering with
  | .record comment =>
    let atom := Atom.gather? atoms comment
    report scope (.record comment atom)
    return .ok atom.toList
  | .group name =>
    let atom := Atom.gather? atoms (some name)
    if atom.isNone then say (.emptyGroup name)
    return .ok atom.toList
  | .override name =>
    match Atom.gather? atoms (some name) with
    | some atom => return .ok [atom]
    | none => return .error (.resolution name .emptyOverride)

namespace Task

def outcome? : Task → Option Outcome
  | ended outcome => some outcome
  | _ => none

def isOver (task : Task) : Bool :=
  task.outcome?.isSome

def failure? : Task → Option Failure
  | ended (.error failure) => some failure
  | _ => none

/-- What came of tasks whose outcomes count from left to right: all their atoms, or the first
    failure. It is known once every task before the failure is over. -/
def outcomeInOrder? : List Task → Option Outcome
  | [] => some (.ok [])
  | ended (.ok atoms) :: tasks => (outcomeInOrder? tasks).map (·.map (atoms ++ ·))
  | ended (.error failure) :: _ => some (.error failure)
  | _ :: _ => none

/-- What came of tasks of which any failure counts at once. -/
def outcomeTogether? (tasks : List Task) : Option Outcome :=
  match tasks.findSome? failure? with
  | some failure => some (.error failure)
  | none => outcomeInOrder? tasks

mutual

def giveUp : Task → Work Unit
  | .lookup _ _ stage => stage.giveUp
  | .gather _ _ body => giveUp body
  | .join parts => giveUpAll parts
  | .crowd roster parts => do
    Crowd.dismiss roster
    giveUpAll parts
  | .fresh .. | .ended _ => return

def giveUpAll : List Task → Work Unit
  | [] => return
  | task :: tasks => do
    giveUp task
    giveUpAll tasks

end

/-- A part to be gathered: finished at once if the part is over. -/
def gathered (scope : Scope) (gathering : Gathering) (body : Task) : Work Task := do
  match body.outcome? with
  | some (.ok atoms) => return .ended (← gathering.finish scope atoms)
  | some (.error failure) => return .ended (.error failure)
  | none => return .gather scope gathering body

/-- Visits tasks from left to right, up to the first that fails. -/
def visitEach (visit : Task → Work Task) : List Task → Work (List Task)
  | [] => return []
  | task :: tasks => do
    let task ← visit task
    if task.failure?.isSome then return task :: tasks
    return task :: (← visitEach visit tasks)

/-- How the parts of a task are visited, given the bell that they leave. -/
abbrev Visit := Bell → Task → Work Task

def visitJoin (inner : Visit) (bell : Bell) (parts : List Task) : Work Task := do
  let parts ← visitEach (inner bell) parts
  match outcomeTogether? parts with
  | none => return .join parts
  | some outcome =>
    giveUpAll parts
    return .ended outcome

def visitCrowd (inner : Visit) (bell : Bell) (roster : Nat) (parts : List Task) : Work Task := do
  let crowd : Crowd Task :=
    { id := roster, bell, visit := inner, isOver
      isSettled := fun parts => (outcomeInOrder? parts).isSome }
  let parts ← crowd.attend parts
  match outcomeInOrder? parts with
  | none => return .crowd roster parts
  | some outcome =>
    Crowd.dismiss roster
    giveUpAll parts
    return .ended outcome

/-- Parts that were not visited yet, as a join or a crowd. -/
def ofParts (parts : List Task) : Work Task := do
  if parts.length ≤ joinLimit then return .join parts
  return .crowd (← Crowd.enroll parts.length) parts

/-- What follows when the lookup of a name has ended: its addresses, or else its override. -/
def afterLookup (env : Environment) (inner : Visit) (bell : Bell) (scope : Scope)
    (name : String) : Work Task := do
  match env.outcome name with
  | .ok ips =>
    report scope (.answered name ips)
    return .ended (.ok (Atom.ofAddresses? (ips.map .host) (some name)).toList)
  | .error reason =>
    let failure := Failure.resolution name reason
    match env.override? name with
    | none =>
      report scope (.unresolvable name failure)
      return .ended (.error failure)
    | some value =>
      say (.rescued failure value)
      match do return (← scope.enter? name, ← scope.readValue name value) with
      | .error failure => return .ended (.error failure)
      | .ok (within, term) =>
        gathered scope (.override name) (← inner bell (.fresh within term))

def visitLookup (env : Environment) (inner : Visit) (bell : Bell) (scope : Scope)
    (name : String) (stage : Stage) : Work Task := do
  match ← stage.visit name (env.wait? name) bell with
  | some stage => return .lookup scope name stage
  | none => afterLookup env inner bell scope name

/-- Visits a token that was not visited yet. Blanks around it do not count. -/
def visitToken (env : Environment) (inner : Visit) (bell : Bell) (scope : Scope)
    (token : String) : Work Task := do
  let name := Text.trim token
  match env.meaning name with
  | .literal address =>
    report scope (.literal name address)
    return .ended (.ok [.single address name])
  | .group members =>
    match scope.enter? name with
    | .error failure => return .ended (.error failure)
    | .ok within =>
      report scope (.group name members)
      let body := .fresh within (.list (members.map .literal))
      gathered scope (.group name) (← inner bell body)
  | .var value =>
    match scope.enter? name with
    | .error failure => return .ended (.error failure)
    | .ok within =>
      report scope (.var name value)
      match scope.readValue name value with
      | .error failure => return .ended (.error failure)
      | .ok term => inner bell (.fresh within term)
  | .host =>
    report scope (.lookup name)
    visitLookup env inner bell scope name .idle

/-- Visits a task, given how the tasks inside it are visited. -/
def visitWith (env : Environment) (inner : Visit) : Visit
  | _, .ended outcome => return .ended outcome
  | bell, .fresh scope (.literal token) => visitToken env inner bell scope token
  | bell, .fresh scope (.record ip comment) => do
    gathered scope (.record comment) (← inner bell (.fresh scope ip))
  | bell, .fresh scope (.list items) => do
    inner bell (← ofParts (items.map (.fresh scope)))
  | bell, .lookup scope name stage => visitLookup env inner bell scope name stage
  | bell, .gather scope gathering body => do
    gathered scope gathering (← inner bell body)
  | bell, .join parts => visitJoin inner bell parts
  | bell, .crowd roster parts => visitCrowd inner bell roster parts

/-- Visits a task that is at most `levels` deep. -/
def visit (env : Environment) : (levels : Nat) → Visit
  | 0 => fun _ task => return task
  | levels + 1 => visitWith env (visit env levels)

mutual

/-- The alarms that are set in a task, given the bell that it leaves. -/
def alarms (bell : Bell) : Task → List Alarm
  | .lookup _ _ stage => stage.alarms bell
  | .gather _ _ body => alarms bell body
  | .join parts => alarmsOfJoin bell parts
  | .crowd roster parts => alarmsOfCrowd roster bell 0 parts
  | .fresh .. | .ended _ => []

def alarmsOfJoin (bell : Bell) : List Task → List Alarm
  | [] => []
  | task :: tasks => alarms bell task ++ alarmsOfJoin bell tasks

/-- The alarms that are set in the parts of a crowd, of which the first has this index. -/
def alarmsOfCrowd (roster : Nat) (bell : Bell) (index : Nat) : List Task → List Alarm
  | [] => []
  | task :: tasks =>
    alarms (.part roster index bell) task ++ alarmsOfCrowd roster bell (index + 1) tasks

end

/-- The items of an invocation, each in its own scope, of which the first has this index. -/
def freshItems (index : Nat) : List Term → List Task
  | [] => []
  | term :: terms => .fresh (.root index) term :: freshItems (index + 1) terms

end Task

end AddressExpansion
