import AddressExpansion.Run

/-! # Sessions

A session keeps an inventory, a script of answers and the last value between invocations, so that
definitions can change from one to the next and a result can be fed back in.
-/

namespace AddressExpansion

structure Session where
  inventory : Inventory := {}
  script : Script := []
  /-- The last value that a run gave. -/
  last : Option Rendered := none

inductive SessionStep where
  | group (name : String) (members : List String)
  | var (name : String) (value : Json.Value)
  | answer (name : String) (answer : Answer)
  | unanswer (name : String)
  | run (items : List Json.Value) (options : Table Json.Value)
  /-- Runs on the last value, as one item or with its elements as items. -/
  | refeed (spread : Bool) (options : Table Json.Value)

inductive SessionReply where
  | groups (groups : Table (List String))
  | vars (vars : Table Json.Value)
  | noted
  | ran (run : Run Rendered)

namespace Session

/-- The items that the last value is fed back as. -/
def lastItems (session : Session) (spread : Bool) : List Json.Value :=
  match session.last.map Rendered.toValue with
  | none => []
  | some value =>
    match spread, value with
    | true, .array items => items
    | _, value => [value]

/-- Runs items. A value is kept; a failure leaves the last value as it was. -/
def runItems (session : Session) (items : List Json.Value) (options : Table Json.Value) :
    SessionReply × Session :=
  let engine : Engine := { inventory := session.inventory, answer := session.script.answer }
  let run := engine.runWith options items none
  match run.ending with
  | .value value => (.ran run, { session with last := some value })
  | _ => (.ran run, session)

def step (session : Session) : SessionStep → SessionReply × Session
  | .group name members =>
    let inventory := session.inventory.withGroup name members
    (.groups inventory.groups, { session with inventory })
  | .var name value =>
    let inventory := session.inventory.withVariable name value
    (.vars inventory.vars, { session with inventory })
  | .answer name answer =>
    (.noted, { session with script := Table.insert name answer session.script })
  | .unanswer name => (.noted, { session with script := Table.erase session.script name })
  | .run items options => session.runItems items options
  | .refeed spread options => session.runItems (session.lastItems spread) options

def steps (session : Session) : List SessionStep → List SessionReply
  | [] => []
  | first :: rest =>
    let (reply, session) := session.step first
    reply :: session.steps rest

end Session

end AddressExpansion
