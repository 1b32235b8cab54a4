import AddressExpansion.CommandLine
import AddressExpansion.Folder
import AddressExpansion.Run

/-! # The program

What the program does with a command line: it loads the inventory file, takes the items from the
command line or from standard input, runs once and writes the result as JSON. Failures go to
standard error together with the log, and make the exit status 1.
-/

namespace AddressExpansion

/-- Why the program has nothing to write. -/
inductive ProgramError where
  | unreadableInventory (path : String) (cause : FileError)
  | invalidInventory
  /-- Standard input is no JSON document. -/
  | unreadableItems
  /-- Standard input holds something other than an array. -/
  | itemsNotAList (found : Json.Value)
  | failed (failure : Failure)
  | stalled
  deriving Repr, BEq

def ProgramError.message : ProgramError → String
  | unreadableInventory path cause =>
    "Inventory initialization error: cannot read " ++ path ++ ": " ++ cause.text
  | invalidInventory => "Inventory initialization error: invalid inventory: unexpected content"
  | unreadableItems => "stdin must hold a JSON array of items: not a JSON document"
  | itemsNotAList found => "stdin must hold a JSON array of items, not " ++ found.compact
  | failed failure => failure.message
  | stalled => "no progress"

/-- What the program finds around it. -/
structure Surroundings where
  /-- The text of a file. -/
  inventoryAt : String → Except FileError String
  /-- The text on standard input. -/
  stdin : String
  /-- What the resolver does with a name. -/
  answer : String → Answer

/-- What the program leaves behind. -/
structure Report where
  /-- The log, levels that are not shown left out. -/
  log : List Message
  /-- The lookups that were started, in order. -/
  calls : List Call
  result : Except ProgramError Rendered

namespace Program

/-- The inventory of a command line, with the message that it was loaded. -/
def loadInventory (line : CommandLine) (around : Surroundings) :
    Except ProgramError (Inventory × List Message) :=
  match line.inventory with
  | none => .ok ({}, [])
  | some path =>
    match around.inventoryAt path with
    | .error cause => .error (.unreadableInventory path cause)
    | .ok document =>
      match Inventory.parse? document with
      | none => .error .invalidInventory
      | some inventory =>
        let (groups, vars) := (inventory.groups.length, inventory.vars.length)
        .ok (inventory, [.inventoryLoaded path groups vars])

def readItems (document : String) : Except ProgramError (List Json.Value) :=
  match Json.Value.parse? document with
  | none => .error .unreadableItems
  | some (.array items) => .ok items
  | some found => .error (.itemsNotAList found)

/-- The items of a command line, or of standard input if it has none. -/
def items (line : CommandLine) (around : Surroundings) : Except ProgramError (List Json.Value) :=
  if line.items = [] then readItems around.stdin else .ok line.itemValues

def resultOf : Ending Rendered → Except ProgramError Rendered
  | .value rendered => .ok rendered
  | .failure f => .error (.failed f)
  | .stalled => .error .stalled

def run (line : CommandLine) (around : Surroundings) : Report :=
  let shown (log : List Message) : List Message :=
    log.filter (·.level.rank ≤ line.effectiveLevel.rank)
  match loadInventory line around with
  | .error e => ⟨[], [], .error e⟩
  | .ok (inventory, loaded) =>
    match items line around with
    | .error e => ⟨shown loaded, [], .error e⟩
    | .ok items =>
      let engine : Engine := { inventory, answer := around.answer }
      let run := engine.run line.options items none
      ⟨shown (loaded ++ run.log), run.calls, resultOf run.ending⟩

end Program

namespace Report

def exitStatus (report : Report) : Nat :=
  match report.result with
  | .ok _ => 0
  | .error _ => 1

def stdout (line : CommandLine) (report : Report) : String :=
  match report.result with
  | .ok rendered => rendered.toValue.text (if line.pretty then .pretty else .compact) ++ "\n"
  | .error _ => ""

/-- What goes to standard error: the log, stamped with a time, and the error if there is one. -/
def stderr (line : CommandLine) (color : Bool) (time : Nat) (report : Report) : List String :=
  let log := report.log.map (Message.line ⟨line.logFormat, color⟩ time)
  match report.result with
  | .ok _ => log
  | .error e => log ++ ["netspec error: " ++ e.message]

end Report

end AddressExpansion
