import AddressExpansion.Options
import AddressExpansion.Rounds
import AddressExpansion.Task

/-! # Runs

An invocation reads all items, and then they go on side by side in rounds. It ends with a value,
with a failure, or at the time of cancellation.

How deep tasks are and how many rounds there can be is bounded by what the definitions can unfold
to, since at most `maxNesting` of them are open around anything.
-/

namespace AddressExpansion

inductive Ending (α : Type) where
  | value (a : α)
  | failure (f : Failure)
  /-- The turns were used up. There are always enough of them. -/
  | stalled
  deriving Repr

/-- What a run came to, and what it did on the way. -/
structure Run (α : Type) where
  ending : Ending α
  progress : Progress

mutual

/-- The number of tokens, records and lists in a term. -/
def Term.size : Term → Nat
  | .literal _ => 1
  | .record ip _ => ip.size + 1
  | .list items => Term.sizeOfAll items + 1

def Term.sizeOfAll : List Term → Nat
  | [] => 0
  | term :: terms => term.size + Term.sizeOfAll terms

end

/-- The size of a value that is a term. -/
def valueSize (value : Json.Value) : Nat :=
  match Term.ofValue value with
  | .ok term => term.size
  | .error _ => 0

namespace Environment

/-- The largest size of a definition. -/
def breadth (env : Environment) : Nat :=
  let groups := env.inventory.groups.map (·.2.length + 1)
  let vars := env.inventory.vars.map (valueSize ·.2)
  let overrides := env.overrides.map (valueSize ·.2)
  (groups ++ vars ++ overrides).foldl max 0

/-- A depth that no task of some terms exceeds: every name that is open adds a definition, a task
    is at most twice as deep as the term that it comes from, and the items are a list. -/
def levels (env : Environment) (terms : List Term) : Nat :=
  2 * (Term.sizeOfAll terms + maxNesting * (env.breadth + 1)) + 3

/-- A number of parts that some terms do not unfold to. -/
def reach (env : Environment) (terms : List Term) : Nat :=
  (Term.sizeOfAll terms + 1) * Nat.pow (env.breadth + 1) (maxNesting + 1)

/-- A number of turns that no run uses up. Every part is visited when it is new, when it gets a
    line, when an alarm rings and after a round that it was put off in; and a visit inside nested
    crowds may call for one more round at each level. -/
def turns (env : Environment) (terms : List Term) : Nat :=
  Nat.pow (env.reach terms + 1) 2 * Nat.pow 2 (env.levels terms + 7)

end Environment

def Task.activity (env : Environment) (levels : Nat) : Activity Task :=
  { visit := Task.visit env levels .main
    isOver := Task.isOver
    alarms := Task.alarms .main }

namespace Run

def cancelled {α : Type} (p : Progress) (time : Nat) : Run α :=
  ⟨.failure .cancelled, { p with board := p.board.atTime time, log := p.log.push .cancelled }⟩

/-- What a halt means for a run. -/
def ofHalt (task : Task) (p : Progress) : Halt → Run (List Atom)
  | .stalled => ⟨.stalled, p⟩
  | .cancelled time => cancelled p time
  | .ended =>
    match task.outcome? with
    | some (.ok atoms) => ⟨.value atoms, p⟩
    | some (.error failure) => ⟨.failure failure, p⟩
    | none => ⟨.stalled, p⟩

def idle (env : Environment) : Progress :=
  .initial env.permits

/-- Resolves terms to atoms. -/
def ofTerms (env : Environment) (cancelAt : Option Nat) (terms : List Term) (p : Progress) :
    Run (List Atom) :=
  let work : Work (Halt × Task) := do
    let task ← Task.ofParts (Task.freshItems 0 terms)
    (Task.activity env (env.levels terms)).drive cancelAt (env.turns terms) task
  let ((halt, task), p) := work.run p
  ofHalt task p halt

/-- The same run with a value made from its value, and a last message about it. -/
def conclude {α β : Type} (f : α → β) (message : α → Message) (run : Run α) : Run β :=
  match run.ending with
  | .value a => ⟨.value (f a), run.progress.say (message a)⟩
  | .failure failure => ⟨.failure failure, run.progress⟩
  | .stalled => ⟨.stalled, run.progress⟩

/-- A run that fails before it does anything. -/
def failed {α : Type} (env : Environment) (failure : Failure) : Run α :=
  ⟨.failure failure, idle env⟩

def calls {α : Type} (run : Run α) : List Call :=
  run.progress.board.calls.toList

def elapsed {α : Type} (run : Run α) : Nat :=
  run.progress.board.now

/-- The largest number of lookups that were under way at once. -/
def peak {α : Type} (run : Run α) : Nat :=
  run.progress.board.peak

def log {α : Type} (run : Run α) : List Message :=
  run.progress.log.toList

end Run

/-- Reads items as terms. The first item that is none is reported. -/
def parseItems (items : List Json.Value) : Except Failure (List Term) :=
  go 0 items
where
  /-- Reads items, of which the first has this index. -/
  go (index : Nat) : List Json.Value → Except Failure (List Term)
    | [] => .ok []
    | item :: items =>
      match Term.ofValue item with
      | .error fault => .error (.malformedItem index fault)
      | .ok term => (go (index + 1) items).map (term :: ·)

namespace Engine

def environment (engine : Engine) (overrides : Table Json.Value) : Environment :=
  { engine with overrides }

/-- Resolves items and renders the result. A run that is cancelled from the start does not even
    read its items. -/
def run (engine : Engine) (options : Options) (items : List Json.Value) (cancelAt : Option Nat) :
    Run Rendered :=
  let env := engine.environment options.overrides
  if cancelAt = some 0 then Run.cancelled (Run.idle env) 0
  else
    match parseItems items with
    | .error failure => Run.failed env failure
    | .ok terms =>
      let p := { Run.idle env with tracing := options.debug }
      let started := .started terms.length options.format options.overrides.length
      (Run.ofTerms env cancelAt terms (p.say started)).conclude
        (Rendered.ofAtoms · options.format) fun atoms => .rendering atoms.length options.format

/-- Runs with the options of a table. Wrong options are reported before anything else happens. -/
def runWith (engine : Engine) (options : Table Json.Value) (items : List Json.Value)
    (cancelAt : Option Nat) : Run Rendered :=
  match Options.ofTable options with
  | .error problem => Run.failed (engine.environment []) (.configuration problem)
  | .ok options => engine.run options items cancelAt

end Engine

end AddressExpansion
