import AddressExpansion.LogLine
import AddressExpansion.Options
import AddressExpansion.Text.Split

/-! # The command line

Items and options, in any order. An option that takes a value takes it after `=` or as the next
word, unless that word looks like an option. The value is checked when the next option or item
comes, or the words end; an unknown option, and a value for an option that takes none, are
reported even before that.
-/

namespace AddressExpansion

/-- An option that takes a value. -/
inductive ValueOption where
  | format
  | inventory
  | override
  | logLevel
  | logFormat
  deriving Repr, DecidableEq, BEq

/-- An option that takes no value. -/
inductive Flag where
  | debug
  | pretty
  | help
  | version
  deriving Repr, DecidableEq, BEq

/-- What is wrong with an override that is given as `NAME=VALUE`. -/
inductive OverrideProblem where
  | noEquals (raw : String)
  | emptyName (raw : String)
  deriving Repr, DecidableEq, BEq

/-- Why a command line asks for no run. -/
inductive UsageError where
  /-- A value is missing, empty or not among the possible ones. -/
  | invalidValue (option : ValueOption)
  | unknownOption (word : String)
  /-- An option that may be given once is given again. -/
  | repeated (option : String)
  /-- A value for an option that takes none. -/
  | unneededValue (flag : Flag)
  | badOverride (problem : OverrideProblem)
  /-- The help text is asked for. -/
  | helpRequested
  /-- The version is asked for. -/
  | versionRequested
  deriving Repr, DecidableEq, BEq

structure CommandLine where
  items : List String := []
  format : Format := .ips
  debug : Bool := false
  inventory : Option String := none
  overrides : Table Json.Value := []
  logLevel : Level := .warn
  logFormat : LogFormat := .plain
  pretty : Bool := false
  deriving Repr, BEq, Inhabited

namespace ValueOption

def all : List ValueOption := [.format, .inventory, .override, .logLevel, .logFormat]

/-- The name of an option, without its dashes. -/
def name : ValueOption → String
  | format => "fmt"
  | inventory => "inventory"
  | override => "dns"
  | logLevel => "log-level"
  | logFormat => "log-format"

end ValueOption

namespace Flag

def all : List Flag := [.debug, .pretty, .help, .version]

def name : Flag → String
  | debug => "debug"
  | pretty => "pretty"
  | help => "help"
  | version => "version"

/-- The options that also have a letter. -/
def ofLetter? : Char → Option Flag
  | 'h' => some help
  | 'V' => some version
  | _ => none

end Flag

def OverrideProblem.message : OverrideProblem → String
  | noEquals raw => "expected NAME=VALUE, got '" ++ raw ++ "'"
  | emptyName raw => "empty name in '" ++ raw ++ "'"

namespace UsageError

def exitStatus : UsageError → Nat
  | helpRequested | versionRequested => 0
  | _ => 2

def message : UsageError → String
  | invalidValue option => "missing or invalid value for '--" ++ option.name ++ "'"
  | unknownOption word => "unknown option '" ++ word ++ "'"
  | repeated option => "'--" ++ option ++ "' may be given only once"
  | unneededValue flag => "'--" ++ flag.name ++ "' takes no value"
  | badOverride problem => "invalid value for '--dns': " ++ problem.message
  | helpRequested =>
    "Usage: netspec [OPTIONS] [ITEMS]...\n\n" ++
    "Turns host, group and network specifications into lists of IP addresses. Each item is\n" ++
    "JSON (a list, a record or a string) or a bare token. Without items a JSON array of them\n" ++
    "is read from standard input.\n\n" ++
    "Options:\n" ++
    "  --fmt ips|raw|ranges     shape of the output\n" ++
    "  --debug                  trace every decision\n" ++
    "  --inventory PATH         file with groups and variables\n" ++
    "  --dns NAME=VALUE         what to use for a name that cannot be looked up\n" ++
    "  --log-level LEVEL        error, warn, info, debug or trace\n" ++
    "  --log-format plain|json  how log lines are written\n" ++
    "  --pretty                 one entry a line\n" ++
    "  -h, --help               this text\n" ++
    "  -V, --version            the version"
  | versionRequested => "netspec 0.1.0"

end UsageError

/-- The value that a word stands for: a JSON list, record or string is that value, anything else
    is a token as written. -/
def readItem (raw : String) : Json.Value :=
  match Json.Value.parse? raw with
  | some (.array items) => .array items
  | some (.object fields) => .object fields
  | some (.string s) => .string s
  | _ => .string raw

/-- Reads an override: a name, `=`, and what to use for it. -/
def readOverride (raw : String) : Except OverrideProblem (String × Json.Value) :=
  match Text.splitFirst? '=' raw.toList with
  | none => .error (.noEquals raw)
  | some ([], _) => .error (.emptyName raw)
  | some (name, value) => .ok (String.ofList name, readItem (String.ofList value))

namespace CommandLine

/-- What was read so far, which options were given, and an option that still waits to be checked,
    with its value if there is one yet. -/
structure Draft where
  line : CommandLine := {}
  given : List String := []
  waiting : Option (ValueOption × Option String) := none

namespace Draft

/-- Notes that an option was given, which it may be once. -/
def give (draft : Draft) (option : String) : Except UsageError Draft :=
  if option ∈ draft.given then .error (.repeated option)
  else .ok { draft with given := option :: draft.given }

/-- The entry with this name, or the error that the value of an option is invalid. -/
def choose {α : Type} (option : ValueOption) (all : List α) (name : α → String) (value : String) :
    Except UsageError α :=
  match all.find? (name · = value) with
  | some a => .ok a
  | none => .error (.invalidValue option)

/-- Sets an option that takes a value. Only overrides may be given more than once. -/
def setValue (draft : Draft) (option : ValueOption) (value : String) : Except UsageError Draft := do
  let line := draft.line
  match option with
  | .override =>
    match readOverride value with
    | .error problem => .error (.badOverride problem)
    | .ok (name, value) =>
      .ok { draft with line := { line with overrides := line.overrides.insert name value } }
  | .format => do
    let draft ← draft.give option.name
    let format ← choose option Format.all Format.name value
    return { draft with line := { line with format } }
  | .logLevel => do
    let draft ← draft.give option.name
    let logLevel ← choose option Level.all (·.name.toLower) value
    return { draft with line := { line with logLevel } }
  | .logFormat => do
    let draft ← draft.give option.name
    let logFormat ← choose option LogFormat.all LogFormat.name value
    return { draft with line := { line with logFormat } }
  | .inventory => do
    let draft ← draft.give option.name
    if value = "" then .error (.invalidValue option)
    else .ok { draft with line := { line with inventory := some value } }

/-- Checks the option that waits. -/
def settle (draft : Draft) : Except UsageError Draft :=
  match draft.waiting with
  | none => .ok draft
  | some (option, none) => .error (.invalidValue option)
  | some (option, some value) => { draft with waiting := none }.setValue option value

def setFlag (draft : Draft) : Flag → Except UsageError Draft
  | .help => .error .helpRequested
  | .version => .error .versionRequested
  | .debug => do
    let draft ← draft.give Flag.debug.name
    return { draft with line := { draft.line with debug := true } }
  | .pretty => do
    let draft ← draft.give Flag.pretty.name
    return { draft with line := { draft.line with pretty := true } }

def addItems (draft : Draft) (items : List String) : Draft :=
  { draft with line := { draft.line with items := draft.line.items ++ items } }

/-- Reads a word after two dashes: the name of an option, perhaps with a value after `=`. -/
def readLong (draft : Draft) (word : List Char) : Except UsageError Draft := do
  let (name, attached) := match Text.splitFirst? '=' word with
    | some (name, value) => (String.ofList name, some (String.ofList value))
    | none => (String.ofList word, none)
  match ValueOption.all.find? (·.name = name), Flag.all.find? (·.name = name), attached with
  | some option, _, some value => (← draft.settle).setValue option value
  | some option, _, none => return { ← draft.settle with waiting := some (option, none) }
  | none, some flag, some _ => .error (.unneededValue flag)
  | none, some flag, none => (← draft.settle).setFlag flag
  | none, none, _ => .error (.unknownOption ("--" ++ name))

/-- Reads a letter after one dash. -/
def readShort (draft : Draft) (letter : Char) : Except UsageError Draft := do
  match Flag.ofLetter? letter with
  | some flag => (← draft.settle).setFlag flag
  | none => .error (.unknownOption (String.ofList ['-', letter]))

/-- Reads a word that does not look like an option: the value that is waited for, or an item. -/
def readPlain (draft : Draft) (word : String) : Except UsageError Draft := do
  match draft.waiting with
  | some (option, none) => return { draft with waiting := some (option, some word) }
  | _ => return (← draft.settle).addItems [word]

/-- Reads words in order. After `--` all of them are items. -/
def readAll (draft : Draft) : List String → Except UsageError Draft
  | [] => draft.settle
  | word :: words =>
    match word.toList with
    | ['-', '-'] => return (← draft.settle).addItems words
    | '-' :: '-' :: rest => do (← draft.readLong rest).readAll words
    | '-' :: letter :: _ => do (← draft.readShort letter).readAll words
    | _ => do (← draft.readPlain word).readAll words

end Draft

def parse (words : List String) : Except UsageError CommandLine :=
  (Draft.readAll {} words).map Draft.line

def options (line : CommandLine) : Options :=
  { format := line.format, debug := line.debug, overrides := line.overrides }

def itemValues (line : CommandLine) : List Json.Value :=
  line.items.map readItem

/-- The level down to which messages are shown. Tracing needs at least `debug`. -/
def effectiveLevel (line : CommandLine) : Level :=
  if line.debug then line.logLevel.leastGrave .debug else line.logLevel

end CommandLine

end AddressExpansion
