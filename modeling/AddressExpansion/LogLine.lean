import AddressExpansion.Message

/-! # Log lines

A message is written as one line: plain, with colours if they are wanted, or as a JSON object with
the four fields `ts`, `level`, `target` and `msg`.
-/

namespace AddressExpansion

inductive LogFormat where
  | plain
  | json
  deriving Repr, DecidableEq, BEq, Inhabited

namespace LogFormat

def all : List LogFormat := [.plain, .json]

def name : LogFormat → String
  | .plain => "plain"
  | .json => "json"

end LogFormat

/-- The look of log lines. -/
structure LogStyle where
  format : LogFormat
  /-- Whether plain lines are coloured. -/
  color : Bool
  deriving Repr, DecidableEq, BEq

/-- The terminal's number for the colour of a level. -/
def Level.color : Level → Nat
  | .error => 31
  | .warn => 33
  | .info => 32
  | .debug => 34
  | .trace => 35

def targetColor : Nat := 36

/-- A text between the terminal's marks for a colour. -/
def colored (color : Nat) (text : String) : String :=
  "\x1b[" ++ toString color ++ "m" ++ text ++ "\x1b[0m"

namespace Message

def plainLine (color : Bool) (message : Message) : String :=
  let paint (n : Nat) (text : String) : String := if color then colored n text else text
  paint targetColor message.target ++ " [" ++ paint message.level.color message.level.name ++
    "] " ++ message.text

/-- A message as a JSON object, with a time in milliseconds. Level and target stand between quotes
    as they are; only the text is escaped. -/
def jsonLine (time : Nat) (message : Message) : String :=
  String.ofList <|
    "\x7b\"ts\":".toList ++ Nat.toDigits 10 time ++
      ",\"level\":\"".toList ++ message.level.name.toList ++
      "\",\"target\":\"".toList ++ message.target.toList ++
      "\",\"msg\":".toList ++ Json.writeString message.text ++ ['\x7d']

/-- A message as a line. Only JSON lines show the time. -/
def line (style : LogStyle) (time : Nat) (message : Message) : String :=
  match style.format with
  | .plain => message.plainLine style.color
  | .json => message.jsonLine time

end Message

end AddressExpansion
