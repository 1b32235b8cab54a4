import AddressExpansion.Offline
import AddressExpansion.Program

/-! # The command

Reads the words, files and input that the program asks for, and writes what it leaves behind.
There is no network here: no name has a record.
-/

namespace AddressExpansion

def fileError : IO.Error → FileError
  | .inappropriateType _ number _ | .invalidArgument _ number _ | .permissionDenied _ number _ =>
    .ofNumber number.toNat
  | _ => .notFound

def readText (path : String) : IO (Except FileError String) := do
  try
    return .ok (← IO.FS.readFile path)
  catch e =>
    return .error (fileError e)

def wantsColor : IO Bool := do
  return ((← IO.getEnv "CLICOLOR_FORCE").getD "0") ≠ "0"

/-- Runs the program on the words of its command line and gives the exit status. -/
def runCommand (words : List String) : IO UInt32 := do
  match CommandLine.parse words with
  | .error e =>
    if e.exitStatus = 0 then IO.println e.message else IO.eprintln ("error: " ++ e.message)
    return e.exitStatus.toUInt32
  | .ok line =>
    let inventory ← match line.inventory with
      | some path => readText path
      | none => pure (.error .notFound)
    let stdin ← if line.items.isEmpty then (← IO.getStdin).readToEnd else pure ""
    let report := Program.run line
      { inventoryAt := fun _ => inventory, stdin, answer := offlineAnswer }
    for text in report.stderr line (← wantsColor) (← IO.monoMsNow) do
      IO.eprintln text
    IO.print (report.stdout line)
    return report.exitStatus.toUInt32

end AddressExpansion

def main (words : List String) : IO UInt32 :=
  AddressExpansion.runCommand words
