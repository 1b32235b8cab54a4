import AddressExpansion.Failure
import AddressExpansion.Json.Reader
import AddressExpansion.Rendered

/-! # Options

The named options of one invocation. They are checked in ascending order of their names, so that
of several wrong options the first is reported.
-/

namespace AddressExpansion

structure Options where
  /-- The shape of the output. -/
  format : Format := .ips
  /-- Whether decisions are traced. -/
  debug : Bool := false
  /-- What to use for names that cannot be looked up. -/
  overrides : Table Json.Value := []
  deriving Repr, BEq, Inhabited

/-- The format with this name, or the failure that lists the names there are. -/
def Format.parse (name : String) : Except OptionsProblem Format :=
  match Format.ofName? name with
  | some format => .ok format
  | none => .error (.unknownFormat name)

namespace Options

/-- The options with one of them set. -/
def set (options : Options) (name : String) (value : Json.Value) : Except OptionsProblem Options :=
  if name = "fmt" then
    match value with
    | .string s => (Format.parse s).map fun format => { options with format }
    | found => .error (.formatNotAString found)
  else if name = "debug" then
    match value with
    | .bool debug => .ok { options with debug }
    | found => .error (.debugNotABoolean found)
  else if name = "dns" then
    match value with
    | .object overrides => .ok { options with overrides }
    | found => .error (.overridesNotAMapping found)
  else .error (.unrecognized name)

/-- The options that a table gives, the others as by default. -/
def ofTable (table : Table Json.Value) : Except OptionsProblem Options :=
  table.foldlM (fun options (name, value) => options.set name value) {}

def parse (text : String) : Except OptionsProblem Options :=
  match Json.Value.parse? text with
  | none => .error .notADocument
  | some (.object table) => ofTable table
  | some found => .error (.notAMapping found)

end Options

end AddressExpansion
