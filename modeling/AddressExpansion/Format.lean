/-! # Output formats

The three shapes that a result can be asked for, by name.
-/

namespace AddressExpansion

/-- The shape of the output. -/
inductive Format where
  /-- Distinct addresses without comments. -/
  | ips
  /-- Atoms with their comments. -/
  | raw
  /-- Distinct addresses, blocks as usable ranges. -/
  | ranges
  deriving Repr, DecidableEq, BEq, Inhabited

namespace Format

/-- All formats, in the order in which messages list them. -/
def all : List Format := [.ips, .raw, .ranges]

def name : Format → String
  | .ips => "ips"
  | .raw => "raw"
  | .ranges => "ranges"

def ofName? (name : String) : Option Format :=
  all.find? (·.name = name)

def choices : String :=
  "[" ++ ", ".intercalate (all.map fun format => "'" ++ format.name ++ "'") ++ "]"

end Format

end AddressExpansion
