/-! # Tables

A table gives values to names. It is kept as a list of entries in ascending order of their names
(by code point, which is also the byte order of UTF-8), each name once.
-/

namespace AddressExpansion

/-- Entries in ascending order of their names. -/
abbrev Table (α : Type) := List (String × α)

namespace Table

variable {α : Type}

/-- Gives `value` to `name`, in the place of what the name had. -/
def insert (name : String) (value : α) : Table α → Table α
  | [] => [(name, value)]
  | (key, old) :: rest =>
    if name < key then (name, value) :: (key, old) :: rest
    else if name = key then (name, value) :: rest
    else (key, old) :: insert name value rest

/-- The table of a list of entries. Of two entries with one name the later counts. -/
def ofEntries (entries : List (String × α)) : Table α :=
  entries.foldl (fun table (name, value) => insert name value table) []

def find? (table : Table α) (name : String) : Option α :=
  table.lookup name

def erase (table : Table α) (name : String) : Table α :=
  table.filter (·.1 ≠ name)

end Table

end AddressExpansion
