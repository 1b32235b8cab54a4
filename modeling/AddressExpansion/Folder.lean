/-! # Folders

A folder of files, and what reading a path in it gives. A path is walked step by step: a point
stays in a folder, two points go to the folder around it, and anything after a file, be it only a
slash, is an error. The folders around the folder are there, but nothing else is in them.
-/

namespace AddressExpansion

inductive FileError where
  | notFound
  | notAFolder
  | isAFolder
  | nameTooLong
  | noPermission
  deriving Repr, DecidableEq, BEq

/-- The text of a file error, with its number. -/
def FileError.text : FileError → String
  | notFound => "No such file or directory (os error 2)"
  | noPermission => "Permission denied (os error 13)"
  | notAFolder => "Not a directory (os error 20)"
  | isAFolder => "Is a directory (os error 21)"
  | nameTooLong => "File name too long (os error 36)"

def FileError.ofNumber (number : Nat) : FileError :=
  if number = 13 then .noPermission
  else if number = 20 then .notAFolder
  else if number = 21 then .isAFolder
  else if number = 36 then .nameTooLong
  else .notFound

/-- Files by name. A name may lead through folders inside the folder. -/
abbrev Folder := List (String × String)

/-- Where a walk has come to. -/
inductive Folder.Place where
  /-- Inside the folder, by the names that lead there. -/
  | inside (names : List String)
  /-- In a folder around the folder. -/
  | around
  | file (text : String)
  deriving Repr, DecidableEq

namespace Folder

def maxStepBytes : Nat := 255

/-- The number of bytes that a path stays below. -/
def pathBytes : Nat := 4096

/-- Whether there is a folder of this name inside the folder. -/
def hasFolder (folder : Folder) (names : List String) : Bool :=
  let start := String.join (names.map (· ++ "/"))
  folder.any fun (name, _) => name.startsWith start

/-- Goes one step on. -/
def walk (folder : Folder) (place : Place) (step : String) : Except FileError Place :=
  if maxStepBytes < step.utf8ByteSize then
    match place with
    | .file _ => .error .notAFolder
    | _ => .error .nameTooLong
  else
    match place with
    | .file _ => .error .notAFolder
    | .around => if step ∈ ["", ".", ".."] then .ok .around else .error .notFound
    | .inside names =>
      if step = "" ∨ step = "." then .ok (.inside names)
      else if step = ".." then .ok (if names = [] then .around else .inside names.dropLast)
      else
        let names := names ++ [step]
        match folder.lookup ("/".intercalate names) with
        | some text => .ok (.file text)
        | none => if folder.hasFolder names then .ok (.inside names) else .error .notFound

/-- Reads the file that a path leads to. -/
def read (folder : Folder) (path : String) : Except FileError String := do
  if path = "" then throw .notFound
  if pathBytes ≤ path.utf8ByteSize then throw .nameTooLong
  let start := if path.startsWith "/" then Place.around else .inside []
  match ← (path.splitOn "/").foldlM folder.walk start with
  | .file text => return text
  | _ => throw .isAFolder

end Folder

end AddressExpansion
