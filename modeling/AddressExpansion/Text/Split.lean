/-! # Splitting and joining

Texts cut at a separator, and the inverse.
-/

namespace AddressExpansion.Text

/-- The pieces between the separators, at least one. -/
def splitAll (separator : Char) : List Char → List (List Char)
  | [] => [[]]
  | c :: cs =>
    if c = separator then [] :: splitAll separator cs
    else
      match splitAll separator cs with
      | [] => [[c]]
      | piece :: pieces => (c :: piece) :: pieces

/-- The texts before and after the first separator. -/
def splitFirst? (separator : Char) : List Char → Option (List Char × List Char)
  | [] => none
  | c :: cs =>
    if c = separator then some ([], cs)
    else (splitFirst? separator cs).map fun (before, after) => (c :: before, after)

/-- The texts before and after the first place where the separator stands twice. -/
def splitDouble? (separator : Char) : List Char → Option (List Char × List Char)
  | [] => none
  | [_] => none
  | c :: d :: cs =>
    if c = separator ∧ d = separator then some ([], cs)
    else (splitDouble? separator (d :: cs)).map fun (before, after) => (c :: before, after)

def joinWith (separator : Char) : List (List Char) → List Char
  | [] => []
  | [piece] => piece
  | piece :: pieces => piece ++ separator :: joinWith separator pieces

end AddressExpansion.Text
