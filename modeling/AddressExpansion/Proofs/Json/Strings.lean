import Mathlib.Data.List.Basic
import Mathlib.Tactic.IntervalCases
import Mathlib.Tactic.SplitIfs
import AddressExpansion.Json.Printer
import AddressExpansion.Json.Reader

/-! # Strings that are read back

A string that is written into a document is read from it again, whatever characters it holds and
whatever follows its closing quote. What is written holds no control character, so it is one line.
-/

namespace AddressExpansion.Json

variable {care : Care} {rest : List Char}

theorem hexFour?_hexDigit {n : Nat} (low : n < 32) :
    hexFour? '0' '0' (hexDigit (n / 16)) (hexDigit n) = some n := by
  interval_cases n <;> rfl

private theorem toNat_lt_of_lt_space {c : Char} (control : c < ' ') : c.toNat < 32 :=
  UInt32.lt_iff_toNat_lt.mp control

theorem readChars_plain {c : Char} (quote : c ≠ '"') (backslash : c ≠ '\\')
    (visible : ¬ c < ' ') :
    readChars care (c :: rest) = (readChars care rest).map fun (xs, rest) => (c :: xs, rest) := by
  rw [readChars]
  · simp [visible, backslash]
  all_goals simp_all

private theorem readChars_control {c : Char} (control : c < ' ') :
    readChars care ('\\' :: 'u' :: '0' :: '0' :: hexDigit (c.toNat / 16) :: hexDigit c.toNat :: rest) =
      (readChars care rest).map fun (xs, rest) => (c :: xs, rest) := by
  have low := toNat_lt_of_lt_space control
  have whole : isSurrogate c.toNat = false := by
    unfold isSurrogate
    rw [Bool.and_eq_false_iff]
    exact .inl (decide_eq_false (by omega))
  rw [readChars]
  simp only [hexFour?_hexDigit low, whole, Bool.false_and, Bool.false_eq_true, if_false,
    Char.ofNat_toNat]

/-- Reading takes back what writing made of one character. -/
theorem readChars_escapeChar (c : Char) :
    readChars care (escapeChar c ++ rest) =
      (readChars care rest).map fun (xs, rest) => (c :: xs, rest) := by
  unfold escapeChar
  split_ifs with quote backslash newline carriage tab backspace feed control
  -- the characters with an escape of their own
  all_goals try (subst c; rfl)
  · exact readChars_control control
  · exact readChars_plain quote backslash control

theorem readChars_flatMap (cs : List Char) :
    readChars care (cs.flatMap escapeChar ++ '"' :: rest) = some (cs, rest) := by
  induction cs with
  | nil => rfl
  | cons c cs ih =>
      rw [List.flatMap_cons, List.append_assoc, readChars_escapeChar, ih]
      rfl

/-- A written string is read as the string. -/
theorem readString_writeString (s : String) :
    readString care (writeString s ++ rest) = some (s, rest) := by
  unfold writeString
  rw [List.append_assoc, List.cons_append, List.singleton_append, readString, readChars_flatMap]
  exact congrArg (fun text => some (text, rest)) String.ofList_toList

theorem readValueWith_writeString (inner : Option (Reader Value)) (s : String) :
    readValueWith care inner (writeString s ++ rest) = some (.string s, rest) := by
  have quote (cs : List Char) : readValueWith care inner ('"' :: cs) =
      (readChars care cs).map fun (xs, rest) => (.string (String.ofList xs), rest) := rfl
  unfold writeString
  rw [List.append_assoc, List.cons_append, List.singleton_append, quote, readChars_flatMap]
  exact congrArg (fun text => some (Value.string text, rest)) String.ofList_toList

theorem Value.parse?_string (layout : Layout) (s : String) :
    Value.parse? ((Value.string s).text layout) = some (.string s) := by
  have read : readValue .keep maxDepth (writeString s ++ []) = some (.string s, []) :=
    readValueWith_writeString _ s
  rw [List.append_nil] at read
  unfold Value.parse? readDocument Value.text
  rw [String.toList_ofList, Value.write, read]
  rfl

/-! ## Characters of a written string -/

private theorem not_lt_space_of_hexDigit (n : Nat) : ¬ hexDigit n < ' ' := by
  have low : n % 16 < 16 := Nat.mod_lt n (by decide)
  unfold hexDigit
  generalize n % 16 = digit at low
  interval_cases digit <;> decide

theorem not_lt_space_of_mem_escapeChar {c x : Char} (member : x ∈ escapeChar c) : ¬ x < ' ' := by
  unfold escapeChar at member
  split_ifs at member with quote backslash newline carriage tab backspace feed control
  all_goals simp only [List.mem_cons, List.not_mem_nil, or_false] at member
  -- the characters with an escape of their own
  all_goals try (rcases member with rfl | rfl <;> decide)
  · rcases member with rfl | rfl | rfl | rfl | rfl | rfl
    · decide
    · decide
    · decide
    · decide
    · exact not_lt_space_of_hexDigit _
    · exact not_lt_space_of_hexDigit _
  · rw [member]
    exact control

theorem not_lt_space_of_mem_writeString {s : String} {x : Char} (member : x ∈ writeString s) :
    ¬ x < ' ' := by
  unfold writeString at member
  simp only [List.cons_append, List.mem_cons, List.mem_append, List.mem_flatMap,
    List.not_mem_nil, or_false] at member
  rcases member with rfl | ⟨c, -, escaped⟩ | rfl
  · decide
  · exact not_lt_space_of_mem_escapeChar escaped
  · decide

theorem writeString_of_plain {s : String} (plain : ∀ c ∈ s.toList, escapeChar c = [c]) :
    writeString s = '"' :: s.toList ++ ['"'] := by
  have same : s.toList.flatMap escapeChar = s.toList.flatMap ([·]) := List.flatMap_congr plain
  rw [writeString, same, List.flatMap_singleton']

end AddressExpansion.Json
