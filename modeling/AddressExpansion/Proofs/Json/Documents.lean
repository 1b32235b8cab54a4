import Mathlib.Data.List.Forall2
import AddressExpansion.Proofs.Json.Numbers
import AddressExpansion.Proofs.Json.Strings
import AddressExpansion.Proofs.Text

/-! # Arrays and objects that are read back

A reader takes a value from a text if it reads the value whatever stands after the text, and stops
at its end or in the gap after it. What is taken entry by entry is taken as an array or an object,
with any gaps between the entries, so both layouts of a written value are read alike.
-/

namespace AddressExpansion

theorem Text.joinWith_cons (separator : Char) (piece : List Char) (pieces : List (List Char)) :
    joinWith separator (piece :: pieces) = piece ++ pieces.flatMap (separator :: ·) := by
  induction pieces generalizing piece with
  | nil => rw [List.flatMap_nil, List.append_nil]; rfl
  | cons next pieces ih => rw [joinWith_cons_cons, ih, List.flatMap_cons, List.cons_append]

namespace Json

open Text

/-! ## Gaps -/

section Gaps

variable {c : Char} {cs gap : List Char}

theorem skipGap_append (blank : ∀ c ∈ gap, isGap c) (cs : List Char) :
    skipGap (gap ++ cs) = skipGap cs :=
  List.dropWhile_append_of_pos blank

theorem skipGap_cons (dark : isGap c = false) (cs : List Char) : skipGap (c :: cs) = c :: cs :=
  List.dropWhile_cons_of_neg (Bool.not_eq_true _ ▸ dark)

theorem not_isGap_of_skipGap {rest : List Char} (found : skipGap cs = c :: rest) :
    isGap c = false := by
  have head := List.head?_dropWhile_not isGap cs
  rw [skipGap] at found
  rw [found] at head
  exact head

@[simp] theorem skipGap_skipGap (cs : List Char) : skipGap (skipGap cs) = skipGap cs := by
  cases found : skipGap cs with
  | nil => rfl
  | cons c rest => exact skipGap_cons (not_isGap_of_skipGap found) rest

theorem countP_skipGap (cs : List Char) :
    (skipGap cs).countP (!isGap ·) = cs.countP (!isGap ·) := by
  induction cs with
  | nil => rfl
  | cons c cs ih =>
      by_cases blank : isGap c
      · rw [skipGap, List.dropWhile_cons_of_pos blank, List.countP_cons_of_neg (by simp [blank])]
        exact ih
      · rw [skipGap_cons (by simpa using blank)]

theorem isGap_of_mem_newline {layout : Layout} {depth : Nat} :
    ∀ c ∈ layout.newline depth, isGap c := by
  intro c member
  cases layout with
  | compact => cases member
  | pretty =>
      rcases List.mem_cons.mp member with rfl | space
      · rfl
      · rw [List.eq_of_mem_replicate space]
        rfl

end Gaps

/-! ## What a reader takes -/

namespace Reader

variable {α : Type} {read : Reader α} {text : List Char} {x : α}

/-- A gap before a text makes no difference. -/
def IgnoresGap (read : Reader α) : Prop :=
  ∀ cs, read (skipGap cs) = read cs

/-- A reader takes a value from a text whatever follows, and may leave a gap before that. -/
def Takes (read : Reader α) (text : List Char) (x : α) : Prop :=
  ∀ rest, ∃ left, read (text ++ rest) = some (x, left) ∧ skipGap left = skipGap rest

theorem Takes.of_eq (reads : ∀ rest, read (text ++ rest) = some (x, rest)) : read.Takes text x :=
  fun rest => ⟨rest, reads rest, rfl⟩

theorem Takes.after_gap {gap : List Char} (takes : read.Takes text x) (ignores : read.IgnoresGap)
    (blank : ∀ c ∈ gap, isGap c) : read.Takes (gap ++ text) x := by
  intro rest
  rw [← ignores, List.append_assoc, skipGap_append blank, ignores]
  exact takes rest

end Reader

/-! ## Entries -/

section Entries

variable {α : Type} {entry : Reader α} {close : Char} {pieces : List (List Char)} {xs : List α}
  {ending rest : List Char}

theorem readEntries_of_takes (each : List.Forall₂ entry.Takes pieces xs) (some_piece : pieces ≠ [])
    (comma : close ≠ ',') (ends : skipGap ending = close :: rest) {n : Nat}
    (enough : pieces.length ≤ n) :
    readEntries entry close n (joinWith ',' pieces ++ ending) = some (xs, rest) := by
  induction each generalizing n with
  | nil => exact absurd rfl some_piece
  | @cons piece x pieces xs first others ih =>
      obtain ⟨n, rfl⟩ : ∃ m, n = m + 1 := ⟨n - 1, by simp at enough; omega⟩
      cases others with
      | nil =>
          obtain ⟨left, reads, same⟩ := first ending
          have closed : skipGap left = close :: rest := same.trans ends
          rw [joinWith, readEntries, reads]
          dsimp only
          rw [closed]
          simp [comma]
      | @cons next _ pieces _ =>
          obtain ⟨left, reads, same⟩ := first (',' :: (joinWith ',' (next :: pieces) ++ ending))
          have further : skipGap left = ',' :: (joinWith ',' (next :: pieces) ++ ending) := same
          rw [joinWith_cons_cons, List.append_assoc, List.cons_append, readEntries, reads]
          dsimp only
          rw [further]
          dsimp only
          rw [if_pos rfl, ih (List.cons_ne_nil _ _) (Nat.le_of_succ_le_succ enough)]
          rfl

theorem length_le_countP (ends : skipGap ending = close :: rest) (pieces : List (List Char)) :
    pieces.length ≤ (joinWith ',' pieces ++ ending).countP (!isGap ·) := by
  have closing : 1 ≤ ending.countP (!isGap ·) := by
    rw [← countP_skipGap, ends, List.countP_cons_of_pos (by simp [not_isGap_of_skipGap ends])]
    omega
  induction pieces with
  | nil => exact Nat.zero_le _
  | cons piece pieces ih =>
      cases pieces with
      | nil =>
          rw [joinWith, List.countP_append, List.length_singleton]
          omega
      | cons next pieces =>
          rw [joinWith_cons_cons, List.append_assoc, List.countP_append, List.cons_append,
            List.countP_cons_of_pos (by rfl), List.length_cons]
          omega

/-- A list of entries is read if each entry is taken from its piece, up to the gap before the
    closing bracket, which begins no entry. -/
theorem readEnclosed_of_takes (each : List.Forall₂ entry.Takes pieces xs)
    (ignores : entry.IgnoresGap) (strict : ∀ cs, entry (close :: cs) = none) (comma : close ≠ ',')
    (ends : skipGap ending = close :: rest) :
    readEnclosed entry close (joinWith ',' pieces ++ ending) = some (xs, rest) := by
  unfold readEnclosed
  by_cases some_piece : pieces = []
  · subst some_piece
    cases each
    rw [joinWith, List.nil_append, ends]
    exact if_pos rfl
  -- as many entries are allowed as there are characters, and each one takes a character
  have counted := length_le_countP ends pieces
  have long : 0 < pieces.length := List.length_pos_of_ne_nil some_piece
  rw [← countP_skipGap] at counted
  have whole {n : Nat} (enough : pieces.length ≤ n) :
      readEntries entry close n (skipGap (joinWith ',' pieces ++ ending)) = some (xs, rest) := by
    obtain ⟨n, rfl⟩ : ∃ m, n = m + 1 := ⟨n - 1, by omega⟩
    rw [readEntries, ignores]
    exact readEntries_of_takes each some_piece comma ends enough
  generalize skipGap (joinWith ',' pieces ++ ending) = cs at counted whole
  cases cs with
  | nil =>
      rw [List.countP_nil] at counted
      omega
  | cons c cs =>
      dsimp only
      rw [if_neg]
      · exact whole (counted.trans List.countP_le_length)
      · rintro rfl
        have nothing := whole (Nat.le_succ pieces.length)
        rw [readEntries, strict] at nothing
        cases nothing

/-- Where the first entry ends at the comma after it, it is enough if each of the others is taken
    from its piece. -/
theorem readEnclosed_of_takes_others (each : List.Forall₂ entry.Takes pieces xs)
    (some_piece : pieces ≠ []) (comma : close ≠ ',') (ends : skipGap ending = close :: rest)
    {c : Char} {front : List Char} {x : α} (dark : isGap c = false) (opens : c ≠ close)
    (first : entry (c :: (front ++ ',' :: (joinWith ',' pieces ++ ending))) =
      some (x, ',' :: (joinWith ',' pieces ++ ending))) :
    readEnclosed entry close (c :: (front ++ ',' :: (joinWith ',' pieces ++ ending))) =
      some (x :: xs, rest) := by
  have counted := (length_le_countP ends pieces).trans List.countP_le_length
  have enough : pieces.length ≤ (front ++ ',' :: (joinWith ',' pieces ++ ending)).length := by
    rw [List.length_append, List.length_cons]
    omega
  have others := readEntries_of_takes each some_piece comma ends enough
  unfold readEnclosed
  rw [skipGap_cons dark]
  dsimp only
  rw [if_neg opens, readEntries, first]
  dsimp only
  rw [skipGap_cons (by rfl)]
  dsimp only
  rw [if_pos rfl, others]
  rfl

end Entries

/-! ## Values -/

section Values

variable {care : Care} {inner : Option (Reader Value)}

theorem readValueWith_ignoresGap : (readValueWith care inner).IgnoresGap := by
  intro cs
  rw [readValueWith, skipGap_skipGap]
  rfl

theorem readValue_ignoresGap {depth : Nat} : (readValue care depth).IgnoresGap := by
  cases depth <;> exact readValueWith_ignoresGap

theorem readField_ignoresGap {α : Type} {value : String → Reader α} :
    (readField care value).IgnoresGap := by
  intro cs
  rw [readField, skipGap_skipGap]
  rfl

theorem readValue_bracket {depth : Nat} {c : Char} (bracket : c = ']' ∨ c = '\x7d')
    (cs : List Char) : readValue care depth (c :: cs) = none := by
  have none_read {inner : Option (Reader Value)} : readValueWith care inner (c :: cs) = none := by
    have number : readValueWith care inner (c :: cs) =
        (readNumber care (c :: cs)).map fun found => (.number found.1, found.2) := by
      rcases bracket with rfl | rfl <;> rfl
    rw [number, readNumber_eq_none]
    · rfl
    all_goals rcases bracket with rfl | rfl <;> decide
  cases depth <;> exact none_read

theorem readField_bracket {α : Type} {value : String → Reader α} (cs : List Char) :
    readField care value ('\x7d' :: cs) = none := rfl

variable {depth : Nat} {pieces : List (List Char)} {text : List Char}

theorem takes_writeString (s : String) :
    (readValue care depth).Takes (writeString s) (.string s) := by
  cases depth <;> exact .of_eq fun rest => readValueWith_writeString _ s

theorem takes_array {values : List Value}
    (each : List.Forall₂ (readValue care depth).Takes pieces values) (gap : List Char)
    (blank : ∀ c ∈ gap, isGap c) :
    (readValue care (depth + 1)).Takes ('[' :: (joinWith ',' pieces ++ (gap ++ [']'])))
      (.array values) := by
  refine .of_eq fun rest => ?_
  have ends : skipGap (gap ++ ']' :: rest) = ']' :: rest := skipGap_append blank _
  have enclosed := readEnclosed_of_takes each readValue_ignoresGap
    (readValue_bracket (.inl rfl)) (by decide) ends
  have opened (cs : List Char) : readValue care (depth + 1) ('[' :: cs) =
      (readEnclosed (readValue care depth) ']' cs).bind fun found =>
        some (.array found.1, found.2) := rfl
  rw [List.cons_append, opened, List.append_assoc, List.append_assoc, List.singleton_append,
    enclosed]
  rfl

theorem takes_field {name : String} {value : Value} (layout : Layout)
    (takes : (readValue care depth).Takes text value) :
    (readField care fun _ => readValue care depth).Takes
      (writeString name ++ layout.colon ++ text) (name, value) := by
  obtain ⟨space, colon, blank⟩ : ∃ space, layout.colon = ':' :: space ∧ ∀ c ∈ space, isGap c := by
    cases layout
    · exact ⟨[], rfl, nofun⟩
    · exact ⟨[' '], rfl, List.forall_mem_singleton.mpr rfl⟩
  intro rest
  obtain ⟨left, reads, same⟩ := takes.after_gap readValue_ignoresGap blank rest
  refine ⟨left, ?_, same⟩
  have named (cs : List Char) : readString care (skipGap (writeString name ++ cs)) =
      some (name, cs) :=
    readString_writeString name
  unfold readField
  rw [colon, List.append_assoc, List.append_assoc, List.cons_append, named]
  change (readValue care depth (space ++ (text ++ rest))).bind _ = _
  rw [← List.append_assoc, reads]
  rfl

theorem takes_object {fields : List (String × Value)}
    (each : List.Forall₂ (readField care fun _ => readValue care depth).Takes pieces fields)
    (gap : List Char) (blank : ∀ c ∈ gap, isGap c) :
    (readValue care (depth + 1)).Takes ('\x7b' :: (joinWith ',' pieces ++ (gap ++ ['\x7d'])))
      (.object (Table.ofEntries fields)) := by
  refine .of_eq fun rest => ?_
  have ends : skipGap (gap ++ '\x7d' :: rest) = '\x7d' :: rest := skipGap_append blank _
  have enclosed := readEnclosed_of_takes each readField_ignoresGap readField_bracket
    (by decide) ends
  have opened (cs : List Char) : readValue care (depth + 1) ('\x7b' :: cs) =
      (readEnclosed (readField care fun _ => readValue care depth) '\x7d' cs).bind
        fun found => some (.object (Table.ofEntries found.1), found.2) := rfl
  rw [List.cons_append, opened, List.append_assoc, List.append_assoc, List.singleton_append,
    enclosed]
  rfl

end Values

/-! ## Written arrays and objects -/

section Written

variable {layout : Layout} {depth : Nat}

theorem writeItems_eq (items : List Value) : writeItems layout depth items =
    (items.map fun item => layout.newline depth ++ item.write layout depth).flatMap (',' :: ·) := by
  induction items with
  | nil => rfl
  | cons item items ih =>
      rw [writeItems, ih, List.map_cons, List.flatMap_cons, List.cons_append, List.cons_append]

theorem writeFields_eq (fields : List (String × Value)) : writeFields layout depth fields =
    (fields.map fun (name, value) => layout.newline depth ++
      (writeString name ++ layout.colon ++ value.write layout depth)).flatMap (',' :: ·) := by
  induction fields with
  | nil => rfl
  | cons field fields ih =>
      obtain ⟨name, value⟩ := field
      rw [writeFields, ih, List.map_cons, List.flatMap_cons]
      simp only [List.cons_append, List.append_assoc]

private theorem forall₂_newline {α β : Type} {read : Reader α} {write : β → List Char}
    {entries : List β} {xs : List α} (layout : Layout) (depth : Nat) (ignores : read.IgnoresGap)
    (each : List.Forall₂ (fun entry x => read.Takes (write entry) x) entries xs) :
    List.Forall₂ read.Takes (entries.map fun entry => layout.newline depth ++ write entry) xs := by
  rw [List.forall₂_map_left_iff]
  exact each.imp fun _ _ takes => takes.after_gap ignores isGap_of_mem_newline

variable {care : Care} {inside : Nat}

theorem takes_write_array {items values : List Value}
    (each : List.Forall₂ (fun item value =>
      (readValue care inside).Takes (item.write layout (depth + 1)) value) items values) :
    (readValue care (inside + 1)).Takes ((Value.array items).write layout depth)
      (.array values) := by
  have pieces := forall₂_newline layout (depth + 1) readValue_ignoresGap each
  cases items with
  | nil => exact takes_array pieces [] nofun
  | cons item items =>
      have taken := takes_array pieces (layout.newline depth) isGap_of_mem_newline
      rw [List.map_cons, joinWith_cons, ← writeItems_eq] at taken
      rw [Value.write]
      simpa only [List.cons_append, List.append_assoc] using taken

/-- A written object is read as the object of what its fields are read as, in the order of their
    names. -/
theorem takes_write_object {fields fields' : List (String × Value)}
    (each : List.Forall₂ (fun field field' => field.1 = field'.1 ∧
      (readValue care inside).Takes (field.2.write layout (depth + 1)) field'.2) fields fields') :
    (readValue care (inside + 1)).Takes ((Value.object fields).write layout depth)
      (.object (Table.ofEntries fields')) := by
  have read : List.Forall₂ (fun field field' =>
      (readField care fun _ => readValue care inside).Takes
        (writeString field.1 ++ layout.colon ++ field.2.write layout (depth + 1)) field')
      fields fields' :=
    each.imp fun field field' both => by
      obtain ⟨name, value⟩ := field'
      obtain ⟨rfl, takes⟩ := both
      exact takes_field layout takes
  have pieces := forall₂_newline layout (depth + 1) readField_ignoresGap read
  cases fields with
  | nil => exact takes_object pieces [] nofun
  | cons field fields =>
      have taken := takes_object pieces (layout.newline depth) isGap_of_mem_newline
      rw [List.map_cons, joinWith_cons, ← writeFields_eq] at taken
      rw [Value.write]
      simpa only [List.cons_append, List.append_assoc] using taken

end Written

theorem Value.parse?_of_takes {text gap : List Char} {value : Value}
    (takes : (readValue .keep maxDepth).Takes text value) (blank : ∀ c ∈ gap, isGap c) :
    Value.parse? (String.ofList (text ++ gap)) = some value := by
  obtain ⟨left, reads, same⟩ := takes gap
  have ends : skipGap left = [] := by
    rw [same, ← List.append_nil gap, skipGap_append blank]
    rfl
  unfold Value.parse? readDocument
  rw [String.toList_ofList, reads]
  exact if_pos ends

theorem Value.parse?_of_takes_whole {text : List Char} {value : Value}
    (takes : (readValue .keep maxDepth).Takes text value) :
    Value.parse? (String.ofList text) = some value := by
  have parsed := Value.parse?_of_takes takes (List.forall_mem_nil _)
  rwa [List.append_nil] at parsed

end Json

end AddressExpansion
