import AddressExpansion.Proofs.Json.Documents

/-! # Readers look no further than what they read

What a reader reads from the front of a text does not change when more is appended to the text. A
string, an array or an object has an end of its own; a number ends where something else begins.
So a document can be put into a larger one, and nothing inside it is read differently there.
-/

namespace AddressExpansion.Json

/-! ## Closed and local readers -/

namespace Reader

variable {α β : Type}

/-- What stands after what is read makes no difference. -/
def IsClosed (read : Reader α) : Prop :=
  ∀ cs x rest, read cs = some (x, rest) → ∀ more, read (cs ++ more) = some (x, rest ++ more)

/-- Where something stands after what is read, it makes no difference what follows that. -/
def IsLocal (read : Reader α) : Prop :=
  ∀ cs x rest, read cs = some (x, rest) → rest ≠ [] →
    ∀ more, read (cs ++ more) = some (x, rest ++ more)

/-- A reader reads whatever another one does, in the same way. -/
def Covers (wide narrow : Reader α) : Prop :=
  ∀ cs found, narrow cs = some found → wide cs = some found

end Reader

/-- Whether the text of a value ends with a quote or a bracket of its own. -/
def Value.isDelimited : Value → Bool
  | .string _ | .array _ | .object _ => true
  | .null | .bool _ | .number _ => false

/-! ## Gaps -/

theorem skipGap_append_of_eq_cons {cs rest : List Char} {c : Char} (found : skipGap cs = c :: rest)
    (more : List Char) : skipGap (cs ++ more) = c :: (rest ++ more) := by
  unfold skipGap at found ⊢
  rw [List.dropWhile_append, found]
  rfl

/-! ## Strings -/

section Strings

variable {care : Care}

theorem readChars_letter {c x : Char} (letter : letterEscape? c = some x) (rest : List Char) :
    readChars care ('\\' :: c :: rest) = (readChars care rest).map fun found =>
      (x :: found.1, found.2) := by
  rw [readChars, letter]
  rintro _ _ _ _ _ rfl
  cases letter

theorem readChars_isClosed : (readChars care).IsClosed := by
  intro cs xs rest read more
  fun_induction readChars care cs generalizing xs rest with
  | case1 | case3 | case4 | case6 | case8 | case10 => cases read
  | case2 =>
      cases read
      rfl
  | case5 a b c d n digits surrogate e f g h left x joined ih =>
      obtain ⟨⟨xs, rest⟩, found, same⟩ := Option.map_eq_some_iff.mp read
      cases same
      simp only [List.cons_append, readChars, digits, if_pos surrogate, joined, ih _ _ found]
      rfl
  | case7 a b c d left n digits whole ih =>
      obtain ⟨⟨xs, rest⟩, found, same⟩ := Option.map_eq_some_iff.mp read
      cases same
      simp only [List.cons_append, readChars, digits, if_neg whole, ih _ _ found]
      rfl
  | case9 c left _ x letter ih =>
      obtain ⟨⟨xs, rest⟩, found, same⟩ := Option.map_eq_some_iff.mp read
      cases same
      rw [List.cons_append, List.cons_append, readChars_letter letter, ih _ _ found]
      rfl
  | case11 c left quote _ _ plain ih =>
      obtain ⟨⟨xs, rest⟩, found, same⟩ := Option.map_eq_some_iff.mp read
      cases same
      rw [Bool.or_eq_true, decide_eq_true_eq, decide_eq_true_eq, not_or] at plain
      rw [List.cons_append, readChars_plain quote plain.2 plain.1, ih _ _ found]
      rfl

theorem readString_isClosed : (readString care).IsClosed := by
  intro cs s rest read more
  unfold readString at read
  split at read
  · obtain ⟨⟨xs, left⟩, found, same⟩ := Option.map_eq_some_iff.mp read
    cases same
    rw [List.cons_append, readString, readChars_isClosed _ _ _ found]
    rfl
  · cases read

end Strings

/-! ## Numbers -/

section Numbers

theorem readDigits_isLocal : readDigits.IsLocal := by
  intro cs digits rest read further more
  unfold readDigits at read ⊢
  dsimp only at read ⊢
  split at read
  · cases read
  next some_digit =>
    cases read
    have short : (cs.takeWhile Char.isDigit).length ≠ cs.length := by
      intro long
      have whole := congrArg List.length (List.takeWhile_append_dropWhile (p := Char.isDigit) (l := cs))
      rw [List.length_append, long] at whole
      exact further (List.length_eq_zero_iff.mp (by omega))
    rw [List.takeWhile_append, if_neg short, if_neg some_digit, List.dropWhile_append, if_neg]
    simpa using further

theorem readFraction_isLocal : readFraction.IsLocal := by
  intro cs fraction rest read further more
  unfold readFraction at read
  split at read
  next left =>
    obtain ⟨⟨digits, left'⟩, found, same⟩ := Option.map_eq_some_iff.mp read
    cases same
    rw [List.cons_append, readFraction, readDigits_isLocal _ _ _ found further]
    rfl
  next point =>
    cases read
    cases cs with
    | nil => exact absurd rfl further
    | cons c cs => exact readFraction.eq_2 _ fun left same => point cs (by cases same; rfl)

theorem readSigned_isLocal : readSigned.IsLocal := by
  intro cs e rest read further more
  unfold readSigned at read
  split at read
  next left =>
    obtain ⟨⟨digits, left'⟩, found, same⟩ := Option.map_eq_some_iff.mp read
    cases same
    rw [List.cons_append, readSigned, readDigits_isLocal _ _ _ found further]
    rfl
  next left =>
    obtain ⟨⟨digits, left'⟩, found, same⟩ := Option.map_eq_some_iff.mp read
    cases same
    rw [List.cons_append, readSigned, readDigits_isLocal _ _ _ found further]
    rfl
  next minus plus =>
    obtain ⟨⟨digits, left'⟩, found, same⟩ := Option.map_eq_some_iff.mp read
    cases same
    cases cs with
    | nil => cases found
    | cons c cs =>
        rw [readSigned, readDigits_isLocal _ _ _ found further]
        · rfl
        · exact fun left same => minus cs (by cases same; rfl)
        · exact fun left same => plus cs (by cases same; rfl)

theorem readExponent_isLocal : readExponent.IsLocal := by
  intro cs exponent rest read further more
  unfold readExponent at read
  split at read
  next c left =>
    rw [List.cons_append, readExponent]
    split at read
    next mark =>
      obtain ⟨⟨e, left'⟩, found, same⟩ := Option.map_eq_some_iff.mp read
      cases same
      rw [if_pos mark, readSigned_isLocal _ _ _ found further]
      rfl
    next mark =>
      cases read
      exact if_neg mark
  next =>
    cases read
    exact absurd rfl further

theorem readMagnitude_isLocal {negative : Bool} : (readMagnitude negative).IsLocal := by
  intro cs numeral rest read further more
  obtain ⟨⟨whole, afterWhole⟩, digits, read⟩ := Option.bind_eq_some_iff.mp read
  dsimp only at read
  split at read
  · cases read
  next valid =>
    obtain ⟨⟨fraction, afterFraction⟩, point, read⟩ := Option.bind_eq_some_iff.mp read
    obtain ⟨⟨exponent, left⟩, scaled, read⟩ := Option.bind_eq_some_iff.mp read
    cases read
    -- a fraction or an exponent is left out where nothing follows, and then nothing is left
    have further' : afterFraction ≠ [] := by
      rintro rfl
      cases scaled
      exact further rfl
    have further'' : afterWhole ≠ [] := by
      rintro rfl
      cases point
      exact further' rfl
    refine Option.bind_eq_some_iff.mpr ⟨_, readDigits_isLocal _ _ _ digits further'' more, ?_⟩
    dsimp only
    rw [if_neg valid]
    refine Option.bind_eq_some_iff.mpr ⟨_, readFraction_isLocal _ _ _ point further' more, ?_⟩
    exact Option.bind_eq_some_iff.mpr ⟨_, readExponent_isLocal _ _ _ scaled further more, rfl⟩

theorem readNumeral_isLocal : readNumeral.IsLocal := by
  intro cs numeral rest read further more
  cases cs with
  | nil => cases read
  | cons c cs =>
      by_cases sign : c = '-'
      · subst sign
        rw [readNumeral_minus] at read
        exact readMagnitude_isLocal cs numeral rest read further more
      · rw [readNumeral_of_ne sign] at read
        rw [List.cons_append, readNumeral_of_ne sign]
        exact readMagnitude_isLocal (c :: cs) numeral rest read further more

theorem readNumber_isLocal {care : Care} : (readNumber care).IsLocal := by
  intro cs n rest read further more
  obtain ⟨⟨numeral, left⟩, found, read⟩ := Option.bind_eq_some_iff.mp read
  have left_eq : left = rest := by
    dsimp only at read
    split at read
    · cases read; rfl
    · cases read; rfl
    · cases read
  subst left_eq
  refine Option.bind_eq_some_iff.mpr ⟨_, readNumeral_isLocal _ _ _ found further more, ?_⟩
  dsimp only at read ⊢
  split at read <;> cases read <;> rfl

end Numbers

/-! ## Entries -/

section Entries

variable {α : Type} {entry wide narrow : Reader α} {close : Char}

theorem readEntries_isClosed (within : entry.IsLocal) (n : Nat) :
    (readEntries entry close n).IsClosed := by
  induction n with
  | zero => nofun
  | succ n ih =>
      intro cs xs rest read more
      rw [readEntries] at read ⊢
      cases first : entry cs with
      | none => simp [first] at read
      | some found =>
          obtain ⟨x, left⟩ := found
          rw [first] at read
          dsimp only at read
          cases separator : skipGap left with
          | nil => simp [separator] at read
          | cons c others =>
              have further : left ≠ [] := by
                rintro rfl
                cases separator
              rw [separator] at read
              rw [within _ _ _ first further]
              dsimp only at read ⊢
              rw [skipGap_append_of_eq_cons separator]
              dsimp only
              split at read
              next comma =>
                obtain ⟨⟨xs, rest⟩, found, same⟩ := Option.map_eq_some_iff.mp read
                cases same
                rw [if_pos comma, ih _ _ _ found]
                rfl
              next comma =>
                split at read
                next closed =>
                  cases read
                  rw [if_neg comma, if_pos closed]
                next => cases read

theorem readEntries_covers (covers : wide.Covers narrow) {n m : Nat} (le : n ≤ m) :
    (readEntries wide close m).Covers (readEntries narrow close n) := by
  induction n generalizing m with
  | zero => nofun
  | succ n ih =>
      intro cs found read
      obtain ⟨m, rfl⟩ : ∃ m', m = m' + 1 := ⟨m - 1, by omega⟩
      rw [readEntries] at read ⊢
      cases first : narrow cs with
      | none => simp [first] at read
      | some entry =>
          rw [first] at read
          rw [covers cs entry first]
          dsimp only at read ⊢
          cases separator : skipGap entry.2 with
          | nil => simp [separator] at read
          | cons c others =>
              rw [separator] at read
              dsimp only at read ⊢
              split at read
              next comma =>
                obtain ⟨others, found, rfl⟩ := Option.map_eq_some_iff.mp read
                rw [if_pos comma, ih (Nat.le_of_succ_le_succ le) _ _ found]
                rfl
              next comma => rwa [if_neg comma]

theorem readEnclosed_isClosed (within : entry.IsLocal) : (readEnclosed entry close).IsClosed := by
  intro cs xs rest read more
  unfold readEnclosed at read ⊢
  cases opened : skipGap cs with
  | nil => simp [opened] at read
  | cons c others =>
      rw [opened] at read
      rw [skipGap_append_of_eq_cons opened]
      dsimp only at read ⊢
      split at read
      next closed =>
        cases read
        exact if_pos closed
      next closed =>
        have longer : others.length + 1 ≤ (others ++ more).length + 1 := by
          rw [List.length_append]
          omega
        rw [if_neg closed]
        refine readEntries_covers (fun _ _ reads => reads) longer _ _ ?_
        exact readEntries_isClosed within _ _ _ _ read more

theorem readEnclosed_covers (covers : wide.Covers narrow) :
    (readEnclosed wide close).Covers (readEnclosed narrow close) := by
  intro cs found read
  unfold readEnclosed at read ⊢
  cases opened : skipGap cs with
  | nil => simp [opened] at read
  | cons c others =>
      rw [opened] at read
      dsimp only at read ⊢
      split at read
      next closed => rwa [if_pos closed]
      next closed =>
        rw [if_neg closed]
        exact readEntries_covers covers (Nat.le_refl _) _ _ read

end Entries

/-! ## Fields -/

section Fields

variable {care : Care} {value value' : Reader Value}

theorem readField_eq_some {cs rest : List Char} {name : String} {v : Value} :
    readField care (fun _ => value) cs = some ((name, v), rest) ↔
      ∃ afterName afterColon, readString care (skipGap cs) = some (name, afterName) ∧
        skipGap afterName = ':' :: afterColon ∧ value afterColon = some (v, rest) := by
  constructor
  · intro read
    obtain ⟨⟨name, afterName⟩, named, read⟩ := Option.bind_eq_some_iff.mp read
    dsimp only at read
    split at read
    next afterColon colon =>
      obtain ⟨⟨v, rest⟩, found, same⟩ := Option.bind_eq_some_iff.mp read
      cases same
      exact ⟨afterName, afterColon, named, colon, found⟩
    next => cases read
  · rintro ⟨afterName, afterColon, named, colon, found⟩
    refine Option.bind_eq_some_iff.mpr ⟨_, named, ?_⟩
    dsimp only
    rw [colon]
    exact Option.bind_eq_some_iff.mpr ⟨_, found, rfl⟩

theorem readField_isLocal (within : value.IsLocal) :
    (readField care fun _ => value).IsLocal := by
  rintro cs ⟨name, v⟩ rest read further more
  obtain ⟨afterName, afterColon, named, colon, found⟩ := readField_eq_some.mp read
  have opened : skipGap (cs ++ more) = skipGap cs ++ more := by
    cases opening : skipGap cs with
    | nil => simp [opening, readString] at named
    | cons c left => exact skipGap_append_of_eq_cons opening more
  refine readField_eq_some.mpr ⟨afterName ++ more, afterColon ++ more, ?_, ?_, ?_⟩
  · rw [opened]
    exact readString_isClosed _ _ _ named more
  · exact skipGap_append_of_eq_cons colon more
  · exact within _ _ _ found further more

theorem readField_covers (covers : value'.Covers value) :
    (readField care fun _ => value').Covers (readField care fun _ => value) := by
  rintro cs ⟨⟨name, v⟩, rest⟩ read
  obtain ⟨afterName, afterColon, named, colon, found⟩ := readField_eq_some.mp read
  exact readField_eq_some.mpr ⟨afterName, afterColon, named, colon, covers _ _ found⟩

end Fields

/-! ## Values -/

section Values

/-- How a value is read, by what it begins with. -/
inductive ReadAs (care : Care) (inner : Option (Reader Value)) :
    List Char → Value → List Char → Prop where
  | null (rest : List Char) : ReadAs care inner ('n' :: 'u' :: 'l' :: 'l' :: rest) .null rest
  | true (rest : List Char) : ReadAs care inner ('t' :: 'r' :: 'u' :: 'e' :: rest) (.bool true) rest
  | false (rest : List Char) :
      ReadAs care inner ('f' :: 'a' :: 'l' :: 's' :: 'e' :: rest) (.bool false) rest
  | string {cs xs rest : List Char} (read : readChars care cs = some (xs, rest)) :
      ReadAs care inner ('"' :: cs) (.string (String.ofList xs)) rest
  | array {cs rest : List Char} {items : List Value} {value : Reader Value}
      (allowed : inner = some value) (read : readEnclosed value ']' cs = some (items, rest)) :
      ReadAs care inner ('[' :: cs) (.array items) rest
  | object {cs rest : List Char} {fields : List (String × Value)} {value : Reader Value}
      (allowed : inner = some value)
      (read : readEnclosed (readField care fun _ => value) '\x7d' cs = some (fields, rest)) :
      ReadAs care inner ('\x7b' :: cs) (.object (Table.ofEntries fields)) rest
  | number {cs rest : List Char} {n : Number} (read : readNumber care cs = some (n, rest)) :
      ReadAs care inner cs (.number n) rest

variable {care : Care} {inner inner' : Option (Reader Value)} {cs rest : List Char} {v : Value}

theorem skipGap_of_readNumber {n : Number} (read : readNumber care cs = some (n, rest)) :
    skipGap cs = cs := by
  obtain ⟨c, left, rfl, start⟩ := exists_of_readNumber read
  refine skipGap_cons ?_ left
  by_contra gap
  simp only [isGap, Bool.not_eq_false, Bool.or_eq_true, decide_eq_true_eq] at gap
  rcases gap with ((rfl | rfl) | rfl) | rfl <;> exact absurd start (by decide)

private theorem ReadAs.of_read (read : readValueWith care inner cs = some (v, rest)) :
    ReadAs care inner (skipGap cs) v rest := by
  unfold readValueWith at read
  split at read
  next same => cases read; rw [same]; exact .null _
  next same => cases read; rw [same]; exact .true _
  next same => cases read; rw [same]; exact .false _
  next same =>
    obtain ⟨⟨xs, left⟩, found, split⟩ := Option.map_eq_some_iff.mp read
    cases split
    rw [same]
    exact .string found
  next same =>
    obtain ⟨value, allowed, read⟩ := Option.bind_eq_some_iff.mp read
    obtain ⟨⟨items, left⟩, found, split⟩ := Option.bind_eq_some_iff.mp read
    cases split
    rw [same]
    exact .array allowed found
  next same =>
    obtain ⟨value, allowed, read⟩ := Option.bind_eq_some_iff.mp read
    obtain ⟨⟨fields, left⟩, found, split⟩ := Option.bind_eq_some_iff.mp read
    cases split
    rw [same]
    exact .object allowed found
  next =>
    obtain ⟨⟨n, left⟩, found, split⟩ := Option.map_eq_some_iff.mp read
    cases split
    exact .number found

private theorem ReadAs.readValueWith_eq (readAs : ReadAs care inner cs v rest) :
    readValueWith care inner cs = some (v, rest) := by
  cases readAs with
  | null | true | false => rfl
  | @string cs xs rest read =>
      have quoted : readValueWith care inner ('"' :: cs) =
          (readChars care cs).map fun found => (.string (String.ofList found.1), found.2) := rfl
      rw [quoted, read]
      rfl
  | @array cs rest items value allowed read =>
      have opened : readValueWith care (some value) ('[' :: cs) =
          (readEnclosed value ']' cs).bind fun found => some (.array found.1, found.2) := rfl
      rw [allowed, opened, read]
      rfl
  | @object cs rest fields value allowed read =>
      have opened : readValueWith care (some value) ('\x7b' :: cs) =
          (readEnclosed (readField care fun _ => value) '\x7d' cs).bind fun found =>
            some (.object (Table.ofEntries found.1), found.2) := rfl
      rw [allowed, opened, read]
      rfl
  | number read =>
      obtain ⟨c, left, rfl, start⟩ := exists_of_readNumber read
      unfold readValueWith
      rw [skipGap_of_readNumber read]
      split
      case h_7 =>
        rw [read]
        rfl
      all_goals
        next same =>
          rw [(List.cons.inj same).1] at start
          exact absurd start (by decide)

theorem readValueWith_eq_some :
    readValueWith care inner cs = some (v, rest) ↔ ReadAs care inner (skipGap cs) v rest := by
  constructor
  · exact .of_read
  · intro readAs
    rw [← readValueWith_ignoresGap]
    exact readAs.readValueWith_eq

theorem readValue_of_readNumber {depth : Nat} {n : Number}
    (read : readNumber care cs = some (n, rest)) :
    readValue care depth cs = some (.number n, rest) := by
  have readAs (inner : Option (Reader Value)) :
      readValueWith care inner cs = some (.number n, rest) := by
    refine readValueWith_eq_some.mpr ?_
    rw [skipGap_of_readNumber read]
    exact .number read
  cases depth <;> exact readAs _

/-- What is inside is read locally, and a value without an end of its own is followed by something:
    then more text makes no difference. -/
theorem readValueWith_append (within : ∀ value, inner = some value → value.IsLocal)
    (read : readValueWith care inner cs = some (v, rest)) (ends : v.isDelimited ∨ rest ≠ [])
    (more : List Char) : readValueWith care inner (cs ++ more) = some (v, rest ++ more) := by
  rw [readValueWith_eq_some] at read ⊢
  have opened : skipGap (cs ++ more) = skipGap cs ++ more := by
    cases opening : skipGap cs with
    | nil =>
        rw [opening] at read
        cases read with
        | number found => cases found
    | cons c left => exact skipGap_append_of_eq_cons opening more
  rw [opened]
  generalize skipGap cs = cs at read
  cases read with
  | null => exact .null (rest ++ more)
  | true => exact .true (rest ++ more)
  | false => exact .false (rest ++ more)
  | string found => exact .string (readChars_isClosed _ _ _ found more)
  | array allowed found =>
      exact .array allowed (readEnclosed_isClosed (within _ allowed) _ _ _ found more)
  | object allowed found =>
      exact .object allowed
        (readEnclosed_isClosed (readField_isLocal (within _ allowed)) _ _ _ found more)
  | number found =>
      have further : rest ≠ [] := ends.resolve_left nofun
      exact .number (readNumber_isLocal _ _ _ found further more)

theorem readValueWith_covers (covers : ∀ value, inner = some value →
      ∃ value', inner' = some value' ∧ value'.Covers value) :
    (readValueWith care inner').Covers (readValueWith care inner) := by
  rintro cs ⟨v, rest⟩ read
  rw [readValueWith_eq_some] at read ⊢
  generalize skipGap cs = cs at read
  cases read with
  | null => exact .null rest
  | true => exact .true rest
  | false => exact .false rest
  | string found => exact .string found
  | array allowed found =>
      obtain ⟨value', allowed', wider⟩ := covers _ allowed
      exact .array allowed' (readEnclosed_covers wider _ _ found)
  | object allowed found =>
      obtain ⟨value', allowed', wider⟩ := covers _ allowed
      exact .object allowed' (readEnclosed_covers (readField_covers wider) _ _ found)
  | number found => exact .number found

variable {depth : Nat}

theorem readValue_isLocal : (readValue care depth).IsLocal := by
  induction depth with
  | zero =>
      intro cs v rest read further more
      have within : ∀ value : Reader Value, none = some value → value.IsLocal := nofun
      exact readValueWith_append within read (.inr further) more
  | succ depth ih =>
      intro cs v rest read further more
      refine readValueWith_append ?_ read (.inr further) more
      rintro value ⟨⟩
      exact ih

/-- A string, an array or an object is read alike whatever follows it. -/
theorem readValue_append (read : readValue care depth cs = some (v, rest))
    (delimited : v.isDelimited) (more : List Char) :
    readValue care depth (cs ++ more) = some (v, rest ++ more) := by
  cases depth with
  | zero =>
      have within : ∀ value : Reader Value, none = some value → value.IsLocal := nofun
      exact readValueWith_append within read (.inl delimited) more
  | succ depth =>
      refine readValueWith_append ?_ read (.inl delimited) more
      rintro value ⟨⟩
      exact readValue_isLocal

/-- What is read at a depth is read in the same way when deeper nesting is allowed. -/
theorem readValue_succ_covers : (readValue care (depth + 1)).Covers (readValue care depth) := by
  induction depth with
  | zero => exact readValueWith_covers nofun
  | succ depth ih =>
      refine readValueWith_covers ?_
      rintro value ⟨⟩
      exact ⟨_, rfl, ih⟩

end Values

/-! ## Documents inside documents -/

/-- A document with a string, an array or an object can be embedded: its value is taken from its
    text wherever that stands. -/
theorem takes_of_readDocument {depth : Nat} {text : String} {v : Value}
    (read : readDocument (readValue .keep depth) text = some v) (delimited : v.isDelimited) :
    (readValue .keep depth).Takes text.toList v := by
  obtain ⟨⟨v', rest⟩, found, ends⟩ := Option.bind_eq_some_iff.mp read
  dsimp only at ends
  split at ends
  next blank =>
    cases ends
    intro more
    refine ⟨rest ++ more, readValue_append found delimited more, ?_⟩
    rw [skipGap, List.dropWhile_append, ← skipGap, blank]
    rfl
  next => cases ends

theorem readDocument_succ {depth : Nat} {text : String} {v : Value}
    (read : readDocument (readValue .keep depth) text = some v) :
    readDocument (readValue .keep (depth + 1)) text = some v := by
  obtain ⟨found, reads, ends⟩ := Option.bind_eq_some_iff.mp read
  exact Option.bind_eq_some_iff.mpr ⟨found, readValue_succ_covers _ _ reads, ends⟩

end AddressExpansion.Json
