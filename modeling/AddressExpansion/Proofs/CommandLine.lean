import AddressExpansion.CommandLine

/-! # Items at the end of a command line

Items that stand after all options change nothing but the items: a word after complete options is
an item if it does not begin with a dash, and after `--` every word is.
-/

namespace AddressExpansion

theorem exists_of_bind_eq_ok {ε α β : Type} {x : Except ε α} {f : α → Except ε β} {b : β}
    (well : x.bind f = .ok b) : ∃ a, x = .ok a ∧ f a = .ok b := by
  cases x with
  | error => cases well
  | ok a => exact ⟨a, rfl, well⟩

namespace CommandLine

namespace Draft

variable {draft after : Draft}

/-! ## Options that wait -/

theorem give_waiting {option : String} (given : draft.give option = .ok after) :
    after.waiting = draft.waiting := by
  unfold give at given
  split at given
  · cases given
  · cases given
    rfl

theorem setValue_waiting {option : ValueOption} {value : String}
    (set : draft.setValue option value = .ok after) : after.waiting = draft.waiting := by
  unfold setValue at set
  cases option with
  | override =>
      dsimp only at set
      split at set
      · cases set
      · cases set
        rfl
  | format | logLevel | logFormat =>
      obtain ⟨once, given, set⟩ := exists_of_bind_eq_ok set
      have same := give_waiting given
      obtain ⟨chosen, -, set⟩ := exists_of_bind_eq_ok set
      cases set
      exact same
  | inventory =>
      obtain ⟨once, given, set⟩ := exists_of_bind_eq_ok set
      have same := give_waiting given
      split at set
      · cases set
      · cases set
        exact same

theorem settle_waiting (settled : draft.settle = .ok after) : after.waiting = none := by
  unfold settle at settled
  split at settled
  next waits =>
    cases settled
    exact waits
  · cases settled
  · exact setValue_waiting settled

theorem settle_addItems (settled : draft.settle = .ok after) (items : List String) :
    (after.addItems items).settle = .ok (after.addItems items) := by
  have waits : after.waiting = none := settle_waiting settled
  unfold settle addItems
  dsimp only
  rw [waits]

/-! ## Words -/

/-- Reads a word that stands before any `--`. -/
def readWord (draft : Draft) (word : String) : Except UsageError Draft :=
  match word.toList with
  | '-' :: '-' :: rest => draft.readLong rest
  | '-' :: letter :: _ => draft.readShort letter
  | _ => draft.readPlain word

theorem readAll_cons {word : String} (other : word ≠ "--") (words : List String) :
    draft.readAll (word :: words) = (draft.readWord word).bind (·.readAll words) := by
  rw [readAll, readWord]
  split
  next dashes => exact absurd (String.toList_inj.mp dashes) other
  next long =>
    rw [long]
    rfl
  next letter _ _ short dash =>
    rw [dash]
    split
    next long => exact absurd (List.cons.inj (List.cons.inj long).2).1 short
    next same =>
      cases same
      rfl
    next no_letter => exact absurd rfl (no_letter _ _)
  next no_long no_short =>
    split
    next long => exact absurd long (no_long _)
    next short => exact absurd short (no_short _ _)
    next => rfl

theorem readAll_dashes (words : List String) :
    draft.readAll ("--" :: words) = draft.settle.map (·.addItems words) := by
  rw [readAll]
  cases draft.settle <;> rfl

theorem readWord_of_settled {word : String} (plain : word.toList.head? ≠ some '-')
    (settled : draft.settle = .ok after) : draft.readWord word = .ok (after.addItems [word]) := by
  unfold readWord
  split
  next long => simp [long] at plain
  next short => simp [short] at plain
  next =>
    unfold readPlain
    split
    next waits =>
      rw [settle, waits] at settled
      cases settled
    next =>
      rw [settled]
      rfl

theorem readAll_append_plain {word : String} (plain : word.toList.head? ≠ some '-')
    {words : List String} (read : draft.readAll words = .ok after) :
    draft.readAll (words ++ [word]) = .ok (after.addItems [word]) := by
  induction words generalizing draft with
  | nil =>
      have settled : draft.settle = .ok after := read
      have other : word ≠ "--" := by
        rintro rfl
        exact plain rfl
      rw [List.nil_append, readAll_cons other, readWord_of_settled plain settled]
      exact settle_addItems settled [word]
  | cons first words ih =>
      rw [List.cons_append]
      by_cases dashes : first = "--"
      · subst dashes
        rw [readAll_dashes] at read ⊢
        cases settled : draft.settle with
        | error => simp [settled, Except.map] at read
        | ok ready =>
            rw [settled] at read
            cases read
            simp [Except.map, addItems]
      · rw [readAll_cons dashes] at read ⊢
        obtain ⟨next, first_read, read⟩ := exists_of_bind_eq_ok read
        rw [first_read]
        exact ih read

theorem readAll_append_dashes {words : List String} (absent : "--" ∉ words)
    (items : List String) :
    draft.readAll (words ++ "--" :: items) = (draft.readAll words).map (·.addItems items) := by
  induction words generalizing draft with
  | nil => exact readAll_dashes items
  | cons first words ih =>
      rw [List.mem_cons, not_or] at absent
      rw [List.cons_append, readAll_cons (Ne.symm absent.1), readAll_cons (Ne.symm absent.1)]
      cases draft.readWord first with
      | error => rfl
      | ok next => exact ih absent.2

end Draft

variable {words : List String}

/-- Another item after a command line that is complete, unless it looks like an option. -/
theorem parse_append_plain {line : CommandLine} {word : String}
    (plain : word.toList.head? ≠ some '-') (parsed : parse words = .ok line) :
    parse (words ++ [word]) = .ok { line with items := line.items ++ [word] } := by
  unfold parse at parsed ⊢
  cases read : Draft.readAll {} words with
  | error => simp [read, Except.map] at parsed
  | ok draft =>
      rw [read] at parsed
      cases parsed
      rw [Draft.readAll_append_plain plain read]
      rfl

/-- Items after `--` are items, whatever they look like, and a command line that is wrong without
    them stays wrong in the same way. -/
theorem parse_append_dashes (absent : "--" ∉ words) (items : List String) :
    parse (words ++ "--" :: items) =
      (parse words).map fun line => { line with items := line.items ++ items } := by
  unfold parse
  rw [Draft.readAll_append_dashes absent]
  cases Draft.readAll {} words <;> rfl

end CommandLine

end AddressExpansion
