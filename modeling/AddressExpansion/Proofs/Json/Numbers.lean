import AddressExpansion.Json.Reader
import AddressExpansion.Proofs.Text

/-! # Numbers that are read back

A number begins with a minus sign or with a digit, so no other character is read as one. A natural
number that fits 64 bits is read back from its digits, wherever something else stands after them.
-/

namespace AddressExpansion.Json

variable {care : Care} {cs rest : List Char}

/-- The digits of a number, after its sign. -/
def readMagnitude (negative : Bool) : Reader Numeral := fun cs => do
  let (whole, cs) ← readDigits cs
  if whole.head? = some '0' && whole.length ≠ 1 then none
  let (fraction, cs) ← readFraction cs
  let (exponent, cs) ← readExponent cs
  return (⟨negative, whole, fraction, exponent⟩, cs)

theorem readNumeral_minus (cs : List Char) : readNumeral ('-' :: cs) = readMagnitude true cs := rfl

theorem readNumeral_of_ne {c : Char} (plus : c ≠ '-') (cs : List Char) :
    readNumeral (c :: cs) = readMagnitude false (c :: cs) := by
  unfold readNumeral
  split
  next signed =>
    split at signed
    next same => exact absurd (List.cons.inj same).1 plus
    next =>
      cases signed
      rfl

theorem readNumber_eq_none {c : Char} (plus : c ≠ '-') (letter : c.isDigit = false)
    (cs : List Char) : readNumber care (c :: cs) = none := by
  have none_read : readNumeral (c :: cs) = none := by
    rw [readNumeral_of_ne plus]
    simp [readMagnitude, readDigits, letter]
  unfold readNumber
  rw [none_read]
  rfl

theorem exists_of_readNumber {n : Number} (read : readNumber care cs = some (n, rest)) :
    ∃ c left, cs = c :: left ∧ (c = '-' ∨ c.isDigit) := by
  cases cs with
  | nil => cases read
  | cons c left =>
      refine ⟨c, left, rfl, ?_⟩
      by_cases minus : c = '-'
      · exact .inl minus
      · cases digit : c.isDigit with
        | true => exact .inr rfl
        | false =>
            rw [readNumber_eq_none minus digit] at read
            cases read

/-! ## Written natural numbers -/

/-- Whether no number goes on with a character. -/
def EndsNumber (c : Char) : Prop :=
  c.isDigit = false ∧ c ≠ '.' ∧ c ≠ 'e' ∧ c ≠ 'E'

theorem readDigits_append {digits : List Char} (some_digit : digits ≠ [])
    (each : ∀ c ∈ digits, c.isDigit) {c : Char} (ends : c.isDigit = false) (rest : List Char) :
    readDigits (digits ++ c :: rest) = some (digits, c :: rest) := by
  unfold readDigits
  rw [List.takeWhile_append_of_pos each, List.takeWhile_cons_of_neg (by simp [ends]),
    List.append_nil, List.dropWhile_append_of_pos each, List.dropWhile_cons_of_neg (by simp [ends])]
  exact if_neg some_digit

theorem digitsValue_toDigits (n : Nat) : digitsValue (Nat.toDigits 10 n) = n := by
  have steps : digitsValue (Nat.toDigits 10 n) = Nat.ofDigitChars 10 (Nat.toDigits 10 n) 0 := by
    unfold digitsValue Nat.ofDigitChars
    simp only [Nat.mul_comm, digitValue]
  rw [steps, Nat.ofDigitChars_toDigits (by decide) (by decide)]

theorem head?_toDigits_eq_zero {n : Nat} (zero : (Nat.toDigits 10 n).head? = some '0') :
    (Nat.toDigits 10 n).length = 1 := by
  cases n with
  | zero => rfl
  | succ n => exact absurd zero (Text.head?_toDigits (Nat.succ_pos n))

/-- A natural number is read back from its digits. -/
theorem readNumber_toDigits {n : Nat} (small : n < UInt64.size) {c : Char} (ends : EndsNumber c)
    (rest : List Char) :
    readNumber care (Nat.toDigits 10 n ++ c :: rest) = some (.integer n, c :: rest) := by
  obtain ⟨noDigit, noPoint, noMark⟩ := ends
  have digits : ∀ d ∈ Nat.toDigits 10 n, d.isDigit :=
    fun d => Nat.isDigit_of_mem_toDigits (by decide) (by decide)
  have fraction : readFraction (c :: rest) = some (none, c :: rest) := by
    unfold readFraction
    split
    next same => exact absurd (List.cons.inj same).1 noPoint
    next => rfl
  have exponent : readExponent (c :: rest) = some (none, c :: rest) := by
    simp [readExponent, noMark]
  have magnitude : readMagnitude false (Nat.toDigits 10 n ++ c :: rest) =
      some (⟨false, Nat.toDigits 10 n, none, none⟩, c :: rest) := by
    unfold readMagnitude
    rw [readDigits_append Nat.toDigits_ne_nil digits noDigit]
    simp only [Option.bind_eq_bind, Option.bind_some, fraction, exponent]
    rw [if_neg]
    · rfl
    · simp only [Bool.and_eq_true, decide_eq_true_eq, not_and, Decidable.not_not]
      exact head?_toDigits_eq_zero
  have numeral : readNumeral (Nat.toDigits 10 n ++ c :: rest) =
      some (⟨false, Nat.toDigits 10 n, none, none⟩, c :: rest) := by
    rw [← magnitude]
    cases whole : Nat.toDigits 10 n with
    | nil => exact absurd whole Nat.toDigits_ne_nil
    | cons d others =>
        refine readNumeral_of_ne ?_ _
        rintro rfl
        exact absurd (digits _ (whole ▸ List.mem_cons_self)) (by decide)
  have number : (⟨false, Nat.toDigits 10 n, none, none⟩ : Numeral).number? = some (.integer n) := by
    simp [Numeral.number?, digitsValue_toDigits, small]
  unfold readNumber
  rw [numeral]
  simp only [Option.bind_eq_bind, Option.bind_some, number]
  rfl

end AddressExpansion.Json
