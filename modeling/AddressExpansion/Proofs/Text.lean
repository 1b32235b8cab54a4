import Mathlib.Data.List.DropRight
import Mathlib.Tactic.IntervalCases
import AddressExpansion.Text.Blank
import AddressExpansion.Text.Digits
import AddressExpansion.Text.Split

/-! # Texts that are read back

Numbers that are written in digits, and pieces that are joined with a separator, are read back as
they were.
-/

namespace AddressExpansion.Text

/-! ## Places -/

section Places

variable {base count n : Nat}

theorem ofPlaces_append (places : List Nat) (place : Nat) :
    ofPlaces base (places ++ [place]) = ofPlaces base places * base + place := by
  simp only [ofPlaces, List.foldl_append, List.foldl_cons, List.foldl_nil]

@[simp] theorem length_placesOf : (placesOf base count n).length = count := by
  induction count generalizing n with
  | zero => rfl
  | succ count ih => rw [placesOf, List.length_append, ih, List.length_singleton]

theorem placesOf_lt (some_base : 0 < base) : ∀ place ∈ placesOf base count n, place < base := by
  induction count generalizing n with
  | zero => nofun
  | succ count ih =>
      intro place member
      rw [placesOf] at member
      rcases List.mem_append.mp member with inside | last
      · exact ih place inside
      · rw [List.mem_singleton.mp last]
        exact Nat.mod_lt n some_base

theorem ofPlaces_placesOf : ofPlaces base (placesOf base count n) = n % base ^ count := by
  induction count generalizing n with
  | zero => rw [Nat.pow_zero, Nat.mod_one]; rfl
  | succ count ih =>
      rw [placesOf, ofPlaces_append, ih, Nat.pow_succ', Nat.mod_mul, Nat.mul_comm, Nat.add_comm]

theorem placesOf_mod : placesOf base count (n % base ^ count) = placesOf base count n := by
  induction count generalizing n with
  | zero => rfl
  | succ count ih =>
      have high : n % base ^ (count + 1) / base = n / base % base ^ count := by
        rw [Nat.pow_succ', Nat.mod_mul_right_div_self]
      have low : n % base ^ (count + 1) % base = n % base :=
        Nat.mod_mod_of_dvd n (Nat.pow_succ' ▸ Nat.dvd_mul_right base _)
      rw [placesOf, placesOf, high, low, ih]

theorem placesOf_add (more : Nat) :
    placesOf base (more + count) n = placesOf base more (n / base ^ count) ++ placesOf base count n := by
  induction count generalizing n with
  | zero => simp [placesOf]
  | succ count ih =>
      rw [← Nat.add_assoc, placesOf, placesOf, ih, List.append_assoc, Nat.div_div_eq_div_mul,
        ← Nat.pow_succ']

end Places

/-! ## Digits -/

section Digits

variable {base n : Nat}

theorem digitValue?_digitChar {digit : Nat} (small : base ≤ 16) (low : digit < base) :
    digitValue? base digit.digitChar = some digit := by
  have bound : digit < 16 := by omega
  interval_cases digit <;> exact if_pos low

theorem numberOf?_append {cs : List Char} {c : Char} {digit : Nat}
    (read : numberOf? base cs = some n) (last : digitValue? base c = some digit) :
    numberOf? base (cs ++ [c]) = some (n * base + digit) := by
  obtain ⟨places, front, rfl⟩ := Option.map_eq_some_iff.mp read
  unfold numberOf?
  rw [List.mapM_append, front, List.mapM_cons, last]
  exact congrArg some (ofPlaces_append places digit)

theorem numberOf?_toDigits (some_base : 1 < base) (small : base ≤ 16) (n : Nat) :
    numberOf? base (Nat.toDigits base n) = some n := by
  induction n using Nat.strong_induction_on with
  | h n ih =>
      have last := digitValue?_digitChar small (Nat.mod_lt n (Nat.zero_lt_of_lt some_base))
      rw [Nat.toDigits_eq_if some_base]
      split
      next low =>
        rw [Nat.mod_eq_of_lt low] at last
        have none : numberOf? base [] = some 0 := rfl
        have read := numberOf?_append none last
        rwa [Nat.zero_mul, Nat.zero_add] at read
      next high =>
        have fewer : n / base < n := Nat.div_lt_self (by omega) some_base
        rw [numberOf?_append (ih _ fewer) last, Nat.mul_comm, Nat.div_add_mod]

theorem head?_toDigits {n : Nat} (pos : 0 < n) : (Nat.toDigits 10 n).head? ≠ some '0' := by
  induction n using Nat.strong_induction_on with
  | h n ih =>
      rw [Nat.toDigits_eq_if (by decide)]
      split
      next low =>
        interval_cases n <;> decide
      next high =>
        have further := ih (n / 10) (by omega) (by omega)
        rw [List.head?_append]
        cases first : (Nat.toDigits 10 (n / 10)).head? with
        | none => exact absurd (List.head?_eq_none_iff.mp first) Nat.toDigits_ne_nil
        | some c =>
            rw [first] at further
            exact further

theorem exists_of_mapM {α β : Type} {f : α → Option β} {xs : List α} {ys : List β}
    (each : xs.mapM f = some ys) : ∀ x ∈ xs, ∃ y, f x = some y := by
  induction xs generalizing ys with
  | nil => nofun
  | cons x xs ih =>
      rw [List.mapM_cons] at each
      obtain ⟨y, first, each⟩ := Option.bind_eq_some_iff.mp each
      obtain ⟨others, each, -⟩ := Option.bind_eq_some_iff.mp each
      rw [List.forall_mem_cons]
      exact ⟨⟨y, first⟩, ih each⟩

/-- Where one function gives what another gives to what passes a test, so do their maps. -/
theorem mapM_eq_some_iff_of_guarded {α β : Type} {f g : α → Option β} {P : α → Prop}
    (guarded : ∀ x y, f x = some y ↔ g x = some y ∧ P x) {xs : List α} {ys : List β} :
    xs.mapM f = some ys ↔ xs.mapM g = some ys ∧ ∀ x ∈ xs, P x := by
  induction xs generalizing ys with
  | nil => simp
  | cons x xs ih =>
      simp only [List.mapM_cons, Option.bind_eq_bind, Option.bind_eq_some_iff, guarded, ih,
        List.forall_mem_cons]
      constructor
      · rintro ⟨y, ⟨first, here⟩, ys', ⟨others, rest⟩, same⟩
        exact ⟨⟨y, first, ys', others, same⟩, here, rest⟩
      · rintro ⟨⟨y, first, ys', others, same⟩, here, rest⟩
        exact ⟨y, ⟨first, here⟩, ys', ⟨others, rest⟩, same⟩

theorem digit_of_numberOf? {cs : List Char} (read : numberOf? base cs = some n) :
    ∀ c ∈ cs, (digitValue? base c).isSome := by
  obtain ⟨places, each, -⟩ := Option.map_eq_some_iff.mp read
  intro c member
  obtain ⟨digit, same⟩ := exists_of_mapM each c member
  rw [same]
  rfl

end Digits

/-! ## Pieces -/

section Pieces

variable {separator : Char} {cs rest : List Char} {pieces : List (List Char)}

theorem joinWith_cons_cons (piece next : List Char) :
    joinWith separator (piece :: next :: pieces) =
      piece ++ separator :: joinWith separator (next :: pieces) := rfl

theorem splitAll_ne_nil (separator : Char) (cs : List Char) : splitAll separator cs ≠ [] := by
  cases cs with
  | nil => exact List.cons_ne_nil _ _
  | cons c cs =>
      rw [splitAll]
      split
      · exact List.cons_ne_nil _ _
      · split <;> exact List.cons_ne_nil _ _

theorem splitAll_append_separator (cs rest : List Char) :
    splitAll separator (cs ++ separator :: rest) =
      splitAll separator cs ++ splitAll separator rest := by
  induction cs with
  | nil => simp [splitAll]
  | cons c cs ih =>
      rw [List.cons_append, splitAll, splitAll, ih]
      split
      · rfl
      · cases pieces : splitAll separator cs with
        | nil => exact absurd pieces (splitAll_ne_nil separator cs)
        | cons => rfl

theorem splitAll_append (whole : separator ∉ cs) :
    splitAll separator (cs ++ separator :: rest) = cs :: splitAll separator rest := by
  induction cs with
  | nil => simp [splitAll]
  | cons c cs ih =>
      rw [List.mem_cons, not_or] at whole
      rw [List.cons_append, splitAll, if_neg (Ne.symm whole.1), ih whole.2]

theorem splitAll_of_not_mem (whole : separator ∉ cs) : splitAll separator cs = [cs] := by
  induction cs with
  | nil => rfl
  | cons c cs ih =>
      rw [List.mem_cons, not_or] at whole
      rw [splitAll, if_neg (Ne.symm whole.1), ih whole.2]

theorem splitAll_joinWith (some_piece : pieces ≠ []) (whole : ∀ piece ∈ pieces, separator ∉ piece) :
    splitAll separator (joinWith separator pieces) = pieces := by
  induction pieces with
  | nil => exact absurd rfl some_piece
  | cons piece pieces ih =>
      rw [List.forall_mem_cons] at whole
      cases pieces with
      | nil => exact splitAll_of_not_mem whole.1
      | cons next pieces =>
          rw [joinWith_cons_cons, splitAll_append whole.1, ih (List.cons_ne_nil _ _) whole.2]

theorem mem_of_splitAll (separator : Char) {c : Char} (member : c ∈ cs) :
    c = separator ∨ ∃ piece ∈ splitAll separator cs, c ∈ piece := by
  induction cs with
  | nil => cases member
  | cons d cs ih =>
      rw [splitAll]
      by_cases here : d = separator
      · rw [if_pos here]
        rcases List.mem_cons.mp member with rfl | member
        · exact .inl here
        · apply (ih member).imp_right
          rintro ⟨piece, inside, member⟩
          exact ⟨piece, List.mem_cons_of_mem _ inside, member⟩
      · rw [if_neg here]
        cases split : splitAll separator cs with
        | nil =>
            rcases List.mem_cons.mp member with rfl | member
            · exact .inr ⟨[c], by simp, by simp⟩
            · rw [split] at ih
              rcases ih member with same | ⟨piece, inside, -⟩
              · exact .inl same
              · cases inside
        | cons first pieces =>
            rcases List.mem_cons.mp member with rfl | member
            · exact .inr ⟨c :: first, by simp, by simp⟩
            · rw [split] at ih
              apply (ih member).imp_right
              rintro ⟨piece, inside, member⟩
              rcases List.mem_cons.mp inside with rfl | inside
              · exact ⟨d :: piece, by simp, by simp [member]⟩
              · exact ⟨piece, by simp [inside], member⟩

theorem splitFirst?_append (whole : separator ∉ cs) :
    splitFirst? separator (cs ++ separator :: rest) = some (cs, rest) := by
  induction cs with
  | nil => simp [splitFirst?]
  | cons c cs ih =>
      rw [List.mem_cons, not_or] at whole
      rw [List.cons_append, splitFirst?, if_neg (Ne.symm whole.1), ih whole.2]
      rfl

theorem splitFirst?_of_not_mem (whole : separator ∉ cs) : splitFirst? separator cs = none := by
  induction cs with
  | nil => rfl
  | cons c cs ih =>
      rw [List.mem_cons, not_or] at whole
      rw [splitFirst?, if_neg (Ne.symm whole.1), ih whole.2]
      rfl

private theorem splitDouble?_cons_ne {c : Char} (other : c ≠ separator) :
    splitDouble? separator (c :: cs) =
      (splitDouble? separator cs).map fun (before, after) => (c :: before, after) := by
  cases cs with
  | nil => rfl
  | cons d cs => rw [splitDouble?, if_neg fun both => other both.1]

private theorem splitDouble?_separator {c : Char} (other : c ≠ separator) :
    splitDouble? separator (separator :: c :: cs) =
      (splitDouble? separator (c :: cs)).map fun (before, after) => (separator :: before, after) := by
  rw [splitDouble?, if_neg fun both => other both.2]

theorem splitDouble?_append (whole : separator ∉ cs) :
    splitDouble? separator (cs ++ rest) =
      (splitDouble? separator rest).map fun (before, after) => (cs ++ before, after) := by
  induction cs with
  | nil => cases found : splitDouble? separator rest <;> simp [found]
  | cons c cs ih =>
      rw [List.mem_cons, not_or] at whole
      rw [List.cons_append, splitDouble?_cons_ne (Ne.symm whole.1), ih whole.2, Option.map_map]
      rfl

theorem splitDouble?_of_not_mem (whole : separator ∉ cs) : splitDouble? separator cs = none := by
  have found : splitDouble? separator (cs ++ []) = _ := splitDouble?_append whole
  rwa [List.append_nil] at found

/-- Pieces that are not empty, and hold no separator, have none twice between them. -/
theorem splitDouble?_joinWith (filled : ∀ piece ∈ pieces, piece ≠ [])
    (whole : ∀ piece ∈ pieces, separator ∉ piece) :
    splitDouble? separator (joinWith separator pieces ++ rest) =
      (splitDouble? separator rest).map fun (before, after) =>
        (joinWith separator pieces ++ before, after) := by
  induction pieces with
  | nil => cases found : splitDouble? separator rest <;> simp [joinWith, found]
  | cons piece pieces ih =>
      rw [List.forall_mem_cons] at filled whole
      cases pieces with
      | nil => exact splitDouble?_append whole.1
      | cons next pieces =>
          have later := ih filled.2 whole.2
          obtain ⟨c, next', same⟩ := List.exists_cons_of_ne_nil (filled.2 next (by simp))
          have other : c ≠ separator := by
            rintro rfl
            exact whole.2 next (by simp) (by simp [same])
          have starts : ∃ tail, joinWith separator (next :: pieces) = c :: tail := by
            cases pieces with
            | nil => exact ⟨next', same⟩
            | cons => exact ⟨_, by rw [joinWith_cons_cons, same, List.cons_append]⟩
          obtain ⟨tail, starts⟩ := starts
          rw [joinWith_cons_cons, List.append_assoc, splitDouble?_append whole.1, List.cons_append]
          rw [starts, List.cons_append] at later ⊢
          rw [splitDouble?_separator other, later, Option.map_map, Option.map_map]
          apply congrArg (Option.map · _)
          funext ⟨before, after⟩
          simp

theorem splitDouble?_eq_some {before after : List Char}
    (found : splitDouble? separator cs = some (before, after)) :
    cs = before ++ separator :: separator :: after := by
  fun_induction splitDouble? generalizing before with
  | case1 | case2 => cases found
  | case3 c d cs both =>
      obtain ⟨rfl, rfl⟩ := both
      cases found
      rfl
  | case4 c d cs _ ih =>
      obtain ⟨⟨before', after'⟩, found', same⟩ := Option.map_eq_some_iff.mp found
      cases same
      rw [ih found']
      rfl

end Pieces

/-! ## Blanks -/

section Blanks

variable {cs : List Char}

theorem dropWhile_isBlank_eq_self (first : ∀ c ∈ cs.head?, isBlank c = false) :
    cs.dropWhile isBlank = cs := by
  cases cs with
  | nil => rfl
  | cons c cs => rw [List.dropWhile_cons_of_neg (by simp [first c rfl])]

theorem trimBlanks_eq_self_of_ends (first : ∀ c ∈ cs.head?, isBlank c = false)
    (last : ∀ c ∈ cs.getLast?, isBlank c = false) : trimBlanks cs = cs := by
  rw [← List.head?_reverse] at last
  rw [trimBlanks, dropWhile_isBlank_eq_self first, dropWhile_isBlank_eq_self last,
    List.reverse_reverse]

theorem trimBlanks_eq_self (plain : ∀ c ∈ cs, isBlank c = false) : trimBlanks cs = cs :=
  trimBlanks_eq_self_of_ends (fun c first => plain c (List.mem_of_mem_head? first))
    fun c last => plain c (List.mem_of_mem_getLast? last)

theorem head?_of_trimBlanks_eq_self (trimmed : trimBlanks cs = cs) :
    ∀ c ∈ cs.head?, isBlank c = false := by
  cases cs with
  | nil => nofun
  | cons c cs =>
      intro d first
      cases first
      by_contra blank
      have shorter : (trimBlanks (c :: cs)).length ≤ cs.length := by
        rw [trimBlanks, List.length_reverse]
        refine (List.dropWhile_sublist _).length_le.trans ?_
        rw [List.length_reverse, List.dropWhile_cons_of_pos (by simpa using blank)]
        exact (List.dropWhile_sublist _).length_le
      rw [trimmed, List.length_cons] at shorter
      omega

theorem trimBlanks_append {rest : List Char} (trimmed : trimBlanks cs = cs)
    (some_rest : rest ≠ []) (plain : ∀ c ∈ rest, isBlank c = false) :
    trimBlanks (cs ++ rest) = cs ++ rest := by
  apply trimBlanks_eq_self_of_ends
  · intro c first
    rw [List.head?_append] at first
    cases start : cs.head? with
    | none =>
        rw [start, Option.none_or] at first
        exact plain c (List.mem_of_mem_head? first)
    | some d =>
        rw [start] at first
        cases first
        exact head?_of_trimBlanks_eq_self trimmed c start
  · intro c last
    rw [List.getLast?_append, List.getLast?_eq_some_getLast some_rest, Option.some_or] at last
    cases last
    exact plain _ (List.getLast_mem some_rest)

theorem not_isBlank_of_head?_dropWhile {c : Char} (first : c ∈ (cs.dropWhile isBlank).head?) :
    isBlank c = false := by
  have start := List.head?_dropWhile_not isBlank cs
  rw [Option.mem_def.mp first] at start
  exact start

theorem trimBlanks_trimBlanks (cs : List Char) : trimBlanks (trimBlanks cs) = trimBlanks cs := by
  apply trimBlanks_eq_self_of_ends
  · intro c first
    obtain ⟨rest, same⟩ : trimBlanks cs <+: cs.dropWhile isBlank := List.rdropWhile_prefix ..
    have start : c ∈ (cs.dropWhile isBlank).head? := by
      rw [← same, List.head?_append, Option.mem_def.mp first, Option.some_or]
      rfl
    exact not_isBlank_of_head?_dropWhile start
  · intro c last
    rw [trimBlanks, List.getLast?_reverse] at last
    exact not_isBlank_of_head?_dropWhile last

theorem trim_trim (s : String) : trim (trim s) = trim s := by
  rw [trim, trim, String.toList_ofList, trimBlanks_trimBlanks]

end Blanks

end AddressExpansion.Text
