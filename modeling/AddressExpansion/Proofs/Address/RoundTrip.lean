import Mathlib.Tactic.SplitIfs
import AddressExpansion.Address.Printer
import AddressExpansion.Address.Reader
import AddressExpansion.Proofs.Text

/-! # Addresses that are read back

The canonical text of a literal is read as the same literal: an address alone and in a block, a run
of zero groups that was left out, and an address of the second family that ends like one of the
first. Main statement: `Address.classify_text`.
-/

namespace AddressExpansion

open Text

/-! ## Characters of an address -/

/-- Whether an address may be written with a character. -/
def IsAddressChar (c : Char) : Prop :=
  (digitValue? 16 c).isSome ∨ c = ':' ∨ c = '.'

theorem digitValue?_sixteen {c : Char} (digit : (digitValue? 10 c).isSome) :
    (digitValue? 16 c).isSome := by
  unfold digitValue? at digit ⊢
  dsimp only at digit ⊢
  split_ifs at digit ⊢ <;> first | rfl | omega

private theorem toNat_of_digit {c : Char} (digit : (digitValue? 16 c).isSome) :
    48 ≤ c.toNat ∧ c.toNat ≤ 102 := by
  by_cases decimal : '0' ≤ c ∧ c ≤ '9'
  · have first : 48 ≤ c.toNat := decimal.1
    have last : c.toNat ≤ 57 := decimal.2
    omega
  by_cases lower : 'a' ≤ c ∧ c ≤ 'f'
  · have first : 97 ≤ c.toNat := lower.1
    have last : c.toNat ≤ 102 := lower.2
    omega
  by_cases upper : 'A' ≤ c ∧ c ≤ 'F'
  · have first : 65 ≤ c.toNat := upper.1
    have last : c.toNat ≤ 70 := upper.2
    omega
  · simp [digitValue?, decimal, lower, upper] at digit

theorem not_isBlank {c : Char} (allowed : IsAddressChar c ∨ c = '/') : isBlank c = false := by
  rcases allowed with (digit | rfl | rfl) | rfl
  · have bounds := toNat_of_digit digit
    simp only [isBlank, Bool.or_eq_false_iff, Bool.and_eq_false_iff, decide_eq_false_iff_not,
      beq_eq_false_iff_ne]
    omega
  all_goals rfl

theorem not_mem_toDigits {base n : Nat} {c : Char} (some_base : 1 < base) (small : base ≤ 16)
    (other : digitValue? base c = none) : c ∉ Nat.toDigits base n := by
  intro member
  have digit := digit_of_numberOf? (numberOf?_toDigits some_base small n) c member
  rw [other] at digit
  cases digit

/-! ## Numbers -/

variable {grammar : AddressGrammar}

theorem readNumber?_toDigits {base most n : Nat} (some_base : 1 < base) (small : base ≤ 16)
    (some_digit : 0 < most) (low : n < base ^ most) :
    readNumber? base most (Nat.toDigits base n) = some n := by
  have short := (Nat.length_toDigits_le_iff some_base some_digit).mpr low
  unfold readNumber?
  rw [if_neg, numberOf?_toDigits some_base small]
  rintro (empty | long)
  · exact Nat.toDigits_ne_nil empty
  · omega

theorem digit_of_readNumber? {base most n : Nat} {cs : List Char}
    (read : readNumber? base most cs = some n) : ∀ c ∈ cs, (digitValue? base c).isSome := by
  unfold readNumber? at read
  split at read
  · cases read
  · exact digit_of_numberOf? read

theorem readOctet?_decimalText {n : Nat} (low : n < 256) :
    readOctet? grammar (decimalText n) = some n := by
  have number : readNumber? 10 3 (decimalText n) = some n :=
    readNumber?_toDigits (by decide) (by decide) (by decide) (by omega)
  unfold readOctet?
  rw [number]
  apply if_neg
  rintro (high | ⟨zero, long, -⟩)
  · omega
  · rcases Nat.eq_zero_or_pos n with rfl | pos
    · exact long rfl
    · exact head?_toDigits pos zero

private theorem mapM_map {α β : Type} {f : α → β} {g : β → Option α} {xs : List α}
    (inverse : ∀ x ∈ xs, g (f x) = some x) : (xs.map f).mapM g = some xs := by
  induction xs with
  | nil => rfl
  | cons x xs ih =>
      rw [List.forall_mem_cons] at inverse
      rw [List.map_cons, List.mapM_cons, inverse.1, ih inverse.2]
      rfl

theorem readOctets?_dottedText {octets : List Nat} (four : octets.length = 4)
    (low : ∀ octet ∈ octets, octet < 256) :
    readOctets? grammar (dottedText octets) = some octets := by
  have pieces : splitAll '.' (dottedText octets) = octets.map decimalText := by
    apply splitAll_joinWith
    · rintro empty
      rw [List.map_eq_nil_iff] at empty
      simp [empty] at four
    · intro piece member
      obtain ⟨octet, -, rfl⟩ := List.mem_map.mp member
      exact not_mem_toDigits (by decide) (by decide) (by decide)
  unfold readOctets?
  dsimp only
  rw [pieces, List.length_map, if_pos four]
  exact mapM_map fun octet member => readOctet?_decimalText (low octet member)

theorem char_of_readOctets? {cs : List Char} {octets : List Nat}
    (read : readOctets? grammar cs = some octets) :
    ∀ c ∈ cs, (digitValue? 10 c).isSome ∨ c = '.' := by
  unfold readOctets? at read
  dsimp only at read
  split at read
  · intro c member
    rcases mem_of_splitAll '.' member with same | ⟨piece, inside, member⟩
    · exact .inr same
    · left
      obtain ⟨octet, number⟩ := exists_of_mapM read piece inside
      unfold readOctet? at number
      obtain ⟨n, number, -⟩ := Option.bind_eq_some_iff.mp number
      exact digit_of_readNumber? number c member
  · cases read

theorem colon_not_mem_of_readOctets? {cs : List Char} {octets : List Nat}
    (read : readOctets? grammar cs = some octets) : ':' ∉ cs := by
  intro member
  rcases char_of_readOctets? read ':' member with digit | same
  · cases digit
  · cases same

/-! ## Groups -/

theorem readPieces?_hexText {tail : Bool} {groups : List Nat} (low : ∀ group ∈ groups, group < 65536) :
    readPieces? grammar tail (groups.map hexText) = some groups := by
  have number : ∀ group ∈ groups, readNumber? 16 4 (hexText group) = some group := by
    intro group member
    have bound := low group member
    exact readNumber?_toDigits (by decide) (by decide) (by decide) (by omega)
  clear low
  induction groups with
  | nil => rfl
  | cons group groups ih =>
      rw [List.forall_mem_cons] at number
      cases groups with
      | nil =>
          unfold readPieces?
          simp only [List.map_cons, List.map_nil, number.1]
      | cons next groups =>
          have others := ih number.2
          rw [List.map_cons] at others ⊢
          rw [List.map_cons, readPieces?, number.1, others]
          · rfl
          · simp

theorem colon_not_mem_hexText {group : Nat} : ':' ∉ hexText group :=
  not_mem_toDigits (by decide) (by decide) (by decide)

theorem splitAll_groupedText {groups : List Nat} (some_group : groups ≠ []) :
    splitAll ':' (groupedText groups) = groups.map hexText := by
  apply splitAll_joinWith
  · intro empty
    exact some_group (List.map_eq_nil_iff.mp empty)
  · intro piece member
    obtain ⟨group, -, rfl⟩ := List.mem_map.mp member
    exact colon_not_mem_hexText

theorem readGroups?_groupedText {tail : Bool} {groups : List Nat}
    (low : ∀ group ∈ groups, group < 65536) :
    readGroups? grammar tail (groupedText groups) = some groups := by
  cases groups with
  | nil => rfl
  | cons group groups =>
      unfold readGroups?
      rw [splitAll_groupedText (List.cons_ne_nil _ _), readPieces?_hexText low]
      apply if_neg
      intro empty
      have pieces := splitAll_groupedText (List.cons_ne_nil group groups)
      rw [empty] at pieces
      exact Nat.toDigits_ne_nil (List.cons.inj pieces).1.symm

theorem splitDouble?_groupedText (groups : List Nat) (rest : List Char) :
    splitDouble? ':' (groupedText groups ++ rest) =
      (splitDouble? ':' rest).map fun (before, after) => (groupedText groups ++ before, after) := by
  apply splitDouble?_joinWith
  · intro piece member
    obtain ⟨group, -, rfl⟩ := List.mem_map.mp member
    exact Nat.toDigits_ne_nil
  · intro piece member
    obtain ⟨group, -, rfl⟩ := List.mem_map.mp member
    exact colon_not_mem_hexText

/-! ## Runs of zeros -/

private theorem takeWhile_zero (groups : List Nat) :
    groups = List.replicate (groups.takeWhile (· = 0)).length 0 ++
      groups.drop (groups.takeWhile (· = 0)).length := by
  induction groups with
  | nil => rfl
  | cons group groups ih =>
      by_cases zero : group = 0
      · subst zero
        simpa [List.replicate_succ] using ih
      · simp [zero]

/-- The longest run of zeros lies where it is said to be. -/
theorem longestZeroRun_eq (groups : List Nat) :
    groups = groups.take (longestZeroRun groups).1 ++
      (List.replicate (longestZeroRun groups).2 0 ++
        groups.drop ((longestZeroRun groups).1 + (longestZeroRun groups).2)) := by
  induction groups with
  | nil => rfl
  | cons group groups ih =>
      unfold longestZeroRun
      dsimp only
      split
      · simpa using takeWhile_zero (group :: groups)
      · rw [Nat.add_right_comm, List.take_succ_cons, List.drop_succ_cons, List.cons_append, ← ih]

theorem readEightGroups?_compressedText {groups : List Nat} (eight : groups.length = 8)
    (low : ∀ group ∈ groups, group < 65536) (gap : grammar.leastGap ≤ 2) :
    readEightGroups? grammar (compressedText groups) = some groups := by
  have zeros := longestZeroRun_eq groups
  unfold compressedText
  generalize longestZeroRun groups = run at zeros
  obtain ⟨start, length⟩ := run
  dsimp only at zeros ⊢
  split
  · have single := splitDouble?_groupedText groups []
    rw [List.append_nil] at single
    unfold readEightGroups?
    rw [single]
    dsimp only [splitDouble?, Option.map_none]
    rw [readGroups?_groupedText low]
    exact if_pos eight
  next long =>
    have double := splitDouble?_groupedText (groups.take start)
      (':' :: ':' :: groupedText (groups.drop (start + length)))
    rw [splitDouble?, if_pos ⟨rfl, rfl⟩, Option.map_some] at double
    have front : readGroups? grammar false (groupedText (groups.take start)) =
        some (groups.take start) :=
      readGroups?_groupedText fun group member => low group (List.mem_of_mem_take member)
    have back : readGroups? grammar true (groupedText (groups.drop (start + length))) =
        some (groups.drop (start + length)) :=
      readGroups?_groupedText fun group member => low group (List.mem_of_mem_drop member)
    have count := congrArg List.length zeros
    simp only [List.length_append, List.length_replicate, List.length_take, List.length_drop,
      eight] at count
    have given : (groups.take start).length + (groups.drop (start + length)).length = 8 - length := by
      rw [List.length_take, List.length_drop, eight]
      omega
    unfold readEightGroups?
    rw [double]
    dsimp only
    rw [List.append_nil, front, back]
    simp only [Option.bind_eq_bind, Option.bind_some]
    rw [if_pos, given, Nat.sub_sub_self, List.append_assoc, ← zeros]
    · omega
    · rw [List.length_take, eight] at given ⊢
      omega

theorem readEightGroups?_mapped {octets : List Nat} (four : octets.length = 4)
    (low : ∀ octet ∈ octets, octet < 256) (gap : grammar.leastGap ≤ 2) :
    readEightGroups? grammar ("::ffff:".toList ++ dottedText octets) =
      some ([0, 0, 0, 0, 0, 0xFFFF] ++ placesOf 65536 2 (ofPlaces 256 octets)) := by
  have octets_read : readOctets? grammar (dottedText octets) = some octets :=
    readOctets?_dottedText four low
  have no_colon : ':' ∉ dottedText octets := colon_not_mem_of_readOctets? octets_read
  have point : '.' ∈ dottedText octets := by
    match octets, four with
    | [a, b, c, d], _ => exact List.mem_append_right _ List.mem_cons_self
  have no_number : readNumber? 16 4 (dottedText octets) = none := by
    cases number : readNumber? 16 4 (dottedText octets) with
    | none => rfl
    | some n => cases digit_of_readNumber? number '.' point
  have pieces : splitAll ':' ("ffff:".toList ++ dottedText octets) =
      ["ffff".toList, dottedText octets] := by
    have whole : ':' ∉ "ffff".toList := by decide
    have first : splitAll ':' ("ffff".toList ++ ':' :: dottedText octets) = _ :=
      splitAll_append whole
    rw [splitAll_of_not_mem no_colon] at first
    exact first
  have back : readGroups? grammar true ("ffff:".toList ++ dottedText octets) =
      some (0xFFFF :: placesOf 65536 2 (ofPlaces 256 octets)) := by
    have first : readNumber? 16 4 "ffff".toList = some 0xFFFF := rfl
    unfold readGroups?
    rw [pieces, readPieces?, first, readPieces?, no_number]
    · simp only [if_true, readTail?, octets_read]
      rfl
    · simp
  have found : splitDouble? ':' ("::ffff:".toList ++ dottedText octets) =
      some ([], "ffff:".toList ++ dottedText octets) := rfl
  have front : readGroups? grammar false [] = some [] := rfl
  unfold readEightGroups?
  rw [found]
  dsimp only
  rw [front, back]
  simp only [Option.bind_eq_bind, Option.bind_some]
  rw [if_pos]
  · simp only [List.length_cons, length_placesOf, List.length_nil]
    rfl
  · simp only [List.length_cons, length_placesOf, List.length_nil]
    omega

/-! ## Addresses -/

theorem Ip.ofNat?_value (ip : Ip) : Ip.ofNat? ip.family ip.value = some ip :=
  dif_pos ip.value_lt

theorem Ip.groups_lt (ip : Ip) : ∀ group ∈ ip.groups, group < 65536 :=
  placesOf_lt (by decide)

theorem Ip.octets_lt (ip : Ip) : ∀ octet ∈ ip.octets, octet < 256 :=
  placesOf_lt (by decide)

theorem Ip.groups_eq (ip : Ip) :
    ip.groups = ip.groups.take 6 ++ placesOf 65536 2 (ofPlaces 256 ip.octets) := by
  have low : ofPlaces 256 ip.octets = ip.value % 65536 ^ 2 := ofPlaces_placesOf
  have split : placesOf 65536 (6 + 2) ip.value =
      placesOf 65536 6 (ip.value / 65536 ^ 2) ++ placesOf 65536 2 ip.value := placesOf_add 6
  have groups : ip.groups = _ := split
  rw [low, placesOf_mod, groups, List.take_left' length_placesOf]

private theorem colon_mem_write {ip : Ip} (family : ip.family = .v6) : ':' ∈ ip.write := by
  unfold Ip.write
  rw [family]
  dsimp only
  split
  · exact List.mem_append_left _ List.mem_cons_self
  · unfold compressedText
    generalize longestZeroRun ip.groups = run
    dsimp only
    split
    · obtain ⟨a, b, groups, same⟩ : ∃ a b groups, ip.groups = a :: b :: groups :=
        ⟨_, _, _, rfl⟩
      rw [same]
      exact List.mem_append_right _ List.mem_cons_self
    · exact List.mem_append_right _ List.mem_cons_self

/-- The text of an address is read as the address, alone as in a block. -/
theorem readIp?_write (gap : grammar.leastGap ≤ 2) (ip : Ip) :
    readIp? grammar ip.write = some ip := by
  have small := ip.value_lt
  cases family : ip.family with
  | v4 =>
      rw [family] at small
      have octets : readOctets? grammar ip.write = some ip.octets := by
        unfold Ip.write
        rw [family]
        exact readOctets?_dottedText length_placesOf ip.octets_lt
      have value : ofPlaces 256 ip.octets = ip.value :=
        ofPlaces_placesOf.trans (Nat.mod_eq_of_lt small)
      unfold readIp?
      rw [octets]
      dsimp only
      rw [value, ← family, ip.ofNat?_value]
  | v6 =>
      rw [family] at small
      have no_octets : readOctets? grammar ip.write = none := by
        cases read : readOctets? grammar ip.write with
        | none => rfl
        | some octets => exact absurd (colon_mem_write family) (colon_not_mem_of_readOctets? read)
      have groups : readEightGroups? grammar ip.write = some ip.groups := by
        unfold Ip.write
        rw [family]
        dsimp only
        split
        next mapped =>
          have four : ip.octets.length = 4 := length_placesOf
          have front : ip.groups.take 6 = [0, 0, 0, 0, 0, 0xFFFF] := of_decide_eq_true mapped
          rw [readEightGroups?_mapped four ip.octets_lt gap, ip.groups_eq, front]
        next => exact readEightGroups?_compressedText length_placesOf ip.groups_lt gap
      have value : ofPlaces 65536 ip.groups = ip.value :=
        ofPlaces_placesOf.trans (Nat.mod_eq_of_lt small)
      unfold readIp?
      rw [no_octets, groups, Option.bind_eq_bind, Option.bind_some, value, ← family,
        ip.ofNat?_value]

/-! ## Literals -/

private theorem char_of_readPieces? {tail : Bool} {pieces : List (List Char)} {groups : List Nat}
    (read : readPieces? grammar tail pieces = some groups) :
    ∀ piece ∈ pieces, ∀ c ∈ piece, IsAddressChar c := by
  have hex : ∀ {piece : List Char} {n : Nat}, readNumber? 16 4 piece = some n →
      ∀ c ∈ piece, IsAddressChar c :=
    fun number c member => .inl (digit_of_readNumber? number c member)
  fun_induction readPieces? generalizing groups with
  | case1 => nofun
  | case2 piece group number =>
      intro _ member
      rw [List.mem_singleton.mp member]
      exact hex number
  | case3 piece _ =>
      intro _ member c inside
      rw [List.mem_singleton.mp member] at inside
      obtain ⟨octets, tail, -⟩ := Option.map_eq_some_iff.mp read
      rcases char_of_readOctets? tail c inside with digit | point
      · exact .inl (digitValue?_sixteen digit)
      · exact .inr (.inr point)
  | case4 => cases read
  | case5 piece pieces _ ih =>
      obtain ⟨group, number, read⟩ := Option.bind_eq_some_iff.mp read
      obtain ⟨others, read, -⟩ := Option.bind_eq_some_iff.mp read
      rw [List.forall_mem_cons]
      exact ⟨hex number, ih read⟩

private theorem char_of_readGroups? {tail : Bool} {cs : List Char} {groups : List Nat}
    (read : readGroups? grammar tail cs = some groups) : ∀ c ∈ cs, IsAddressChar c := by
  unfold readGroups? at read
  split at read
  next empty =>
    rw [empty]
    nofun
  next =>
    intro c member
    rcases mem_of_splitAll ':' member with same | ⟨piece, inside, member⟩
    · exact .inr (.inl same)
    · exact char_of_readPieces? read piece inside c member

private theorem char_of_readEightGroups? {cs : List Char} {groups : List Nat}
    (read : readEightGroups? grammar cs = some groups) : ∀ c ∈ cs, IsAddressChar c := by
  unfold readEightGroups? at read
  split at read
  next =>
    obtain ⟨groups', read, -⟩ := Option.bind_eq_some_iff.mp read
    exact char_of_readGroups? read
  next before after found =>
    obtain ⟨front, first, read⟩ := Option.bind_eq_some_iff.mp read
    obtain ⟨back, second, -⟩ := Option.bind_eq_some_iff.mp read
    rw [splitDouble?_eq_some found]
    intro c member
    rcases List.mem_append.mp member with inside | member
    · exact char_of_readGroups? first c inside
    rcases List.mem_cons.mp member with same | member
    · exact .inr (.inl same)
    rcases List.mem_cons.mp member with same | inside
    · exact .inr (.inl same)
    · exact char_of_readGroups? second c inside

theorem char_of_readIp? {cs : List Char} {ip : Ip} (read : readIp? grammar cs = some ip) :
    ∀ c ∈ cs, IsAddressChar c := by
  unfold readIp? at read
  split at read
  next octets found =>
    intro c member
    rcases char_of_readOctets? found c member with digit | point
    · exact .inl (digitValue?_sixteen digit)
    · exact .inr (.inr point)
  next =>
    obtain ⟨groups, found, -⟩ := Option.bind_eq_some_iff.mp read
    exact char_of_readEightGroups? found

theorem Ip.char_of_mem_write {ip : Ip} : ∀ c ∈ ip.write, IsAddressChar c := by
  have read : readIp? .plain ip.write = some ip := readIp?_write (by decide) ip
  exact char_of_readIp? read

theorem slash_not_isAddressChar : ¬ IsAddressChar '/' := by
  rintro (digit | same | same)
  · cases digit
  · cases same
  · cases same

theorem slash_not_mem_write {ip : Ip} : '/' ∉ ip.write :=
  fun member => slash_not_isAddressChar (Ip.char_of_mem_write _ member)

theorem Block.char_of_mem_write {b : Block} : ∀ c ∈ b.write, IsAddressChar c ∨ c = '/' := by
  intro c member
  rcases List.mem_append.mp member with inside | member
  · exact .inl (Ip.char_of_mem_write c inside)
  rcases List.mem_cons.mp member with same | inside
  · exact .inr same
  · have digit := digit_of_numberOf? (numberOf?_toDigits (by decide) (by decide) b.length) c inside
    exact .inl (.inl (digitValue?_sixteen digit))

theorem readNumber?_length (b : Block) :
    readNumber? 10 b.address.family.lengthDigits (decimalText b.length) = some b.length := by
  have bound := b.length_le
  cases family : b.address.family with
  | v4 =>
      rw [family] at bound
      exact readNumber?_toDigits (by decide) (by decide) (by decide)
        (Nat.lt_of_le_of_lt bound (by decide))
  | v6 =>
      rw [family] at bound
      exact readNumber?_toDigits (by decide) (by decide) (by decide)
        (Nat.lt_of_le_of_lt bound (by decide))

theorem eq_of_readNumber?_decimalText {most n m : Nat}
    (read : readNumber? 10 most (decimalText n) = some m) : m = n := by
  unfold readNumber? at read
  split at read
  · cases read
  · exact (Option.some.inj ((numberOf?_toDigits (by decide) (by decide) n).symm.trans read)).symm

theorem readBlock?_eq_some {cs : List Char} {n : Nat} {b : Block} (noSlash : '/' ∉ cs) :
    readBlock? (cs ++ '/' :: decimalText n) = some b ↔
      readIp? .inBlock cs = some b.address ∧ b.length = n := by
  unfold readBlock?
  rw [splitFirst?_append noSlash]
  simp only [Option.bind_eq_bind, Option.bind_some, Option.bind_eq_some_iff]
  constructor
  · rintro ⟨ip, read, m, number, block⟩
    obtain rfl := eq_of_readNumber?_decimalText number
    unfold Block.of? at block
    split at block
    · cases block
      exact ⟨read, rfl⟩
    · cases block
  · rintro ⟨read, rfl⟩
    exact ⟨b.address, read, b.length, readNumber?_length b, dif_pos b.length_le⟩

theorem readBlock?_write (b : Block) : readBlock? b.write = some b :=
  (readBlock?_eq_some slash_not_mem_write).mpr ⟨readIp?_write (by decide) b.address, rfl⟩

namespace Address

theorem trim_text (a : Address) : Text.trim a.text = a.text := by
  unfold Text.trim Address.text
  rw [String.toList_ofList, trimBlanks_eq_self]
  intro c member
  cases a with
  | host => exact not_isBlank (.inl (Ip.char_of_mem_write c member))
  | network => exact not_isBlank (Block.char_of_mem_write c member)

theorem classify_text (a : Address) : classify a.text = some a := by
  have trimmed : trimBlanks a.text.toList = a.write := by
    have same := congrArg String.toList a.trim_text
    unfold Text.trim Address.text at same
    rw [String.toList_ofList, String.toList_ofList] at same
    rw [Address.text, String.toList_ofList, same]
  unfold classify
  rw [trimmed]
  cases a with
  | host ip =>
      have read : readIp? .plain (Address.host ip).write = some ip := readIp?_write (by decide) ip
      dsimp only
      rw [read]
  | network b =>
      have unread : readIp? .plain (Address.network b).write = none := by
        cases read : readIp? .plain (Address.network b).write with
        | none => rfl
        | some =>
            have slash : '/' ∈ (Address.network b).write :=
              List.mem_append_right _ List.mem_cons_self
            exact absurd (char_of_readIp? read '/' slash) slash_not_isAddressChar
      have block : readBlock? (Address.network b).write = some b := readBlock?_write b
      dsimp only
      rw [unread, block]
      rfl

end Address

end AddressExpansion
