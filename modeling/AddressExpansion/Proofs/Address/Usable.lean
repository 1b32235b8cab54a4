import AddressExpansion.Proofs.Address.Range

/-! # What a usable range holds

A range shows exactly the addresses of a block that hosts can use. The ends are computed in words
of the width of the family: the mask of the block leaves its first address, the free bits are set
for its last one, and stepping over an end never leaves the word.
-/

namespace AddressExpansion

namespace Block

variable {b : Block} {x : Ip}

/-! ## Members -/

/-- Whether an address lies in a block: it differs from the address of the block in free bits
    only. -/
def Contains (b : Block) (x : Ip) : Prop :=
  x.family = b.address.family ∧ x.value / b.size = b.address.value / b.size

/-- Whether hosts can use an address of a block: in a block of two both can be used, in a larger
    one those that have members on either side. -/
def IsUsable (b : Block) (x : Ip) : Prop :=
  b.Contains x ∧
    (b.freeBits = 1 ∨
      (∃ y, b.Contains y ∧ y.value < x.value) ∧ ∃ y, b.Contains y ∧ x.value < y.value)

theorem contains_iff : b.Contains x ↔
    x.family = b.address.family ∧ b.firstValue ≤ x.value ∧ x.value ≤ b.lastValue := by
  have pos := b.size_pos
  unfold Contains lastValue firstValue
  rw [Nat.div_eq_iff pos, Nat.add_sub_assoc pos]

def first (b : Block) : Ip :=
  ⟨b.address.family, b.firstValue, Nat.lt_of_le_of_lt b.firstValue_le b.address.value_lt⟩

def last (b : Block) : Ip :=
  ⟨b.address.family, b.lastValue, b.lastValue_lt⟩

theorem contains_first (b : Block) : b.Contains b.first :=
  contains_iff.mpr ⟨rfl, Nat.le_refl _, Nat.le_add_right ..⟩

theorem contains_last (b : Block) : b.Contains b.last :=
  contains_iff.mpr ⟨rfl, Nat.le_add_right .., Nat.le_refl _⟩

theorem exists_contains_lt :
    (∃ y, b.Contains y ∧ y.value < x.value) ↔ b.firstValue < x.value := by
  constructor
  · rintro ⟨y, member, less⟩
    exact Nat.lt_of_le_of_lt (contains_iff.mp member).2.1 less
  · exact fun less => ⟨b.first, b.contains_first, less⟩

theorem exists_contains_gt :
    (∃ y, b.Contains y ∧ x.value < y.value) ↔ x.value < b.lastValue := by
  constructor
  · rintro ⟨y, member, less⟩
    exact Nat.lt_of_lt_of_le less (contains_iff.mp member).2.2
  · exact fun less => ⟨b.last, b.contains_last, less⟩

/-! ## Usable members -/

theorem firstUsable_le_lastUsable (b : Block) : b.firstUsable.value ≤ b.lastUsable.value := by
  have whole := b.lastUsable_add
  have room := b.two_mul_margin_lt_size
  omega

/-- The usable addresses lie between the first and the last of them. -/
theorem isUsable_iff (short : b.length < b.address.family.width) : b.IsUsable x ↔
    x.family = b.address.family ∧ b.firstUsable.value ≤ x.value ∧ x.value ≤ b.lastUsable.value := by
  have free : 0 < b.freeBits := Nat.sub_pos_of_lt short
  have ends : b.firstValue ≤ b.lastValue := Nat.le_add_right ..
  -- The margin is one unless the block has two addresses; both cases are linear.
  have within : b.firstUsable.value ≤ x.value ∧ x.value ≤ b.lastUsable.value ↔
      (b.firstValue ≤ x.value ∧ x.value ≤ b.lastValue) ∧
        (b.freeBits = 1 ∨ b.firstValue < x.value ∧ x.value < b.lastValue) := by
    change b.firstValue + b.margin ≤ x.value ∧ x.value ≤ b.lastValue - b.margin ↔ _
    unfold margin
    split <;> omega
  rw [within, IsUsable, contains_iff, exists_contains_lt, exists_contains_gt, and_assoc]

/-! ## Words -/

/-- The address of a block as a word. -/
def word (b : Block) : BitVec b.address.family.width :=
  BitVec.ofNat _ b.address.value

/-- The bits that the members of a block share. -/
def mask (b : Block) : BitVec b.address.family.width :=
  BitVec.allOnes _ <<< b.freeBits

def firstWord (b : Block) : BitVec b.address.family.width :=
  b.word &&& b.mask

def lastWord (b : Block) : BitVec b.address.family.width :=
  b.word ||| ~~~b.mask

theorem toNat_word (b : Block) : b.word.toNat = b.address.value :=
  Nat.mod_eq_of_lt b.address.value_lt

theorem word_and_mask (b : Block) : b.firstWord = b.word >>> b.freeBits <<< b.freeBits := by
  unfold firstWord mask
  ext i inside
  simp only [BitVec.getElem_and, BitVec.getElem_shiftLeft, BitVec.getElem_allOnes]
  by_cases free : i < b.freeBits
  · simp [free]
  · simp [free, Nat.add_sub_of_le (Nat.le_of_not_lt free), inside]

theorem toNat_firstWord (b : Block) : b.firstWord.toNat = b.firstValue := by
  have small := Nat.lt_of_le_of_lt b.firstValue_le b.address.value_lt
  rw [word_and_mask, BitVec.toNat_shiftLeft, BitVec.toNat_ushiftRight, toNat_word,
    Nat.shiftLeft_eq, Nat.shiftRight_eq_div_pow]
  exact Nat.mod_eq_of_lt small

theorem not_mask (b : Block) : ~~~b.mask = BitVec.ofNat _ (b.size - 1) := by
  apply BitVec.eq_of_getLsbD_eq
  intro i inside
  change _ = (BitVec.ofNat b.address.family.width (2 ^ b.freeBits - 1)).getLsbD i
  rw [BitVec.getLsbD_ofNat, Nat.testBit_two_pow_sub_one]
  simp [mask, inside]

theorem toNat_not_mask (b : Block) : (~~~b.mask).toNat = b.size - 1 := by
  have whole : b.size ≤ 2 ^ b.address.family.width :=
    Nat.le_of_dvd (Nat.two_pow_pos _) b.size_dvd_space
  have pos := b.size_pos
  rw [not_mask, BitVec.toNat_ofNat]
  exact Nat.mod_eq_of_lt (by omega)

theorem lastWord_eq (b : Block) : b.lastWord = b.firstWord + ~~~b.mask := by
  -- The first word has no free bits, so adding them all sets them.
  have apart : b.firstWord &&& ~~~b.mask = 0 := by
    unfold firstWord
    ext i inside
    simp
  rw [BitVec.add_eq_or_of_and_eq_zero _ _ apart]
  unfold lastWord firstWord
  ext i inside
  simp only [BitVec.getElem_or, BitVec.getElem_and, BitVec.getElem_not]
  cases b.word[i] <;> cases b.mask[i] <;> rfl

theorem toNat_lastWord (b : Block) : b.lastWord.toNat = b.lastValue := by
  rw [lastWord_eq, BitVec.toNat_add, toNat_firstWord, toNat_not_mask]
  exact Nat.mod_eq_of_lt b.lastValue_lt

theorem firstWord_eq_word_iff : b.firstWord = b.word ↔ b.address.value = b.firstValue := by
  rw [← BitVec.toNat_inj, toNat_firstWord, toNat_word, eq_comm]

/-- How far the usable addresses are from the ends of a block, as a word. -/
def marginWord (b : Block) : BitVec b.address.family.width :=
  BitVec.ofNat _ b.margin

theorem toNat_marginWord (b : Block) : b.marginWord.toNat = b.margin := by
  have small := b.margin_le_one
  have wide : b.address.family.width ≠ 0 := by cases b.address.family <;> decide
  exact Nat.mod_eq_of_lt (Nat.lt_of_le_of_lt small (Nat.one_lt_two_pow wide))

theorem firstUsable_eq_word (b : Block) : b.firstWord.uaddOverflow b.marginWord = false ∧
    b.firstUsable.value = (b.firstWord + b.marginWord).toNat := by
  have small := b.firstUsable.value_lt
  change b.firstValue + b.margin < 2 ^ b.address.family.width at small
  rw [← toNat_firstWord, ← toNat_marginWord] at small
  have value : b.firstUsable.value = b.firstWord.toNat + b.marginWord.toNat := by
    rw [toNat_firstWord, toNat_marginWord]
    rfl
  rw [value, BitVec.toNat_add, Nat.mod_eq_of_lt small]
  exact ⟨decide_eq_false (Nat.not_le_of_lt small), rfl⟩

theorem lastUsable_eq_word (b : Block) : b.lastWord.usubOverflow b.marginWord = false ∧
    b.lastUsable.value = (b.lastWord - b.marginWord).toNat := by
  have room := b.two_mul_margin_lt_size
  have low : b.marginWord.toNat ≤ b.lastWord.toNat := by
    rw [toNat_lastWord, toNat_marginWord, lastValue]
    omega
  rw [BitVec.toNat_sub_of_le (BitVec.le_def.mpr low), toNat_lastWord, toNat_marginWord]
  exact ⟨decide_eq_false (Nat.not_lt_of_le low), rfl⟩

end Block

namespace Address

/-- A usable range holds exactly the usable addresses. A block that is shorter than its family
    and written by its own first address is shown by two addresses, the first not above the last,
    between which lie the usable addresses of the block and no others. They are the ends of the
    block in words of the family, moved by the margin without overflow or underflow. Every other
    literal is shown by its canonical text. -/
theorem range_holds_usable :
    (∀ b : Block, b.length < b.address.family.width → b.firstWord = b.word →
      ∃ first last : Ip,
        (network b).rangeText = first.text ++ "-" ++ last.text ∧
        first.family = b.address.family ∧ last.family = b.address.family ∧
        first.value ≤ last.value ∧
        (∀ x : Ip, (x.family = b.address.family ∧ first.value ≤ x.value ∧ x.value ≤ last.value) ↔
          b.IsUsable x) ∧
        b.marginWord = (if b.length + 1 = b.address.family.width then 0 else 1) ∧
        b.firstWord.uaddOverflow b.marginWord = false ∧
        b.lastWord.usubOverflow b.marginWord = false ∧
        first.value = (b.firstWord + b.marginWord).toNat ∧
        last.value = (b.lastWord - b.marginWord).toNat) ∧
    ∀ a : Address,
      (∀ b : Block, a = network b → ¬ (b.length < b.address.family.width ∧ b.firstWord = b.word)) →
      a.rangeText = a.text := by
  constructor
  · intro b short start
    have proper : b.isProper := Block.isProper_iff.mpr ⟨short, Block.firstWord_eq_word_iff.mp start⟩
    have text : (network b).rangeText = b.firstUsable.text ++ "-" ++ b.lastUsable.text := by
      unfold rangeText writeRange
      simp only [if_pos proper]
      simp [Ip.text, String.append_assoc]
    have margin : b.marginWord = if b.length + 1 = b.address.family.width then 0 else 1 := by
      unfold Block.marginWord Block.margin Block.freeBits
      by_cases two : b.length + 1 = b.address.family.width
      · rw [if_pos two, if_neg (by omega)]
        rfl
      · rw [if_neg two, if_pos (by omega)]
        rfl
    obtain ⟨noOverflow, firstValue⟩ := b.firstUsable_eq_word
    obtain ⟨noUnderflow, lastValue⟩ := b.lastUsable_eq_word
    exact ⟨b.firstUsable, b.lastUsable, text, rfl, rfl, b.firstUsable_le_lastUsable,
      fun _ => (Block.isUsable_iff short).symm, margin, noOverflow, noUnderflow, firstValue,
      lastValue⟩
  · intro a other
    rcases a.writeRange_cases with plain | ⟨b, rfl, proper, -⟩
    · exact congrArg String.ofList plain
    · obtain ⟨short, start⟩ := Block.isProper_iff.mp proper
      exact absurd ⟨short, Block.firstWord_eq_word_iff.mpr start⟩ (other b rfl)

/-- The whole first family, the last two addresses of the second, and an address on its subnet. -/
theorem range_holds_usable_at_the_ends :
    let whole : Block := ⟨⟨.v4, 0, by decide⟩, 0, by decide⟩
    let top : Block := ⟨⟨.v6, 2 ^ 128 - 2, by decide⟩, 127, by decide⟩
    let member : Block := ⟨⟨.v4, 5, by decide⟩, 24, by decide⟩
    (whole.length < 32 ∧ whole.firstWord = whole.word ∧
      ∀ x : Ip, (x.family = .v4 ∧ 1 ≤ x.value ∧ x.value ≤ 2 ^ 32 - 2) ↔ whole.IsUsable x) ∧
    (top.length < 128 ∧ top.firstWord = top.word ∧
      ∀ x : Ip, (x.family = .v6 ∧ 2 ^ 128 - 2 ≤ x.value ∧ x.value ≤ 2 ^ 128 - 1) ↔
        top.IsUsable x) ∧
    member.firstWord ≠ member.word ∧ (network member).rangeText = (network member).text := by
  intro whole top member
  have start : whole.firstWord = whole.word := by decide
  have start' : top.firstWord = top.word := by decide
  have inside : member.firstWord ≠ member.word := by decide
  obtain ⟨first, last, -, -, -, -, usable, -, -, -, low, high⟩ :=
    range_holds_usable.1 whole (by decide) start
  obtain ⟨first', last', -, -, -, -, usable', -, -, -, low', high'⟩ :=
    range_holds_usable.1 top (by decide) start'
  have ends : (whole.firstWord + whole.marginWord).toNat = 1 ∧
      (whole.lastWord - whole.marginWord).toNat = 2 ^ 32 - 2 := by decide
  have ends' : (top.firstWord + top.marginWord).toNat = 2 ^ 128 - 2 ∧
      (top.lastWord - top.marginWord).toNat = 2 ^ 128 - 1 := by decide
  rw [low, high, ends.1, ends.2] at usable
  rw [low', high', ends'.1, ends'.2] at usable'
  refine ⟨⟨by decide, start, usable⟩, ⟨by decide, start', usable'⟩, inside, ?_⟩
  apply range_holds_usable.2
  rintro b same ⟨-, start⟩
  cases same
  exact inside start

end Address

end AddressExpansion
