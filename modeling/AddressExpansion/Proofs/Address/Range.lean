import Mathlib.Data.List.Nodup
import AddressExpansion.Proofs.Address.Canonical
import AddressExpansion.Rendered

/-! # Usable ranges stand for their blocks

A literal is known by its usable range. Blocks of different sizes can have equally many usable
addresses, two of each, but blocks start at even addresses, so the parity of the first usable
address tells whether the ends were left out.
-/

namespace AddressExpansion

/-! ## Ends of a block -/

namespace Block

variable {a b : Block}

theorem isProper_iff :
    b.isProper = true ↔ b.length < b.address.family.width ∧ b.address.value = b.firstValue := by
  simp [isProper]

theorem two_dvd_firstValue (short : b.length < b.address.family.width) : 2 ∣ b.firstValue := by
  have free : b.freeBits ≠ 0 := Nat.sub_ne_zero_of_lt short
  exact (dvd_pow_self 2 free).trans (Nat.dvd_mul_left b.size (b.address.value / b.size))

theorem margin_le_one (b : Block) : b.margin ≤ 1 := by
  unfold margin
  split <;> omega

/-- The ends of a block are left out exactly if its first usable address is odd. -/
theorem firstUsable_mod_two (short : b.length < b.address.family.width) :
    b.firstUsable.value % 2 = b.margin := by
  have even := two_dvd_firstValue short
  have small := b.margin_le_one
  change (b.firstValue + b.margin) % 2 = b.margin
  omega

theorem lastUsable_add (b : Block) :
    b.lastUsable.value + 2 * b.margin + 1 = b.firstUsable.value + b.size := by
  have room := b.two_mul_margin_lt_size
  change b.firstValue + (b.size - 1) - b.margin + 2 * b.margin + 1 =
    b.firstValue + b.margin + b.size
  omega

theorem freeBits_eq_of_size_eq (size : a.size = b.size) : a.freeBits = b.freeBits :=
  Nat.pow_right_injective (Nat.le_refl 2) size

/-- A block written by its first address is known by its first and last usable address. -/
theorem eq_of_usable_eq (proper : a.isProper) (proper' : b.isProper)
    (first : a.firstUsable = b.firstUsable) (last : a.lastUsable = b.lastUsable) : a = b := by
  obtain ⟨short, start⟩ := isProper_iff.mp proper
  obtain ⟨short', start'⟩ := isProper_iff.mp proper'
  have family : a.firstUsable.family = b.firstUsable.family := congrArg Ip.family first
  change a.address.family = b.address.family at family
  have margin : a.margin = b.margin := by
    rw [← firstUsable_mod_two short, ← firstUsable_mod_two short', first]
  have size : a.size = b.size := by
    have whole := a.lastUsable_add
    have whole' := b.lastUsable_add
    rw [first, last, margin] at whole
    omega
  have length : a.length = b.length := by
    have free := freeBits_eq_of_size_eq size
    have width := congrArg Family.width family
    unfold freeBits at free
    omega
  have value : a.address.value = b.address.value := by
    have same : a.firstValue + a.margin = b.firstValue + b.margin := congrArg Ip.value first
    omega
  obtain ⟨⟨family_a, value_a, _⟩, length_a, _⟩ := a
  obtain ⟨⟨family_b, value_b, _⟩, length_b, _⟩ := b
  subst family value length
  rfl

end Block

/-! ## Texts -/

theorem Ip.write_injective : Function.Injective Ip.write := by
  intro a b same
  have read : readIp? .plain a.write = some a := readIp?_write (by decide) a
  rw [same, readIp?_write (by decide) b] at read
  exact (Option.some.inj read).symm

theorem dash_not_isAddressChar : ¬ IsAddressChar '-' := by
  rintro (digit | same | same)
  · cases digit
  · cases same
  · cases same

theorem Ip.dash_not_mem_write {ip : Ip} : '-' ∉ ip.write :=
  fun member => dash_not_isAddressChar (char_of_mem_write _ member)

namespace Address

theorem write_injective : Function.Injective write :=
  fun _ _ same => text_injective (congrArg String.ofList same)

theorem dash_not_mem_write {a : Address} : '-' ∉ a.write := by
  intro member
  cases a with
  | host => exact Ip.dash_not_mem_write member
  | network b =>
      rcases b.char_of_mem_write _ member with inside | slash
      · exact dash_not_isAddressChar inside
      · cases slash

theorem writeRange_cases (a : Address) :
    a.writeRange = a.write ∨
      ∃ b : Block, a = .network b ∧ b.isProper ∧
        a.writeRange = b.firstUsable.write ++ '-' :: b.lastUsable.write := by
  cases a with
  | host => exact .inl rfl
  | network b =>
      by_cases proper : b.isProper
      · exact .inr ⟨b, rfl, proper, if_pos proper⟩
      · exact .inl (if_neg proper)

theorem writeRange_injective : Function.Injective writeRange := by
  intro a b same
  have dash {front back : List Char} : '-' ∈ front ++ '-' :: back :=
    List.mem_append_right _ List.mem_cons_self
  rcases a.writeRange_cases with plain | ⟨c, rfl, proper, range⟩ <;>
    rcases b.writeRange_cases with plain' | ⟨d, rfl, proper', range'⟩
  · rw [plain, plain'] at same
    exact write_injective same
  · rw [plain, range'] at same
    exact absurd (same ▸ dash) a.dash_not_mem_write
  · rw [range, plain'] at same
    exact absurd (same ▸ dash) b.dash_not_mem_write
  · rw [range, range'] at same
    have ends := congrArg (Text.splitFirst? '-') same
    rw [Text.splitFirst?_append Ip.dash_not_mem_write,
      Text.splitFirst?_append Ip.dash_not_mem_write] at ends
    obtain ⟨first, last⟩ := Prod.mk.inj (Option.some.inj ends)
    rw [Block.eq_of_usable_eq proper proper' (Ip.write_injective first) (Ip.write_injective last)]

theorem rangeText_injective : Function.Injective rangeText :=
  fun _ _ same => writeRange_injective (String.ofList_injective same)

end Address

namespace Rendered

theorem distinct_flatten (atoms : List Atom) : distinct (flatten atoms) = flatten atoms :=
  distinct_distinct _

theorem distinct_ranges (atoms : List Atom) :
    distinct ((flatten atoms).map Address.rangeText) = (flatten atoms).map Address.rangeText := by
  rw [distinct_map Address.rangeText_injective, distinct_flatten]

/-- Usable ranges lose nothing. No two literals have the same range, so a result as ranges holds
    the range of each address of the result as addresses, in their order. The ranges are distinct
    before repeated ones are dropped. -/
theorem ranges_lose_nothing :
    Function.Injective Address.rangeText ∧
    ∀ atoms : List Atom, ∃ addresses texts,
      ofAtoms atoms .ips = .ips addresses ∧ ofAtoms atoms .ranges = .ranges texts ∧
      texts = addresses.map Address.rangeText ∧ texts.Nodup ∧
      distinct (addresses.map Address.rangeText) = addresses.map Address.rangeText := by
  refine ⟨Address.rangeText_injective, fun atoms => ⟨flatten atoms,
    (flatten atoms).map Address.rangeText, rfl, ?_, rfl, ?_, distinct_ranges atoms⟩⟩
  · exact congrArg Rendered.ranges (distinct_ranges atoms)
  · exact List.Nodup.map Address.rangeText_injective (nodup_distinct _)

/-- A block of four addresses and one of two have two usable addresses each, and never the same. -/
example : (Address.rangeText <$> Address.classify "10.0.0.0/30",
    Address.rangeText <$> Address.classify "10.0.0.2/31") =
      (some "10.0.0.1-10.0.0.2", some "10.0.0.2-10.0.0.3") := by
  decide +kernel

end Rendered

end AddressExpansion
