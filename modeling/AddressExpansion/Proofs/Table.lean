import AddressExpansion.Table
import Mathlib.Data.String.Basic
import Mathlib.Tactic.SplitIfs

/-! # The order of tables

Names ascend by code point. That is the order of their bytes in UTF-8, since a smaller character
has smaller bytes where its bytes first differ from those of a larger one.
-/

namespace AddressExpansion

/-! ## Bytes -/

namespace Text

def bytes (s : String) : List UInt8 :=
  s.toUTF8.data.toList

theorem bytes_eq_flatMap (s : String) : bytes s = s.toList.flatMap String.utf8EncodeChar := by
  conv_lhs => rw [← String.ofList_toList (s := s)]
  rw [bytes, String.toUTF8_eq_toByteArray, String.toByteArray_ofList, List.utf8Encode,
    List.toList_data_toByteArray]

theorem utf8EncodeChar_append_lt {c d : Char} (less : c < d) (xs ys : List UInt8) :
    String.utf8EncodeChar c ++ xs < String.utf8EncodeChar d ++ ys := by
  have last := d.valid
  rw [Char.lt_def, UInt32.lt_iff_toNat_lt] at less
  simp only [UInt32.isValidChar, Nat.isValidChar] at last
  -- All digits to base 64 are divisions by 64, so that each is linear in the next.
  have two (n : Nat) : n / 4096 = n / 64 / 64 := by omega
  have three (n : Nat) : n / 262144 = n / 64 / 64 / 64 := by omega
  simp only [String.utf8EncodeChar, two, three]
  split_ifs <;> simp only [List.cons_append, List.nil_append, List.cons_lt_cons_iff,
    UInt8.lt_iff_toNat_lt, ← UInt8.toNat_inj, UInt8.toNat_ofNat'] <;> omega

theorem flatMap_utf8EncodeChar_lt {cs ds : List Char} (less : cs < ds) :
    cs.flatMap String.utf8EncodeChar < ds.flatMap String.utf8EncodeChar := by
  induction less with
  | @nil d _ =>
      rw [List.flatMap_nil, List.flatMap_cons]
      cases some_byte : String.utf8EncodeChar d with
      | nil => exact absurd some_byte String.utf8EncodeChar_ne_nil
      | cons => exact .nil
  | cons _ ih =>
      rw [List.flatMap_cons, List.flatMap_cons]
      exact List.append_left_lt ih
  | rel less =>
      rw [List.flatMap_cons, List.flatMap_cons]
      exact utf8EncodeChar_append_lt less _ _

/-- The order by code point is the byte order of UTF-8. -/
theorem bytes_lt_bytes {s t : String} : bytes s < bytes t ↔ s < t := by
  have mono {s t : String} (less : s < t) : bytes s < bytes t := by
    rw [bytes_eq_flatMap, bytes_eq_flatMap]
    exact flatMap_utf8EncodeChar_lt (String.lt_iff.mp less)
  refine ⟨fun less => ?_, mono⟩
  rcases lt_trichotomy s t with before | rfl | after
  · exact before
  · exact absurd less (List.lt_irrefl _)
  · exact absurd (mono after) (List.lt_asymm less)

end Text

/-! ## Entries -/

namespace Table

variable {α : Type} {table : Table α} {entries : List (String × α)} {entry : String × α}
  {name key : String} {value : α}

def Ascends (table : Table α) : Prop :=
  table.Pairwise (·.1 < ·.1)

theorem mem_of_find? (found : table.find? name = some value) : (name, value) ∈ table := by
  obtain ⟨_, _, rfl, -⟩ := List.lookup_eq_some_iff.mp found
  simp

theorem mem_insert (member : entry ∈ insert name value table) :
    entry = (name, value) ∨ entry ∈ table := by
  induction table with
  | nil => exact .inl (List.mem_singleton.mp member)
  | cons first table ih =>
      obtain ⟨key, old⟩ := first
      rw [insert] at member
      split_ifs at member
      · exact List.mem_cons.mp member
      · exact (List.mem_cons.mp member).imp_right (List.mem_cons_of_mem _)
      · rcases List.mem_cons.mp member with rfl | member
        · exact .inr List.mem_cons_self
        · exact (ih member).imp_right (List.mem_cons_of_mem _)

theorem Ascends.insert (ascends : table.Ascends) : (insert name value table).Ascends := by
  induction table with
  | nil => exact List.pairwise_singleton _ _
  | cons first table ih =>
      obtain ⟨key, old⟩ := first
      obtain ⟨above, others⟩ := List.pairwise_cons.mp ascends
      rw [Table.insert]
      split_ifs with before same
      · exact List.pairwise_cons.mpr
          ⟨List.forall_mem_cons.mpr ⟨before, fun entry member => before.trans (above entry member)⟩,
            ascends⟩
      · subst same
        exact List.pairwise_cons.mpr ⟨above, others⟩
      · have after : key < name := lt_of_le_of_ne (not_lt.mp before) (Ne.symm same)
        refine List.pairwise_cons.mpr ⟨fun entry member => ?_, ih others⟩
        rcases mem_insert member with rfl | member
        · exact after
        · exact above entry member

theorem ascends_ofEntries (entries : List (String × α)) : (ofEntries entries).Ascends := by
  have each (table : Table α) (ascends : table.Ascends) :
      Ascends (entries.foldl (fun table entry => Table.insert entry.1 entry.2 table) table) := by
    induction entries generalizing table with
    | nil => exact ascends
    | cons entry entries ih => exact ih _ ascends.insert
  exact each [] .nil

theorem Ascends.find?_eq_some (ascends : table.Ascends) :
    table.find? name = some value ↔ (name, value) ∈ table := by
  refine ⟨mem_of_find?, fun member => ?_⟩
  obtain ⟨front, back, rfl⟩ := List.append_of_mem member
  refine List.lookup_eq_some_iff.mpr ⟨front, back, rfl, fun entry earlier => ?_⟩
  have before := (List.pairwise_append.mp ascends).2.2 entry earlier _ List.mem_cons_self
  exact bne_iff_ne.mpr before.ne'

theorem find?_cons (key : String) (value : α) (table : Table α) :
    find? ((key, value) :: table) name = if name = key then some value else table.find? name := by
  rw [find?, List.lookup_cons]
  split_ifs with same
  · rw [same, beq_self_eq_true]
  · rw [beq_false_of_ne same]
    rfl

theorem find?_insert : (insert key value table).find? name =
    if name = key then some value else table.find? name := by
  induction table with
  | nil => exact find?_cons key value []
  | cons first table ih =>
      obtain ⟨here, old⟩ := first
      rw [insert]
      by_cases before : key < here
      · rw [if_pos before, find?_cons]
      rw [if_neg before]
      by_cases same : key = here
      · subst same
        rw [if_pos rfl, find?_cons, find?_cons]
        split_ifs <;> rfl
      · rw [if_neg same, find?_cons, find?_cons, ih]
        split_ifs with at_here at_key
        · exact absurd (at_key.symm.trans at_here) same
        all_goals rfl

/-- Of two entries with one name the later counts. -/
theorem find?_ofEntries (entries : List (String × α)) (name : String) :
    (ofEntries entries).find? name = entries.reverse.lookup name := by
  have each (table : Table α) :
      find? (entries.foldl (fun table entry => insert entry.1 entry.2 table) table) name =
        (entries.reverse.lookup name).or (table.find? name) := by
    induction entries generalizing table with
    | nil => rfl
    | cons entry entries ih =>
        obtain ⟨key, value⟩ := entry
        have single : [(key, value)].lookup name = if name = key then some value else none :=
          find?_cons key value []
        rw [List.foldl_cons, ih, find?_insert, List.reverse_cons, List.lookup_append,
          Option.or_assoc, single]
        split_ifs <;> rfl
  exact (each []).trans Option.or_none

end Table

end AddressExpansion
