import AddressExpansion.Atom

/-! # First occurrences

Dropping repeated entries first inside the pieces of a list and then in the whole gives what one
pass over the whole gives.
-/

namespace AddressExpansion

variable {α : Type} [DecidableEq α]

@[simp] theorem distinct_nil : distinct ([] : List α) = [] := rfl

theorem distinct_cons (a : α) (as : List α) :
    distinct (a :: as) = a :: (distinct as).filter (· ≠ a) := rfl

@[simp] theorem distinct_eq_nil {as : List α} : distinct as = [] ↔ as = [] := by
  cases as <;> simp [distinct_cons]

theorem distinct_filter (p : α → Bool) (as : List α) :
    distinct (as.filter p) = (distinct as).filter p := by
  induction as with
  | nil => rfl
  | cons a as ih =>
      by_cases keep : p a
      · simp only [List.filter_cons_of_pos keep, distinct_cons, ih, List.filter_filter,
          Bool.and_comm]
      · have others : ((distinct as).filter (· ≠ a)).filter p = (distinct as).filter p := by
          rw [List.filter_filter]
          apply List.filter_congr
          intro b _
          by_cases same : b = a <;> simp [same, keep]
        rw [List.filter_cons_of_neg keep, distinct_cons, List.filter_cons_of_neg keep, others, ih]

theorem distinct_append (as bs : List α) :
    distinct (as ++ bs) = distinct as ++ (distinct bs).filter (· ∉ as) := by
  induction as with
  | nil => simp only [List.nil_append, distinct_nil, List.not_mem_nil, not_false_eq_true,
      decide_true, List.filter_eq_self.mpr fun _ _ => rfl]
  | cons a as ih =>
      simp only [List.cons_append, distinct_cons, ih, List.filter_append, List.filter_filter]
      congr 2
      apply List.filter_congr
      intro b _
      by_cases same : b = a <;> simp [same]

@[simp] theorem distinct_distinct (as : List α) : distinct (distinct as) = distinct as := by
  induction as with
  | nil => rfl
  | cons a as ih =>
      rw [distinct_cons, distinct_cons, distinct_filter, ih, List.filter_filter]
      simp

theorem mem_iff_of_distinct_eq {as bs : List α} (same : distinct as = distinct bs) (a : α) :
    a ∈ as ↔ a ∈ bs := by
  rw [← mem_distinct, same, mem_distinct]

theorem distinct_append_congr {as as' bs bs' : List α} (front : distinct as = distinct as')
    (back : distinct bs = distinct bs') : distinct (as ++ bs) = distinct (as' ++ bs') := by
  simp only [distinct_append, front, back, mem_iff_of_distinct_eq front]

theorem distinct_of_nodup {as : List α} (nodup : as.Nodup) : distinct as = as := by
  induction as with
  | nil => rfl
  | cons a as ih =>
      obtain ⟨absent, nodup⟩ := List.nodup_cons.mp nodup
      rw [distinct_cons, ih nodup, List.filter_eq_self.mpr]
      intro b member
      simpa using fun same : b = a => absent (same ▸ member)

theorem distinct_map {β : Type} [DecidableEq β] {f : α → β}
    (apart : Function.Injective f) (as : List α) : distinct (as.map f) = (distinct as).map f := by
  induction as with
  | nil => rfl
  | cons a as ih =>
      rw [List.map_cons, distinct_cons, ih, distinct_cons, List.map_cons, List.filter_map]
      congr 2
      apply List.filter_congr
      intro b _
      simp [apart.eq_iff]

namespace Atom

@[simp] theorem addressesOf_nil : addressesOf [] = [] := rfl

@[simp] theorem addressesOf_cons (atom : Atom) (atoms : List Atom) :
    addressesOf (atom :: atoms) = atom.addresses ++ addressesOf atoms := rfl

@[simp] theorem addressesOf_append (front back : List Atom) :
    addressesOf (front ++ back) = addressesOf front ++ addressesOf back :=
  List.flatMap_append

/-- An atom holds the distinct ones of the addresses that it is made of. -/
theorem addressesOf_ofAddresses? (addresses : List Address) (comment : Option String) :
    addressesOf (ofAddresses? addresses comment).toList = distinct addresses := by
  unfold ofAddresses?
  split
  case isTrue empty => simp [empty]
  case isFalse => simp

theorem ofAddresses?_eq_none {addresses : List Address} {comment : Option String} :
    ofAddresses? addresses comment = none ↔ addresses = [] := by
  unfold ofAddresses?
  split
  case isTrue empty => simpa using empty
  case isFalse some => simpa using some

theorem addressesOf_gather? (atoms : List Atom) (comment : Option String) :
    addressesOf (gather? atoms comment).toList = distinct (addressesOf atoms) :=
  addressesOf_ofAddresses? ..

theorem gather?_eq_none {atoms : List Atom} {comment : Option String} :
    gather? atoms comment = none ↔ addressesOf atoms = [] :=
  ofAddresses?_eq_none

end Atom

end AddressExpansion
