import Mathlib.Data.List.Forall2
import AddressExpansion.Run

/-! # Reading lists of terms

A list is read if each of its items is, wherever it stands; where an item stands shows only in the
fault that is reported for it. So the items of an invocation are read like one list of them.
-/

namespace AddressExpansion

theorem exists_of_forall₂_middle {α β : Type} {R : α → β → Prop} {front back : List α} {a : α}
    {others : List β} (each : List.Forall₂ R (front ++ a :: back) others) :
    ∃ front' b back', others = front' ++ b :: back' ∧ List.Forall₂ R front front' ∧ R a b ∧
      List.Forall₂ R back back' := by
  induction front generalizing others with
  | nil =>
      obtain ⟨b, back', here, rest, rfl⟩ := List.forall₂_cons_left_iff.mp each
      exact ⟨[], b, back', rfl, .nil, here, rest⟩
  | cons c front ih =>
      obtain ⟨c', others', first, rest, rfl⟩ := List.forall₂_cons_left_iff.mp each
      obtain ⟨front', b, back', rfl, before, here, after⟩ := ih rest
      exact ⟨c' :: front', b, back', rfl, .cons first before, here, after⟩

theorem exists_forall₂ {α β : Type} {R : α → β → Prop} {xs : List α} :
    (∃ ys, List.Forall₂ R xs ys) ↔ ∀ x ∈ xs, ∃ y, R x y := by
  induction xs with
  | nil => exact ⟨fun _ => nofun, fun _ => ⟨[], .nil⟩⟩
  | cons x xs ih =>
      rw [List.forall_mem_cons, ← ih]
      constructor
      · rintro ⟨_, each⟩
        obtain ⟨y, ys, first, rest, -⟩ := List.forall₂_cons_left_iff.mp each
        exact ⟨⟨y, first⟩, ys, rest⟩
      · rintro ⟨⟨y, first⟩, ys, rest⟩
        exact ⟨y :: ys, .cons first rest⟩

variable {items : List Json.Value} {terms : List Term}

theorem Term.ofItems_eq_ok {index : Nat} : Term.ofItems index items = .ok terms ↔
    List.Forall₂ (fun item term => Term.ofValue item = .ok term) items terms := by
  induction items generalizing index terms with
  | nil => cases terms <;> simp [Term.ofItems]
  | cons item items ih =>
      rw [Term.ofItems, List.forall₂_cons_left_iff]
      cases read : Term.ofValue item with
      | error => simp
      | ok first =>
          cases others : Term.ofItems (index + 1) items with
          | error =>
              simp only [Except.map, reduceCtorEq, Except.ok.injEq, false_iff]
              rintro ⟨term, rest, -, each, -⟩
              rw [ih.mpr each] at others
              cases others
          | ok rest =>
              simp only [Except.map, Except.ok.injEq]
              constructor
              · rintro rfl
                exact ⟨first, rest, rfl, ih.mp others, rfl⟩
              · rintro ⟨term, rest', rfl, each, rfl⟩
                rw [Except.ok.inj (others.symm.trans (ih.mpr each))]

theorem Term.ofValue_array {term : Term} : Term.ofValue (.array items) = .ok term ↔
    ∃ terms, List.Forall₂ (fun item term => Term.ofValue item = .ok term) items terms ∧
      term = .list terms := by
  have each : ∀ terms, List.Forall₂ (fun item term => Term.ofValue item = .ok term) items terms ↔
      Term.ofItems 0 items = .ok terms := fun _ => Term.ofItems_eq_ok.symm
  simp only [each]
  rw [Term.ofValue]
  cases Term.ofItems 0 items <;> simp [Except.map, eq_comm]

/-- Either all items of a list are read, or some item is the first that is not. -/
theorem exists_first_unread (items : List Json.Value) :
    (∀ item ∈ items, ∃ term, Term.ofValue item = .ok term) ∨
    ∃ front item back fault, items = front ++ item :: back ∧
      (∀ item ∈ front, ∃ term, Term.ofValue item = .ok term) ∧
      Term.ofValue item = .error fault := by
  induction items with
  | nil => exact .inl nofun
  | cons item items ih =>
      cases read : Term.ofValue item with
      | error fault => exact .inr ⟨[], item, items, fault, rfl, nofun, read⟩
      | ok term =>
          rcases ih with all | ⟨front, item', back, fault, rfl, earlier, unread⟩
          · exact .inl (List.forall_mem_cons.mpr ⟨⟨term, read⟩, all⟩)
          · exact .inr ⟨item :: front, item', back, fault, rfl,
              List.forall_mem_cons.mpr ⟨⟨term, read⟩, earlier⟩, unread⟩

theorem Term.ofItems_of_unread {index : Nat} {front back : List Json.Value} {item : Json.Value}
    {fault : Fault} (earlier : ∀ item ∈ front, ∃ term, Term.ofValue item = .ok term)
    (unread : Term.ofValue item = .error fault) :
    Term.ofItems index (front ++ item :: back) =
      .error (fault.below (.item (index + front.length))) := by
  induction front generalizing index with
  | nil =>
      rw [List.nil_append, Term.ofItems, unread]
      rfl
  | cons first front ih =>
      obtain ⟨⟨term, read⟩, others⟩ := List.forall_mem_cons.mp earlier
      rw [List.cons_append, Term.ofItems, read, ih others, List.length_cons, Nat.add_right_comm,
        Nat.add_assoc]
      rfl

theorem parseItems_of_unread {front back : List Json.Value} {item : Json.Value} {fault : Fault}
    (earlier : ∀ item ∈ front, ∃ term, Term.ofValue item = .ok term)
    (unread : Term.ofValue item = .error fault) :
    parseItems (front ++ item :: back) = .error (.malformedItem front.length fault) := by
  have each : ∀ index, parseItems.go index (front ++ item :: back) =
      .error (.malformedItem (index + front.length) fault) := by
    induction front with
    | nil =>
        intro index
        rw [List.nil_append, parseItems.go, unread]
        rfl
    | cons first front ih =>
        intro index
        obtain ⟨⟨term, read⟩, others⟩ := List.forall_mem_cons.mp earlier
        rw [List.cons_append, parseItems.go, read, ih others, List.length_cons, Nat.add_right_comm,
          Nat.add_assoc]
        rfl
  rw [parseItems, each, Nat.zero_add]

theorem parseItems_eq_ok : parseItems items = .ok terms ↔
    List.Forall₂ (fun item term => Term.ofValue item = .ok term) items terms := by
  have each : ∀ index, parseItems.go index items = .ok terms ↔
      Term.ofItems index items = .ok terms := by
    induction items generalizing terms with
    | nil => exact fun _ => by simp [parseItems.go, Term.ofItems]
    | cons item items ih =>
        intro index
        rw [parseItems.go, Term.ofItems]
        cases Term.ofValue item with
        | error => simp
        | ok first =>
            have same : ∀ rest, parseItems.go (index + 1) items = .ok rest ↔
                Term.ofItems (index + 1) items = .ok rest := fun rest => ih (index + 1)
            cases read : parseItems.go (index + 1) items with
            | ok rest => simp [(same rest).mp read, Except.map]
            | error =>
                cases others : Term.ofItems (index + 1) items with
                | error => simp [Except.map]
                | ok rest =>
                    rw [(same rest).mpr others] at read
                    cases read
  exact (each 0).trans Term.ofItems_eq_ok

theorem Term.ofIpField_eq (fields : List (String × Json.Value)) :
    Term.ofIpField fields = (fields.lookup "ip").map Term.ofValue := by
  induction fields with
  | nil => rfl
  | cons field fields ih =>
      obtain ⟨name, value⟩ := field
      rw [Term.ofIpField, List.lookup_cons, ih]
      by_cases same : name = "ip"
      · subst same
        rfl
      · rw [if_neg same, beq_false_of_ne (Ne.symm same)]

theorem Term.ofIpField_append {front back : List (String × Json.Value)} {value : Json.Value}
    (first : ∀ field ∈ front, field.1 ≠ "ip") :
    Term.ofIpField (front ++ ("ip", value) :: back) = some (Term.ofValue value) := by
  induction front with
  | nil => rw [List.nil_append, Term.ofIpField, if_pos rfl]
  | cons field front ih =>
      rw [List.forall_mem_cons] at first
      rw [List.cons_append, Term.ofIpField, if_neg first.1, ih first.2]

theorem Term.readComment_append (front back : List (String × Json.Value))
    (value value' : Json.Value) : Term.readComment (front ++ ("ip", value) :: back) =
      Term.readComment (front ++ ("ip", value') :: back) := by
  have same : (front ++ ("ip", value) :: back).lookup "comment" =
      (front ++ ("ip", value') :: back).lookup "comment" := by
    induction front with
    | nil => rfl
    | cons field front ih =>
        rw [List.cons_append, List.cons_append, List.lookup_cons, List.lookup_cons, ih]
  unfold Term.readComment
  rw [same]

theorem Term.ofValue_object {fields : List (String × Json.Value)} {value : Json.Value} {term : Term}
    (field : Term.ofIpField fields = some (Term.ofValue value)) :
    Term.ofValue (.object fields) = .ok term ↔ ∃ ip comment, Term.ofValue value = .ok ip ∧
      Term.readComment fields = .ok comment ∧ term = .record ip comment := by
  rw [Term.ofValue, field]
  cases Term.ofValue value with
  | error => simp
  | ok ip => cases Term.readComment fields <;> simp [Except.map, eq_comm]

end AddressExpansion
