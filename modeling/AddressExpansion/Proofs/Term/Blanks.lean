import AddressExpansion.Proofs.Expansion.Unfolding
import AddressExpansion.Proofs.Term.Fault
import AddressExpansion.Proofs.Text

/-! # Blanks around tokens

A value may be written with other blanks around its tokens: around strings in the place of terms, at
any depth. What is read from it then differs in nothing but those tokens, and a fault in it is the
same.
-/

namespace AddressExpansion

/-- Whether two texts are the same without the blanks around them. -/
def SameTrimmed (s s' : String) : Prop :=
  Text.trim s = Text.trim s'

/-- Whether two values are the same but for blanks around strings in the place of terms. Names of
    fields, comments and whatever is not part of a term are the same. -/
inductive Json.Value.Respaced : Json.Value → Json.Value → Prop
  | refl (value : Json.Value) : Respaced value value
  | token {s s' : String} : SameTrimmed s s' → Respaced (.string s) (.string s')
  | list {items items' : List Json.Value} : List.Forall₂ Respaced items items' →
      Respaced (.array items) (.array items')
  | record {front back : List (String × Json.Value)} {ip ip' : Json.Value} :
      (∀ field ∈ front, field.1 ≠ "ip") → Respaced ip ip' →
      Respaced (.object (front ++ ("ip", ip) :: back)) (.object (front ++ ("ip", ip') :: back))

namespace Term

/-- Whether two terms are the same but for blanks around their tokens. -/
inductive Respaced : Term → Term → Prop
  | literal {token token' : String} : SameTrimmed token token' →
      Respaced (.literal token) (.literal token')
  | record {ip ip' : Term} {comment : Option String} : Respaced ip ip' →
      Respaced (.record ip comment) (.record ip' comment)
  | list {items items' : List Term} : List.Forall₂ Respaced items items' →
      Respaced (.list items) (.list items')

theorem Respaced.refl (term : Term) : term.Respaced term := by
  induction term using Term.induct with
  | literal => exact .literal rfl
  | record _ _ ih => exact .record ih
  | list items ih => exact .list (List.forall₂_same.mpr ih)

end Term

/-- Whether two readings failed in the same way, or gave related results. -/
inductive Reading.Same {ε α : Type} (R : α → α → Prop) : Except ε α → Except ε α → Prop
  | error (failure : ε) : Same R (.error failure) (.error failure)
  | ok {a a' : α} : R a a' → Same R (.ok a) (.ok a')

namespace Reading.Same

variable {ε ε' α β : Type} {R : α → α → Prop} {S : β → β → Prop} {x x' : Except ε α}

theorem refl (each : ∀ a, R a a) (x : Except ε α) : Same R x x := by
  cases x with
  | error failure => exact .error failure
  | ok a => exact .ok (each a)

theorem map {f g : α → β} (same : Same R x x') (mapped : ∀ {a a'}, R a a' → S (f a) (g a')) :
    Same S (x.map f) (x'.map g) := by
  cases same with
  | error failure => exact .error failure
  | ok related => exact .ok (mapped related)

theorem mapError (f : ε → ε') (same : Same R x x') : Same R (x.mapError f) (x'.mapError f) := by
  cases same with
  | error failure => exact .error (f failure)
  | ok related => exact .ok related

end Reading.Same

open Reading

/-! ## Reading -/

namespace Json.Value

theorem same_ofItems {items items' : List Json.Value} (index : Nat)
    (each : List.Forall₂ (fun item item' =>
      Same Term.Respaced (Term.ofValue item) (Term.ofValue item')) items items') :
    Same (List.Forall₂ Term.Respaced) (Term.ofItems index items) (Term.ofItems index items') := by
  induction each generalizing index with
  | nil => exact .ok .nil
  | @cons item item' items items' first _ ih =>
      rw [Term.ofItems, Term.ofItems]
      generalize Term.ofValue item = read, Term.ofValue item' = read' at first ⊢
      cases first with
      | error => exact .error _
      | ok related => exact (ih (index + 1)).map fun rest => .cons related rest

/-- A value is read in the same way with other blanks around its tokens. -/
theorem Respaced.same_ofValue {value value' : Json.Value} (respaced : value.Respaced value') :
    Same Term.Respaced (Term.ofValue value) (Term.ofValue value') := by
  induction value using Json.Value.induct generalizing value' with
  | null | bool | number =>
      cases respaced
      exact .refl Term.Respaced.refl _
  | string s =>
      cases respaced with
      | refl => exact .refl Term.Respaced.refl _
      | token same => exact .ok (.literal same)
  | array items each =>
      cases respaced with
      | refl => exact .refl Term.Respaced.refl _
      | list inside =>
          have read := (List.forall₂_and_left items _).mpr ⟨each, inside⟩
          exact (same_ofItems 0 (read.imp fun _ _ both => both.1 both.2)).map Term.Respaced.list
  | object fields each =>
      cases respaced with
      | refl => exact .refl Term.Respaced.refl _
      | @record front back ip ip' first inside =>
          have read := each ("ip", ip) (List.mem_append_right _ List.mem_cons_self) inside
          rw [Term.ofValue, Term.ofValue, Term.ofIpField_append first, Term.ofIpField_append first,
            Term.readComment_append front back ip ip']
          generalize Term.ofValue ip = read, Term.ofValue ip' = read' at read ⊢
          cases read with
          | error => exact .error _
          | ok related =>
              exact (Same.refl (fun _ => rfl) _).map fun same => same ▸ .record related

end Json.Value

theorem same_parseItems {items items' : List Json.Value}
    (respaced : List.Forall₂ Json.Value.Respaced items items') :
    Same (List.Forall₂ Term.Respaced) (parseItems items) (parseItems items') := by
  have each : ∀ index, Same (List.Forall₂ Term.Respaced) (parseItems.go index items)
      (parseItems.go index items') := by
    induction respaced with
    | nil => exact fun _ => .ok .nil
    | @cons item item' items items' first _ ih =>
        intro index
        have read := first.same_ofValue
        rw [parseItems.go, parseItems.go]
        generalize Term.ofValue item = read, Term.ofValue item' = read' at read ⊢
        cases read with
        | error => exact .error _
        | ok related => exact (ih (index + 1)).map fun rest => .cons related rest
  exact each 0

end AddressExpansion
