import AddressExpansion.Proofs.Expansion.Unfolding
import AddressExpansion.Proofs.Term.Fault

/-! # The grammar of terms

Which values are terms, which of them are the same term, and how a term is written as a value.
Reading accepts exactly the grammar and tells apart all that the grammar does; of what it refuses
it reports the first fault.
-/

namespace AddressExpansion

/-! ## Values that are terms -/

/-- Whether a value is a string, a list of terms, or a record of a term with a comment that is
    absent, null or a string. -/
inductive IsTerm : Json.Value → Prop
  | token (s : String) : IsTerm (.string s)
  | list {items : List Json.Value} : (∀ item ∈ items, IsTerm item) → IsTerm (.array items)
  | record {fields : List (String × Json.Value)} {ip : Json.Value} :
      fields.lookup "ip" = some ip → IsTerm ip →
      (fields.lookup "comment" = none ∨ fields.lookup "comment" = some .null ∨
        ∃ s, fields.lookup "comment" = some (.string s)) →
      IsTerm (.object fields)

/-- The comment that a record gives. Null stands for none. -/
def givenComment (fields : List (String × Json.Value)) : Option Json.Value :=
  match fields.lookup "comment" with
  | some .null => none
  | found => found

/-- Whether two values differ only in fields of records that are neither `ip` nor `comment`, and
    in comments that are null in one and absent in the other. -/
inductive Alike : Json.Value → Json.Value → Prop
  | token (s : String) : Alike (.string s) (.string s)
  | list {items items' : List Json.Value} : List.Forall₂ Alike items items' →
      Alike (.array items) (.array items')
  | record {fields fields' : List (String × Json.Value)} {ip ip' : Json.Value} :
      fields.lookup "ip" = some ip → fields'.lookup "ip" = some ip' → Alike ip ip' →
      givenComment fields = givenComment fields' → Alike (.object fields) (.object fields')

mutual

def Term.toValue : Term → Json.Value
  | .literal token => .string token
  | .record ip none => .object [("ip", ip.toValue)]
  | .record ip (some comment) => .object [("comment", .string comment), ("ip", ip.toValue)]
  | .list items => .array (Term.toValues items)

def Term.toValues : List Term → List Json.Value
  | [] => []
  | item :: items => item.toValue :: Term.toValues items

end

/-! ## Reading -/

theorem Term.readComment_eq_ok {fields : List (String × Json.Value)} {comment : Option String} :
    Term.readComment fields = .ok comment ↔ givenComment fields = comment.map .string := by
  unfold Term.readComment givenComment
  cases fields.lookup "comment" with
  | none => cases comment <;> simp
  | some found => cases found <;> cases comment <;> simp

theorem exists_givenComment {fields : List (String × Json.Value)} :
    (∃ comment : Option String, givenComment fields = comment.map .string) ↔
      (fields.lookup "comment" = none ∨ fields.lookup "comment" = some .null ∨
        ∃ s, fields.lookup "comment" = some (.string s)) := by
  unfold givenComment
  cases fields.lookup "comment" with
  | none => simp
  | some found => cases found <;> simp

/-- What a value that is read as a term looks like. -/
theorem Term.ofValue_eq_ok {value : Json.Value} {term : Term} : Term.ofValue value = .ok term ↔
    (∃ s, value = .string s ∧ term = .literal s) ∨
    (∃ items terms, value = .array items ∧
      List.Forall₂ (fun item term => Term.ofValue item = .ok term) items terms ∧
      term = .list terms) ∨
    ∃ fields inner ip comment, value = .object fields ∧ fields.lookup "ip" = some inner ∧
      Term.ofValue inner = .ok ip ∧ givenComment fields = comment.map .string ∧
      term = .record ip comment := by
  cases value with
  | null | bool | number => simp [Term.ofValue]
  | string s => simp [Term.ofValue, eq_comm]
  | array items => simp [Term.ofValue_array]
  | object fields =>
      cases field : fields.lookup "ip" with
      | none =>
          have missing := Term.ofIpField_eq fields
          rw [field] at missing
          rw [Term.ofValue, missing]
          simp [field]
      | some inner =>
          have found := Term.ofIpField_eq fields
          rw [field] at found
          rw [Term.ofValue_object found]
          simp [field, Term.readComment_eq_ok]

theorem IsTerm.exists_ofValue {value : Json.Value} (accepted : IsTerm value) :
    ∃ term, Term.ofValue value = .ok term := by
  induction accepted with
  | token s => exact ⟨.literal s, rfl⟩
  | list _ each =>
      obtain ⟨terms, read⟩ := exists_forall₂.mpr each
      exact ⟨.list terms, Term.ofValue_array.mpr ⟨terms, read, rfl⟩⟩
  | @record fields inner field _ comment ih =>
      obtain ⟨ip, read⟩ := ih
      obtain ⟨comment, given⟩ := exists_givenComment.mpr comment
      exact ⟨.record ip comment, Term.ofValue_eq_ok.mpr
        (.inr (.inr ⟨fields, inner, ip, comment, rfl, field, read, given, rfl⟩))⟩

theorem Term.isTerm_of_ofValue {value : Json.Value} {term : Term}
    (read : Term.ofValue value = .ok term) : IsTerm value := by
  induction value using Json.Value.induct generalizing term with
  | null | bool | number => cases read
  | string s => exact .token s
  | array items each =>
      obtain ⟨terms, read, -⟩ := Term.ofValue_array.mp read
      refine .list fun item member => ?_
      obtain ⟨term, same⟩ := exists_forall₂.mp ⟨terms, read⟩ item member
      exact each item member same
  | object fields each =>
      obtain ⟨_, h, -⟩ | ⟨_, _, h, -⟩ | ⟨_, inner, ip, comment, same, field, read, given, -⟩ :=
        Term.ofValue_eq_ok.mp read
      · cases h
      · cases h
      · cases same
        exact .record field (each _ (Table.mem_of_find? field) read)
          (exists_givenComment.mp ⟨_, given⟩)

theorem isTerm_iff {value : Json.Value} :
    IsTerm value ↔ ∃ term, Term.ofValue value = .ok term :=
  ⟨IsTerm.exists_ofValue, fun ⟨_, read⟩ => Term.isTerm_of_ofValue read⟩

theorem exists_first_malformed {items : List Json.Value} (wrong : ∃ item ∈ items, ¬ IsTerm item) :
    ∃ front item back fault, items = front ++ item :: back ∧ (∀ item ∈ front, IsTerm item) ∧
      ¬ IsTerm item ∧ Term.ofValue item = .error fault := by
  rcases exists_first_unread items with all | ⟨front, item, back, fault, rfl, earlier, unread⟩
  · obtain ⟨item, member, bad⟩ := wrong
    exact absurd (isTerm_iff.mpr (all item member)) bad
  · refine ⟨front, item, back, fault, rfl, fun item member => isTerm_iff.mpr (earlier item member),
      fun accepted => ?_, unread⟩
    obtain ⟨term, read⟩ := accepted.exists_ofValue
    rw [read] at unread
    cases unread

/-! ## The same term -/

theorem forall₂_through {α β γ : Type} {R : α → β → Prop} {S : β → γ → Prop} {T : α → γ → Prop}
    {xs : List α} {ys : List β} {zs : List γ} (left : List.Forall₂ R xs ys)
    (right : List.Forall₂ S ys zs) (each : ∀ x y z, R x y → S y z → T x z) :
    List.Forall₂ T xs zs := by
  induction left generalizing zs with
  | nil =>
      cases right
      exact .nil
  | cons first _ ih =>
      cases right with
      | cons first' rest => exact .cons (each _ _ _ first first') (ih rest)

theorem Alike.of_ofValue {value value' : Json.Value} {term : Term}
    (read : Term.ofValue value = .ok term) (read' : Term.ofValue value' = .ok term) :
    Alike value value' := by
  induction value using Json.Value.induct generalizing value' term with
  | null | bool | number => cases read
  | string s =>
      cases read
      obtain ⟨_, rfl, same⟩ | ⟨_, _, -, -, same⟩ | ⟨_, _, _, _, -, -, -, -, same⟩ :=
        Term.ofValue_eq_ok.mp read'
      · cases same
        exact .token s
      · cases same
      · cases same
  | array items each =>
      obtain ⟨terms, entries, rfl⟩ := Term.ofValue_array.mp read
      obtain ⟨_, -, same⟩ | ⟨items', _, rfl, entries', same⟩ | ⟨_, _, _, _, -, -, -, -, same⟩ :=
        Term.ofValue_eq_ok.mp read'
      · cases same
      · cases same
        -- The induction hypothesis goes with the items on the left.
        have inside := (List.forall₂_and_left items terms).mpr ⟨each, entries⟩
        exact .list (forall₂_through inside entries'.flip fun _ _ _ left read => left.1 left.2 read)
      · cases same
  | object fields each =>
      obtain ⟨_, h, -⟩ | ⟨_, _, h, -⟩ | ⟨_, inner, ip, comment, same, field, inside, given, rfl⟩ :=
        Term.ofValue_eq_ok.mp read
      · cases h
      · cases h
      cases same
      obtain ⟨_, -, same⟩ | ⟨_, _, -, -, same⟩ |
        ⟨fields', inner', _, _, rfl, field', inside', given', same⟩ := Term.ofValue_eq_ok.mp read'
      · cases same
      · cases same
      · cases same
        exact .record field field' (each _ (Table.mem_of_find? field) inside inside')
          (given.trans given'.symm)

theorem Alike.ofValue_eq_ok {value value' : Json.Value} {term : Term} (alike : Alike value value')
    (read : Term.ofValue value = .ok term) : Term.ofValue value' = .ok term := by
  induction value using Json.Value.induct generalizing value' term with
  | null | bool | number => cases read
  | string s =>
      cases alike
      exact read
  | array items each =>
      obtain ⟨terms, entries, rfl⟩ := Term.ofValue_array.mp read
      cases alike with
      | list alike =>
          have inside := (List.forall₂_and_left items terms).mpr ⟨each, entries⟩
          exact Term.ofValue_array.mpr ⟨terms, forall₂_through alike.flip inside
            fun _ _ _ alike right => right.1 alike right.2, rfl⟩
  | object fields each =>
      obtain ⟨_, h, -⟩ | ⟨_, _, h, -⟩ | ⟨_, inner, ip, comment, same, field, inside, given, rfl⟩ :=
        Term.ofValue_eq_ok.mp read
      · cases h
      · cases h
      cases same
      cases alike with
      | @record _ fields' first inner' here field' alike comments =>
          obtain rfl := Option.some.inj (here.symm.trans field)
          exact Term.ofValue_eq_ok.mpr (.inr (.inr ⟨fields', inner', ip, comment, rfl, field',
            each _ (Table.mem_of_find? field) alike inside, comments ▸ given, rfl⟩))

namespace Term

theorem toValues_eq_map (items : List Term) : toValues items = items.map toValue := by
  induction items with
  | nil => rfl
  | cons item items ih => rw [toValues, ih, List.map_cons]

theorem ofValue_toValue (term : Term) : ofValue term.toValue = .ok term := by
  induction term using Term.induct with
  | literal token => rfl
  | record ip comment read =>
      cases comment with
      | none =>
          exact ofValue_eq_ok.mpr (.inr (.inr ⟨_, _, ip, none, rfl, rfl, read, rfl, rfl⟩))
      | some comment =>
          exact ofValue_eq_ok.mpr (.inr (.inr ⟨_, _, ip, some comment, rfl, rfl, read, rfl, rfl⟩))
  | list items each =>
      rw [toValue, toValues_eq_map]
      refine ofValue_array.mpr ⟨items, ?_, rfl⟩
      rw [List.forall₂_map_left_iff, List.forall₂_same]
      exact each

/-- Reading accepts exactly the grammar of terms and locates the first fault. A value is read
    exactly if it is in the grammar, and every term is read from its own value; two values are
    read as the same term exactly if they differ in unknown fields of records, and in comments that
    are null in one and absent in the other, alone. A fault is reported exactly if it is the first
    one in the value: its path, which its text determines, leads to a place where its problem
    is, and every other fault comes after it. -/
theorem reads_grammar :
    (∀ value, (∃ term, ofValue value = .ok term) ↔ IsTerm value) ∧
    (∀ term, ofValue term.toValue = .ok term) ∧
    (∀ value value', (∃ term, ofValue value = .ok term ∧ ofValue value' = .ok term) ↔
      IsTerm value ∧ Alike value value') ∧
    (∀ value fault, ofValue value = .error fault ↔ fault.IsFirstIn value) ∧
    ∀ fault other : Fault, fault.pathText = other.pathText ↔ fault.path = other.path := by
  refine ⟨fun _ => isTerm_iff.symm, ofValue_toValue, fun value value' => ⟨?_, ?_⟩,
    fun _ _ => ofValue_eq_error, fun _ _ => Fault.pathText_inj⟩
  · rintro ⟨term, read, read'⟩
    exact ⟨isTerm_of_ofValue read, .of_ofValue read read'⟩
  · rintro ⟨accepted, alike⟩
    obtain ⟨term, read⟩ := accepted.exists_ofValue
    exact ⟨term, read, alike.ofValue_eq_ok read⟩

end Term

end AddressExpansion
