import AddressExpansion.Proofs.Table
import AddressExpansion.Proofs.Term
import AddressExpansion.Proofs.Text

/-! # Faults in a value

A path leads from a value to a place for a term or for a comment inside it, and a value is faulty
where such a place is not filled as it should be. Faults are ordered by their paths: those of
earlier items come first, and those of the `ip` of a record before that of its comment. Reading a
value gives a term if there is no fault in it, and the first fault otherwise.
-/

namespace AddressExpansion

/-! ## Places -/

/-- What stands at the end of a path. -/
inductive Place where
  /-- A value in the place of a term. -/
  | term (value : Json.Value)
  /-- The comment of a record in the place of a term. -/
  | comment (value : Json.Value)

/-- The place that a path leads to from a value in the place of a term. -/
def Json.Value.follow? : Json.Value → List Step → Option Place
  | value, [] => some (.term value)
  | .array items, .item index :: path => items[index]?.bind (·.follow? path)
  | .object fields, .ip :: path => (fields.lookup "ip").bind (·.follow? path)
  | .object fields, .comment :: path =>
    if path = [] then (fields.lookup "comment").map .comment else none
  | _, _ => none

/-- Whether a problem is there at a place. -/
def Problem.IsAt : Problem → Place → Prop
  | .notATerm found, .term value =>
    value = found ∧ (value = .null ∨ (∃ b, value = .bool b) ∨ ∃ n, value = .number n)
  | .missingIp, .term value => ∃ fields, value = .object fields ∧ fields.lookup "ip" = none
  | .notAComment found, .comment value => value = found ∧ value ≠ .null ∧ ∀ s, value ≠ .string s
  | _, _ => False

namespace Fault

/-- Whether a fault is in a value: its path leads to a place where its problem is. -/
def IsIn (fault : Fault) (value : Json.Value) : Prop :=
  ∃ place, value.follow? fault.path = some place ∧ fault.problem.IsAt place

variable {fault : Fault} {fields : List (String × Json.Value)} {items : List Json.Value}

theorem not_isIn_string {s : String} : ¬ fault.IsIn (.string s) := by
  obtain ⟨path, problem⟩ := fault
  rintro ⟨place, leads, wrong⟩
  match path, leads with
  | [], leads =>
      cases leads
      cases problem <;> simp [Problem.IsAt] at wrong
  | step :: path, leads => cases step <;> cases leads

theorem isIn_plain {value : Json.Value}
    (plain : value = .null ∨ (∃ b, value = .bool b) ∨ ∃ n, value = .number n) :
    fault.IsIn value ↔ fault = ⟨[], .notATerm value⟩ := by
  constructor
  · obtain ⟨path, problem⟩ := fault
    rintro ⟨place, leads, wrong⟩
    match path, leads with
    | [], leads =>
        cases leads
        cases problem with
        | notATerm found =>
            obtain ⟨rfl, -⟩ := wrong
            rfl
        | missingIp =>
            obtain ⟨fields, rfl, -⟩ := wrong
            simp at plain
        | notAComment => cases wrong
    | step :: path, leads =>
        rcases plain with rfl | ⟨b, rfl⟩ | ⟨n, rfl⟩ <;> cases step <;> cases leads
  · rintro rfl
    exact ⟨.term value, rfl, rfl, plain⟩

theorem isIn_array : fault.IsIn (.array items) ↔
    ∃ (index : Nat) (item : Json.Value) (inner : Fault),
      items[index]? = some item ∧ inner.IsIn item ∧ fault = inner.below (.item index) := by
  constructor
  · obtain ⟨path, problem⟩ := fault
    rintro ⟨place, leads, wrong⟩
    match path, leads with
    | [], leads =>
        cases leads
        cases problem <;> simp [Problem.IsAt] at wrong
    | .item index :: path, leads =>
        obtain ⟨item, here, leads⟩ := Option.bind_eq_some_iff.mp leads
        exact ⟨index, item, ⟨path, problem⟩, here, ⟨place, leads, wrong⟩, rfl⟩
  · rintro ⟨index, item, inner, here, ⟨place, leads, wrong⟩, rfl⟩
    exact ⟨place, Option.bind_eq_some_iff.mpr ⟨item, here, leads⟩, wrong⟩

theorem isIn_object : fault.IsIn (.object fields) ↔
    (fields.lookup "ip" = none ∧ fault = ⟨[], .missingIp⟩) ∨
    (∃ (ip : Json.Value) (inner : Fault),
      fields.lookup "ip" = some ip ∧ inner.IsIn ip ∧ fault = inner.below .ip) ∨
    ∃ found, fields.lookup "comment" = some found ∧ (found ≠ .null ∧ ∀ s, found ≠ .string s) ∧
      fault = ⟨[.comment], .notAComment found⟩ := by
  constructor
  · obtain ⟨path, problem⟩ := fault
    rintro ⟨place, leads, wrong⟩
    match path, leads with
    | [], leads =>
        cases leads
        cases problem with
        | missingIp =>
            obtain ⟨fields, same, none⟩ := wrong
            cases same
            exact .inl ⟨none, rfl⟩
        | notATerm => simp [Problem.IsAt] at wrong
        | notAComment => cases wrong
    | .ip :: path, leads =>
        obtain ⟨ip, here, leads⟩ := Option.bind_eq_some_iff.mp leads
        exact .inr (.inl ⟨ip, ⟨path, problem⟩, here, ⟨place, leads, wrong⟩, rfl⟩)
    | .comment :: path, leads =>
        obtain ⟨rfl, leads⟩ := Option.ite_none_right_eq_some.mp leads
        obtain ⟨value, here, rfl⟩ := Option.map_eq_some_iff.mp leads
        cases problem with
        | notAComment found =>
            obtain ⟨rfl, bad⟩ := wrong
            exact .inr (.inr ⟨value, here, bad, rfl⟩)
        | notATerm | missingIp => cases wrong
  · rintro (⟨none, rfl⟩ | ⟨ip, inner, here, ⟨place, leads, wrong⟩, rfl⟩ | ⟨found, here, bad, rfl⟩)
    · exact ⟨.term (.object fields), rfl, fields, rfl, none⟩
    · exact ⟨place, Option.bind_eq_some_iff.mpr ⟨ip, here, leads⟩, wrong⟩
    · refine ⟨.comment found, ?_, rfl, bad⟩
      rw [Json.Value.follow?, if_pos rfl, here]
      rfl

end Fault

/-! ## The order of faults -/

/-- Whether one step out of a value is taken before another. -/
inductive Step.Precedes : Step → Step → Prop
  | item {index later : Nat} : index < later → Precedes (.item index) (.item later)
  | ip : Precedes .ip .comment

theorem Step.Precedes.asymm {step other : Step} (before : step.Precedes other) :
    ¬ other.Precedes step := by
  rintro after
  cases before with
  | item less =>
      cases after with
      | item greater => omega
  | ip => cases after

namespace Fault

/-- Whether one fault comes before another: where their paths part it takes the earlier step, or
    it is met on the way to the other. -/
def Precedes (fault later : Fault) : Prop :=
  List.Lex Step.Precedes fault.path later.path

/-- Whether a fault is the first in a value. -/
def IsFirstIn (fault : Fault) (value : Json.Value) : Prop :=
  fault.IsIn value ∧ ∀ other : Fault, other.IsIn value → other = fault ∨ fault.Precedes other

variable {fault other inner : Fault} {fields : List (String × Json.Value)} {items : List Json.Value}
  {value ip : Json.Value}

theorem Precedes.asymm (before : fault.Precedes other) : ¬ other.Precedes fault :=
  List.lex_asymm Step.Precedes.asymm before

theorem IsFirstIn.unique (first : fault.IsFirstIn value) (first' : other.IsFirstIn value) :
    fault = other := by
  rcases first.2 other first'.1 with same | before
  · exact same.symm
  rcases first'.2 fault first.1 with same | after
  · exact same
  · exact absurd after before.asymm

/-- The first fault of an item is the first of the list if the items before it have none. -/
theorem IsFirstIn.below_item {front back : List Json.Value} (first : inner.IsFirstIn value)
    (sound : ∀ item ∈ front, ∀ other : Fault, ¬ other.IsIn item) :
    (inner.below (.item front.length)).IsFirstIn (.array (front ++ value :: back)) := by
  constructor
  · exact isIn_array.mpr ⟨front.length, value, inner, by simp, first.1, rfl⟩
  · intro other inside
    obtain ⟨index, item, inner', here, wrong, rfl⟩ := isIn_array.mp inside
    -- Nothing is wrong before the item, what is in it comes below the same step, the rest later.
    rcases Nat.lt_trichotomy index front.length with earlier | rfl | later
    · rw [List.getElem?_append_left earlier] at here
      exact absurd wrong (sound item (List.mem_of_getElem? here) inner')
    · obtain rfl : value = item := by simpa using here
      rcases first.2 inner' wrong with rfl | before
      · exact .inl rfl
      · exact .inr (.cons before)
    · exact .inr (.rel (.item later))

theorem IsFirstIn.below_ip (first : inner.IsFirstIn value)
    (field : fields.lookup "ip" = some value) : (inner.below .ip).IsFirstIn (.object fields) := by
  constructor
  · exact isIn_object.mpr (.inr (.inl ⟨value, inner, field, first.1, rfl⟩))
  · intro other inside
    rcases isIn_object.mp inside with ⟨none, -⟩ | ⟨ip, inner', here, wrong, rfl⟩ | ⟨_, -, -, rfl⟩
    · rw [field] at none
      cases none
    · obtain rfl := Option.some.inj (field.symm.trans here)
      rcases first.2 inner' wrong with rfl | before
      · exact .inl rfl
      · exact .inr (.cons before)
    · exact .inr (.rel .ip)

theorem isFirstIn_missingIp (none : fields.lookup "ip" = none) :
    IsFirstIn ⟨[], .missingIp⟩ (.object fields) := by
  refine ⟨isIn_object.mpr (.inl ⟨none, rfl⟩), fun other inside => ?_⟩
  rcases isIn_object.mp inside with ⟨-, rfl⟩ | ⟨ip, _, here, -, -⟩ | ⟨_, -, -, rfl⟩
  · exact .inl rfl
  · rw [none] at here
    cases here
  · exact .inr .nil

theorem isFirstIn_comment (field : fields.lookup "ip" = some ip)
    (sound : ∀ other : Fault, ¬ other.IsIn ip) (comment : fields.lookup "comment" = some value)
    (bad : value ≠ .null ∧ ∀ s, value ≠ .string s) :
    IsFirstIn ⟨[.comment], .notAComment value⟩ (.object fields) := by
  refine ⟨isIn_object.mpr (.inr (.inr ⟨value, comment, bad, rfl⟩)), fun other inside => ?_⟩
  rcases isIn_object.mp inside with ⟨none, -⟩ | ⟨ip', _, here, wrong, -⟩ | ⟨found, here, -, rfl⟩
  · rw [field] at none
    cases none
  · obtain rfl := Option.some.inj (field.symm.trans here)
    exact absurd wrong (sound _)
  · obtain rfl := Option.some.inj (comment.symm.trans here)
    exact .inl rfl

end Fault

/-! ## Texts of paths -/

/-- No step begins like another, so a text of steps is read in one way only. -/
theorem Step.text_append_inj {step other : Step} {rest rest' : List Char}
    (same : step.text.toList ++ rest = other.text.toList ++ rest') :
    step = other ∧ rest = rest' := by
  have item : ∀ index, (Step.item index).text.toList = '[' :: (Nat.toDigits 10 index ++ [']']) := by
    intro index
    simp [Step.text]
  have number : ∀ index, Text.numberOf? 10 (Nat.toDigits 10 index) = some index :=
    Text.numberOf?_toDigits (by decide) (by decide)
  have bracket : ∀ {index}, ']' ∉ Nat.toDigits 10 index := by
    intro index member
    cases Text.digit_of_numberOf? (number index) ']' member
  cases step with
  | item index =>
      cases other with
      | item index' =>
          rw [item, item, List.cons_append, List.cons_append, List.append_assoc,
            List.append_assoc] at same
          have parts := congrArg (Text.splitFirst? ']') (List.cons.inj same).2
          rw [List.singleton_append, List.singleton_append, Text.splitFirst?_append bracket,
            Text.splitFirst?_append bracket] at parts
          obtain ⟨digits, rests⟩ := Prod.mk.inj (Option.some.inj parts)
          have equal := (number index).symm.trans (digits ▸ number index')
          exact ⟨congrArg Step.item (Option.some.inj equal), rests⟩
      | ip | comment =>
          rw [item] at same
          simp [Step.text] at same
  | ip =>
      cases other with
      | item index' =>
          rw [item] at same
          simp [Step.text] at same
      | ip => simpa [Step.text] using same
      | comment => simp [Step.text] at same
  | comment =>
      cases other with
      | item index' =>
          rw [item] at same
          simp [Step.text] at same
      | ip => simp [Step.text] at same
      | comment => simpa [Step.text] using same

theorem Step.text_ne_nil (step : Step) : step.text.toList ≠ [] := by
  cases step <;> simp [text]

theorem Step.flatMap_text_inj {path path' : List Step}
    (same : path.flatMap (·.text.toList) = path'.flatMap (·.text.toList)) : path = path' := by
  induction path generalizing path' with
  | nil =>
      cases path' with
      | nil => rfl
      | cons step path' =>
          rw [List.flatMap_nil, List.flatMap_cons] at same
          exact absurd (List.append_eq_nil_iff.mp same.symm).1 step.text_ne_nil
  | cons step path ih =>
      cases path' with
      | nil =>
          rw [List.flatMap_nil, List.flatMap_cons] at same
          exact absurd (List.append_eq_nil_iff.mp same).1 step.text_ne_nil
      | cons step' path' =>
          rw [List.flatMap_cons, List.flatMap_cons] at same
          obtain ⟨rfl, rests⟩ := Step.text_append_inj same
          rw [ih rests]

theorem Fault.pathText_inj {fault other : Fault} :
    fault.pathText = other.pathText ↔ fault.path = other.path := by
  constructor
  · intro same
    apply Step.flatMap_text_inj
    simpa [Fault.pathText, String.toList_join, List.flatMap_map] using congrArg String.toList same
  · intro same
    rw [Fault.pathText, Fault.pathText, same]

/-! ## Reading -/

theorem Json.Value.induct {P : Json.Value → Prop} (null : P .null) (bool : ∀ b, P (.bool b))
    (number : ∀ n, P (.number n)) (string : ∀ s, P (.string s))
    (array : ∀ items, (∀ item ∈ items, P item) → P (.array items))
    (object : ∀ fields, (∀ field ∈ fields, P field.2) → P (.object fields))
    (value : Json.Value) : P value := by
  refine @Json.Value.rec P (fun items => ∀ item ∈ items, P item)
    (fun fields => ∀ field ∈ fields, P field.2) (fun field => P field.2)
    null bool number string array object ?_ ?_ ?_ ?_ ?_ value
  · nofun
  · intro head tail here others
    exact List.forall_mem_cons.mpr ⟨here, others⟩
  · nofun
  · intro head tail here others
    exact List.forall_mem_cons.mpr ⟨here, others⟩
  · exact fun _ _ here => here

/-- Whether a value is read as a term and has no fault, or its first fault is reported. -/
def Term.IsReadRight (value : Json.Value) : Prop :=
  (∃ term, Term.ofValue value = .ok term ∧ ∀ fault : Fault, ¬ fault.IsIn value) ∨
    ∃ fault, Term.ofValue value = .error fault ∧ fault.IsFirstIn value

theorem Term.readComment_cases (fields : List (String × Json.Value)) :
    (∃ comment, Term.readComment fields = .ok comment ∧
      ∀ found, fields.lookup "comment" = some found → ¬ (found ≠ .null ∧ ∀ s, found ≠ .string s)) ∨
    ∃ found, Term.readComment fields = .error ⟨[.comment], .notAComment found⟩ ∧
      fields.lookup "comment" = some found ∧ (found ≠ .null ∧ ∀ s, found ≠ .string s) := by
  unfold Term.readComment
  cases fields.lookup "comment" with
  | none => exact .inl ⟨none, rfl, nofun⟩
  | some found => cases found <;> simp

namespace Term

variable {value : Json.Value} {fault : Fault} {term : Term}

theorem IsReadRight.of_ok (right : IsReadRight value) (read : ofValue value = .ok term) :
    ∀ fault : Fault, ¬ fault.IsIn value := by
  rcases right with ⟨_, -, sound⟩ | ⟨fault, unread, -⟩
  · exact sound
  · rw [read] at unread
    cases unread

theorem IsReadRight.of_error (right : IsReadRight value) (unread : ofValue value = .error fault) :
    fault.IsFirstIn value := by
  rcases right with ⟨_, read, -⟩ | ⟨fault', same, first⟩
  · rw [read] at unread
    cases unread
  · obtain rfl := Except.error.inj (unread.symm.trans same)
    exact first

theorem isReadRight_plain
    (plain : value = .null ∨ (∃ b, value = .bool b) ∨ ∃ n, value = .number n) :
    IsReadRight value := by
  have unread : ofValue value = .error ⟨[], .notATerm value⟩ := by
    rcases plain with rfl | ⟨b, rfl⟩ | ⟨n, rfl⟩ <;> rfl
  exact .inr ⟨_, unread, (Fault.isIn_plain plain).mpr rfl,
    fun other inside => .inl ((Fault.isIn_plain plain).mp inside)⟩

theorem isReadRight_array {items : List Json.Value} (each : ∀ item ∈ items, IsReadRight item) :
    IsReadRight (.array items) := by
  rcases exists_first_unread items with all | ⟨front, item, back, fault, rfl, earlier, unread⟩
  · obtain ⟨terms, read⟩ := exists_forall₂.mpr all
    refine .inl ⟨.list terms, ofValue_array.mpr ⟨terms, read, rfl⟩, fun fault inside => ?_⟩
    obtain ⟨index, item, inner, here, wrong, -⟩ := Fault.isIn_array.mp inside
    have member := List.mem_of_getElem? here
    obtain ⟨term, read⟩ := all item member
    exact (each item member).of_ok read inner wrong
  · have first := (each item (by simp)).of_error unread
    have sound : ∀ item ∈ front, ∀ other : Fault, ¬ other.IsIn item := by
      intro item member
      obtain ⟨term, read⟩ := earlier item member
      exact (each item (List.mem_append_left _ member)).of_ok read
    refine .inr ⟨fault.below (.item front.length), ?_, first.below_item sound⟩
    rw [ofValue, ofItems_of_unread earlier unread, Nat.zero_add]
    rfl

theorem isReadRight_object {fields : List (String × Json.Value)}
    (each : ∀ field ∈ fields, IsReadRight field.2) : IsReadRight (.object fields) := by
  have field := ofIpField_eq fields
  cases here : fields.lookup "ip" with
  | none =>
      rw [here] at field
      refine .inr ⟨_, ?_, Fault.isFirstIn_missingIp here⟩
      rw [ofValue, field]
      rfl
  | some value =>
      rw [here] at field
      rcases each _ (Table.mem_of_find? here) with ⟨ip, read, sound⟩ | ⟨fault, unread, first⟩
      · rcases readComment_cases fields with ⟨comment, known, good⟩ | ⟨found, unknown, comment, bad⟩
        · refine .inl ⟨.record ip comment,
            (ofValue_object field).mpr ⟨ip, comment, read, known, rfl⟩, fun fault inside => ?_⟩
          rcases Fault.isIn_object.mp inside with ⟨none, -⟩ | ⟨ip', inner, here', wrong, -⟩ |
            ⟨found, comment, bad, -⟩
          · rw [here] at none
            cases none
          · obtain rfl := Option.some.inj (here.symm.trans here')
            exact sound inner wrong
          · exact good found comment bad
        · refine .inr ⟨_, ?_, Fault.isFirstIn_comment here sound comment bad⟩
          rw [ofValue, field, Option.map_some, read, unknown]
          rfl
      · refine .inr ⟨fault.below .ip, ?_, first.below_ip here⟩
        rw [ofValue, field, Option.map_some, unread]

/-- Reading a value is total: it gives a term or reports the first fault. -/
theorem isReadRight (value : Json.Value) : IsReadRight value := by
  induction value using Json.Value.induct with
  | null => exact isReadRight_plain (.inl rfl)
  | bool b => exact isReadRight_plain (.inr (.inl ⟨b, rfl⟩))
  | number n => exact isReadRight_plain (.inr (.inr ⟨n, rfl⟩))
  | string s => exact .inl ⟨.literal s, rfl, fun _ => Fault.not_isIn_string⟩
  | array items each => exact isReadRight_array each
  | object fields each => exact isReadRight_object each

theorem ofValue_eq_error : ofValue value = .error fault ↔ fault.IsFirstIn value := by
  constructor
  · exact (isReadRight value).of_error
  · intro first
    rcases isReadRight value with ⟨_, -, sound⟩ | ⟨fault', unread, first'⟩
    · exact absurd first.1 (sound fault)
    · rw [unread, first'.unique first]

end Term

end AddressExpansion
