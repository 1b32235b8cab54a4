import AddressExpansion.Proofs.Engine.History
import AddressExpansion.Proofs.Table
import AddressExpansion.Proofs.Term.Grammar

/-! # What is checked before a run

Options are checked first, then whether the run was cancelled before it began, and then all items.
The first of these that is wrong is reported, and nothing is looked up until all are right.
-/

namespace AddressExpansion

/-! ## Wrong options -/

namespace Options

/-- What is wrong with an option that has a value of another type than its own, a format that there
    is none of, or a name that no option has. -/
inductive IsWrong : String → Json.Value → OptionsProblem → Prop
  | formatNotAString {found : Json.Value} : (∀ s, found ≠ .string s) →
      IsWrong "fmt" found (.formatNotAString found)
  | unknownFormat {s : String} : (∀ format : Format, format.name ≠ s) →
      IsWrong "fmt" (.string s) (.unknownFormat s)
  | debugNotABoolean {found : Json.Value} : (∀ b, found ≠ .bool b) →
      IsWrong "debug" found (.debugNotABoolean found)
  | overridesNotAMapping {found : Json.Value} : (∀ fields, found ≠ .object fields) →
      IsWrong "dns" found (.overridesNotAMapping found)
  | unrecognized {name : String} {value : Json.Value} :
      name ≠ "fmt" → name ≠ "debug" → name ≠ "dns" → IsWrong name value (.unrecognized name)

variable {options : Options} {table : Table Json.Value} {name : String} {value : Json.Value}
  {problem : OptionsProblem}

theorem formatParse_eq_error : Format.parse name = .error problem ↔
    (∀ format : Format, format.name ≠ name) ∧ problem = .unknownFormat name := by
  have none_named : Format.ofName? name = none ↔ ∀ format : Format, format.name ≠ name := by
    rw [Format.ofName?, List.find?_eq_none]
    refine ⟨fun each format => ?_, fun each format _ => by simpa using each format⟩
    have listed : format ∈ Format.all := by cases format <;> simp [Format.all]
    simpa using each format listed
  rw [Format.parse, ← none_named]
  cases Format.ofName? name with
  | none => simp [eq_comm]
  | some format => simp

theorem set_eq_error : options.set name value = .error problem ↔ IsWrong name value problem := by
  constructor
  · intro refused
    unfold set at refused
    split_ifs at refused with fmt debug dns
    · subst fmt
      split at refused
      next s =>
        cases parsed : Format.parse s with
        | ok => rw [parsed] at refused; cases refused
        | error =>
            rw [parsed] at refused
            cases refused
            obtain ⟨unknown, rfl⟩ := formatParse_eq_error.mp parsed
            exact .unknownFormat unknown
      next other => cases refused; exact .formatNotAString other
    · subst debug
      split at refused
      next => cases refused
      next other => cases refused; exact .debugNotABoolean other
    · subst dns
      split at refused
      next => cases refused
      next other => cases refused; exact .overridesNotAMapping other
    · cases refused
      exact .unrecognized fmt debug dns
  · intro wrong
    cases wrong with
    | formatNotAString other =>
        cases value with
        | string s => exact absurd rfl (other s)
        | null | bool | number | array | object => rfl
    | unknownFormat unknown =>
        exact congrArg (Except.map _) (formatParse_eq_error.mpr ⟨unknown, rfl⟩)
    | debugNotABoolean other =>
        cases value with
        | bool b => exact absurd rfl (other b)
        | null | number | string | array | object => rfl
    | overridesNotAMapping other =>
        cases value with
        | object fields => exact absurd rfl (other fields)
        | null | bool | number | string | array => rfl
    | unrecognized fmt debug dns =>
        unfold set
        rw [if_neg fmt, if_neg debug, if_neg dns]

theorem IsWrong.unique {problem' : OptionsProblem} (wrong : IsWrong name value problem)
    (wrong' : IsWrong name value problem') : problem = problem' := by
  have refused : ({} : Options).set name value = .error problem := set_eq_error.mpr wrong
  exact Except.error.inj (refused.symm.trans (set_eq_error.mpr wrong'))

/-- Whether some option of a table is wrong. -/
def SomeWrong (table : Table Json.Value) : Prop :=
  ∃ name value problem, table.find? name = some value ∧ IsWrong name value problem

/-- Whether an option of a table is wrong, and none that is has a smaller name in byte order. -/
def FirstWrong (table : Table Json.Value) (name : String) (problem : OptionsProblem) : Prop :=
  (∃ value, table.find? name = some value ∧ IsWrong name value problem) ∧
    ∀ other value problem, table.find? other = some value → IsWrong other value problem →
      Text.bytes name ≤ Text.bytes other

/-- The options with some more set in turn. -/
def setEach (options : Options) (entries : Table Json.Value) : Except OptionsProblem Options :=
  entries.foldlM (fun options (name, value) => options.set name value) options

theorem setEach_cons (options : Options) (name : String) (value : Json.Value)
    (entries : Table Json.Value) : options.setEach ((name, value) :: entries) =
      (options.set name value).bind (·.setEach entries) := rfl

theorem setEach_cases (options : Options) (entries : Table Json.Value) :
    ((∃ options', options.setEach entries = .ok options') ∧
      ∀ entry ∈ entries, ∀ problem, ¬ IsWrong entry.1 entry.2 problem) ∨
    ∃ front name value back problem, entries = front ++ (name, value) :: back ∧
      (∀ entry ∈ front, ∀ problem, ¬ IsWrong entry.1 entry.2 problem) ∧
      IsWrong name value problem ∧ options.setEach entries = .error problem := by
  induction entries generalizing options with
  | nil => exact .inl ⟨⟨options, rfl⟩, nofun⟩
  | cons entry entries ih =>
      obtain ⟨name, value⟩ := entry
      rw [setEach_cons]
      cases done : options.set name value with
      | error problem =>
          exact .inr ⟨[], name, value, entries, problem, rfl, nofun, set_eq_error.mp done, rfl⟩
      | ok options' =>
          have right (problem : OptionsProblem) : ¬ IsWrong name value problem := by
            intro wrong
            rw [set_eq_error.mpr wrong] at done
            cases done
          rcases ih options' with ⟨all, others⟩ |
            ⟨front, name', value', back, problem, rfl, earlier, wrong, failed⟩
          · exact .inl ⟨all, List.forall_mem_cons.mpr ⟨right, others⟩⟩
          · exact .inr ⟨(name, value) :: front, name', value', back, problem, rfl,
              List.forall_mem_cons.mpr ⟨right, earlier⟩, wrong, failed⟩

/-- A table gives options unless one in it is wrong, and then the first of these is reported. -/
theorem ofTable_cases (ascends : table.Ascends) :
    ((∃ options, ofTable table = .ok options) ∧ ¬ SomeWrong table) ∨
      ∃ name problem, ofTable table = .error problem ∧ FirstWrong table name problem := by
  rcases setEach_cases {} table with ⟨done, right⟩ |
    ⟨front, name, value, back, problem, rfl, earlier, wrong, failed⟩
  · refine .inl ⟨done, fun ⟨name, value, problem, found, wrong⟩ => ?_⟩
    exact right _ (Table.mem_of_find? found) problem wrong
  · refine .inr ⟨name, problem, failed, ⟨value, ascends.find?_eq_some.mpr (by simp), wrong⟩, ?_⟩
    intro other value' problem' found wrong'
    -- What stands in front is right, and what comes after has a larger name.
    rcases List.mem_append.mp (Table.mem_of_find? found) with before | here
    · exact absurd wrong' (earlier _ before problem')
    rcases List.mem_cons.mp here with same | after
    · obtain ⟨rfl, -⟩ := Prod.mk.inj same
      exact List.le_refl _
    · have above := (List.pairwise_cons.mp (List.pairwise_append.mp ascends).2.1).1 _ after
      exact List.le_of_lt (Text.bytes_lt_bytes.mpr above)

end Options

/-! ## Runs that fail at once -/

/-- Whether a run fails before it looks anything up, and before any time has passed. -/
def Run.FailsAtOnce {α : Type} (run : Run α) (failure : Failure) : Prop :=
  run.ending = .failure failure ∧ run.calls = [] ∧ run.elapsed = 0

namespace Engine

variable {table : Table Json.Value} {options : Options} {items : List Json.Value}
  {cancelAt : Option Nat}

theorem runWith_of_refused (engine : Engine) {problem : OptionsProblem}
    (refused : Options.ofTable table = .error problem) :
    (engine.runWith table items cancelAt).FailsAtOnce (.configuration problem) := by
  rw [runWith, refused]
  exact ⟨rfl, rfl, rfl⟩

theorem runWith_of_done (engine : Engine) (done : Options.ofTable table = .ok options) :
    engine.runWith table items cancelAt = engine.run options items cancelAt := by
  rw [runWith, done]

theorem run_cancelled (engine : Engine) (options : Options) (items : List Json.Value) :
    (engine.run options items (some 0)).FailsAtOnce .cancelled :=
  ⟨rfl, rfl, rfl⟩

theorem run_malformed (engine : Engine) (options : Options) {front back : List Json.Value}
    {item : Json.Value} {fault : Fault} (later : cancelAt ≠ some 0)
    (earlier : ∀ item ∈ front, IsTerm item) (unread : Term.ofValue item = .error fault) :
    (engine.run options (front ++ item :: back) cancelAt).FailsAtOnce
      (.malformedItem front.length fault) := by
  have read : ∀ item ∈ front, ∃ term, Term.ofValue item = .ok term :=
    fun item member => (earlier item member).exists_ofValue
  rw [run_of_unparsed engine options (parseItems_of_unread read unread) later]
  exact ⟨rfl, rfl, rfl⟩

/-- The options of a run are checked before anything else, by their names in byte order; then it is
    seen whether the run was cancelled before it began; and then items are checked in turn, each for
    its first fault. A run that any of this stops fails at once. -/
theorem checks_come_first (engine : Engine) (entries : List (String × Json.Value))
    (items : List Json.Value) (cancelAt : Option Nat) :
    let options := Table.ofEntries entries
    let run := engine.runWith options items cancelAt
    (Options.SomeWrong options → ∃ name problem, Options.FirstWrong options name problem ∧
      run.FailsAtOnce (.configuration problem)) ∧
    (¬ Options.SomeWrong options → cancelAt = some 0 → run.FailsAtOnce .cancelled) ∧
    (¬ Options.SomeWrong options → cancelAt ≠ some 0 → (∃ item ∈ items, ¬ IsTerm item) →
      ∃ front item back fault, items = front ++ item :: back ∧ (∀ item ∈ front, IsTerm item) ∧
        ¬ IsTerm item ∧ fault.IsFirstIn item ∧
        run.FailsAtOnce (.malformedItem front.length fault)) := by
  intro options run
  rcases Options.ofTable_cases (Table.ascends_ofEntries entries) with
    ⟨⟨settings, done⟩, right⟩ | ⟨name, problem, refused, first⟩
  · have goes_on : run = engine.run settings items cancelAt := engine.runWith_of_done done
    rw [goes_on]
    refine ⟨fun wrong => absurd wrong right, fun _ cancels => ?_, fun _ later wrong => ?_⟩
    · subst cancels
      exact engine.run_cancelled settings items
    · obtain ⟨front, item, back, fault, rfl, earlier, bad, unread⟩ := exists_first_malformed wrong
      exact ⟨front, item, back, fault, rfl, earlier, bad, Term.ofValue_eq_error.mp unread,
        engine.run_malformed settings later earlier unread⟩
  · have wrong : Options.SomeWrong options := by
      obtain ⟨⟨value, found, wrong⟩, -⟩ := first
      exact ⟨name, value, problem, found, wrong⟩
    exact ⟨fun _ => ⟨name, problem, first, engine.runWith_of_refused refused⟩,
      fun right => absurd wrong right, fun right => absurd wrong right⟩

/-- Of all that is wrong, an option is reported, then the cancellation, then an item. -/
theorem checks_come_first_one_by_one :
    let engine : Engine := { answer := fun _ => .atOnce (.refusal "no") }
    let entries : List (String × Json.Value) :=
      [("verbose", .bool true), ("debug", .string "yes")]
    let items : List Json.Value := [.string "a", .array [.null]]
    (engine.runWith (.ofEntries entries) items (some 0)).FailsAtOnce
      (.configuration (.debugNotABoolean (.string "yes"))) ∧
    (engine.runWith [] items (some 0)).FailsAtOnce .cancelled ∧
    (engine.runWith [] items none).FailsAtOnce
      (.malformedItem 1 ⟨[.item 0], .notATerm .null⟩) := by
  intro engine entries items
  have right : ¬ Options.SomeWrong (Table.ofEntries []) := fun ⟨_, _, _, found, _⟩ => by cases found
  refine ⟨?_, (engine.checks_come_first [] items (some 0)).2.1 right rfl, ?_⟩
  · have debug : Options.IsWrong "debug" (.string "yes") (.debugNotABoolean (.string "yes")) :=
      .debugNotABoolean nofun
    have given : (Table.ofEntries entries).find? "debug" = some (.string "yes") :=
      Table.find?_ofEntries entries "debug"
    obtain ⟨name, problem, ⟨⟨value, found, wrong⟩, least⟩, fails⟩ :=
      (engine.checks_come_first entries items (some 0)).1 ⟨"debug", _, _, given, debug⟩
    have early := Text.bytes_lt_bytes.not.mp (List.not_lt.mpr (least "debug" _ _ given debug))
    rcases List.mem_cons.mp (Table.mem_of_find? found) with same | other
    · cases same
      obtain rfl := debug.unique wrong
      exact fails
    · obtain ⟨rfl, -⟩ := Prod.mk.inj (List.mem_singleton.mp other)
      exact absurd (by decide) early
  · have unread : Term.ofValue (.array [.null]) = .error ⟨[.item 0], .notATerm .null⟩ := rfl
    have bad : ∃ item ∈ items, ¬ IsTerm item := by
      refine ⟨.array [.null], by simp [items], fun accepted => ?_⟩
      obtain ⟨term, read⟩ := accepted.exists_ofValue
      cases unread.symm.trans read
    obtain ⟨front, item, back, fault, parts, earlier, bad, first, fails⟩ :=
      (engine.checks_come_first [] items none).2.2 right nofun bad
    change [Json.Value.string "a", .array [.null]] = _ at parts
    match front, parts with
    | [], parts =>
        cases parts
        exact absurd (.token "a") bad
    | [_], parts =>
        cases parts
        cases unread.symm.trans (Term.ofValue_eq_error.mpr first)
        exact fails
    | _ :: _ :: _, parts => simp at parts

end Engine

end AddressExpansion
