import AddressExpansion.Proofs.CommandLine
import AddressExpansion.Proofs.Engine.RoundTrip
import AddressExpansion.Proofs.Json.Documents
import AddressExpansion.Proofs.Program.Reports

/-! # The raw output as input

What the program prints in the raw format is a document that it reads again: as standard input, an
array of items, or as one word of the command line, one item that is a list. Either way the records
become the atoms that they were written from.
-/

namespace AddressExpansion

open Json (Layout Reader Value readValue)

/-! ## The document of a raw result -/

namespace Atom

/-- An atom as it is read from a document, with its fields in the order of their names. -/
def toReadValue (atom : Atom) : Value :=
  let ip : String × Value := ("ip", .array (atom.addresses.map Address.toValue))
  match atom.comment with
  | none => .object [ip]
  | some comment => .object [("comment", .string comment), ip]

variable {layout : Layout} {depth inside : Nat}

theorem takes_addresses (addresses : List Address) :
    (readValue .keep (inside + 1)).Takes
      ((Value.array (addresses.map Address.toValue)).write layout depth)
      (.array (addresses.map Address.toValue)) := by
  apply Json.takes_write_array
  rw [List.forall₂_same]
  intro value member
  obtain ⟨a, -, rfl⟩ := List.mem_map.mp member
  exact Json.takes_writeString a.text

theorem takes_toValue (atom : Atom) :
    (readValue .keep (inside + 2)).Takes (atom.toValue.write layout depth) atom.toReadValue := by
  unfold toValue toReadValue
  cases atom.comment with
  | none => exact Json.takes_write_object (.cons ⟨rfl, takes_addresses _⟩ .nil)
  | some comment =>
      exact Json.takes_write_object
        (.cons ⟨rfl, takes_addresses _⟩ (.cons ⟨rfl, Json.takes_writeString comment⟩ .nil))

theorem ofValue_addresses (addresses : List Address) :
    Term.ofValue (.array (addresses.map Address.toValue)) =
      .ok (.list (addresses.map fun a => .literal a.text)) := by
  have token (a : Address) : Term.ofValue a.toValue = .ok (.literal a.text) := rfl
  rw [Term.ofValue, Term.ofItems_map token]
  rfl

theorem ofValue_toReadValue (atom : Atom) : Term.ofValue atom.toReadValue = .ok atom.toTerm := by
  have ip := ofValue_addresses atom.addresses
  unfold toReadValue toTerm
  cases atom.comment with
  | none => exact (Term.ofValue_object rfl).mpr ⟨_, _, ip, rfl, rfl⟩
  | some comment => exact (Term.ofValue_object rfl).mpr ⟨_, _, ip, rfl, rfl⟩

end Atom

namespace Rendered

variable {layout : Layout}

theorem takes_raw {depth inside : Nat} (atoms : List Atom) :
    (readValue .keep (inside + 3)).Takes ((Rendered.raw atoms).toValue.write layout depth)
      (.array (atoms.map Atom.toReadValue)) := by
  apply Json.takes_write_array
  rw [List.forall₂_map_left_iff, List.forall₂_map_right_iff, List.forall₂_same]
  exact fun atom _ => atom.takes_toValue

/-- A raw result as it is printed, on a line of its own. -/
def rawText (layout : Layout) (atoms : List Atom) : String :=
  (Rendered.raw atoms).toValue.text layout ++ "\n"

theorem parse?_rawText (layout : Layout) (atoms : List Atom) :
    Value.parse? (rawText layout atoms) = some (.array (atoms.map Atom.toReadValue)) := by
  have line : rawText layout atoms =
      String.ofList ((Rendered.raw atoms).toValue.write layout 0 ++ ['\n']) := by
    rw [String.ofList_append]
    rfl
  rw [line]
  exact Value.parse?_of_takes (takes_raw atoms) (List.forall_mem_singleton.mpr rfl)

theorem head?_rawText (layout : Layout) (atoms : List Atom) :
    (rawText layout atoms).toList.head? = some '[' := by
  rw [rawText, String.toList_append, Value.text, String.toList_ofList]
  cases atoms <;> simp [Rendered.toValue, Value.write]

end Rendered

/-! ## Runs on a document -/

namespace Engine

theorem run_of_no_lookups (engine : Engine) (options : Options) {items : List Value}
    {terms : List Term} {atoms : List Atom} (parsed : parseItems items = .ok terms)
    (worth : Expansion.atomsOfAll
        (Expansion.ofItems (engine.environment options.overrides) 0 terms) = .ok atoms ∧
      Expansion.lookupsOfAll
        (Expansion.ofItems (engine.environment options.overrides) 0 terms) = []) :
    (engine.run options items none).ending = .value (.ofAtoms atoms options.format) ∧
      (engine.run options items none).calls = [] := by
  obtain ⟨ends, calls⟩ := engine.run_of_atoms options parsed worth.1
  rw [worth.2] at calls
  exact ⟨ends, calls_eq_nil calls⟩

/-- Items that are read from a raw result, element by element or as one list, give its atoms again
    and need no lookup. -/
theorem run_toReadValue (engine : Engine) (options : Options) {items : List Value}
    {atoms : List Atom} (fed : items = atoms.map Atom.toReadValue ∨
      items = [.array (atoms.map Atom.toReadValue)]) :
    (engine.run options items none).ending = .value (.ofAtoms atoms options.format) ∧
      (engine.run options items none).calls = [] := by
  rcases fed with rfl | rfl
  · have parsed := parseItems_map Atom.ofValue_toReadValue atoms
    exact engine.run_of_no_lookups options parsed (Expansion.ofItems_toTerm _ 0 atoms)
  · have read := Term.ofItems_map Atom.ofValue_toReadValue 0 atoms
    have parsed : parseItems [.array (atoms.map Atom.toReadValue)] =
        .ok [.list (atoms.map Atom.toTerm)] := by
      rw [parseItems, parseItems.go, Term.ofValue, read]
      rfl
    exact engine.run_of_no_lookups options parsed (Expansion.ofItems_list_toTerm _ 0 atoms)

end Engine

/-! ## The output fed back -/

namespace Program

variable {line : CommandLine} {around : Surroundings}

theorem exists_atoms_of_raw (raw : line.format = .raw) {rendered : Rendered}
    (ok : (run line around).result = .ok rendered) : ∃ atoms, rendered = .raw atoms := by
  obtain ⟨engine, items, ends⟩ := exists_run_of_ok ok
  obtain ⟨-, atoms, -, -, same⟩ := Engine.exists_atoms_of_value ends
  have format : line.options.format = .raw := raw
  rw [format] at same
  exact ⟨atoms, same⟩

/-- A document that is an array holds its elements as items on standard input, and is one item, a
    list, on the command line. -/
theorem items_of_array {values : List Value} {document : String}
    (parsed : Value.parse? document = some (.array values))
    (fed : line.items = [] ∧ around.stdin = document ∨ line.items = [document]) :
    ∃ items, Program.items line around = .ok items ∧ (items = values ∨ items = [.array values]) := by
  rcases fed with ⟨none_given, rfl⟩ | given
  · exact ⟨values, items_of_stdin none_given parsed, .inl rfl⟩
  · refine ⟨[.array values], ?_, .inr rfl⟩
    rw [items_of_words (by simp [given]), CommandLine.itemValues, given, List.map_singleton,
      readItem, parsed]

theorem run_rawText {layout : Layout} {atoms : List Atom} (raw : line.format = .raw)
    (loads : ∃ loaded, loadInventory line around = .ok loaded)
    (fed : line.items = [] ∧ around.stdin = Rendered.rawText layout atoms ∨
      line.items = [Rendered.rawText layout atoms]) :
    (run line around).result = .ok (.raw atoms) ∧ (run line around).calls = [] := by
  obtain ⟨⟨inventory, loaded⟩, loads⟩ := loads
  obtain ⟨items, found, reread⟩ := items_of_array (Rendered.parse?_rawText layout atoms) fed
  obtain ⟨whole, same, calls, result⟩ := run_of_items loads found
  obtain ⟨ends, called⟩ :=
    Engine.run_toReadValue { inventory, answer := around.answer } line.options reread
  have format : line.options.format = .raw := raw
  rw [← same] at ends called
  rw [result, calls, ends, called, format]
  exact ⟨rfl, rfl⟩

/-- The raw output of the program is its own input. Given back as standard input or as the only
    item of the command line, in the raw format and the same layout, it is printed again as it is,
    without a lookup, whatever is defined by then. As a word it is never taken for an option. -/
theorem raw_output_again (line : CommandLine) (around : Surroundings) (raw : line.format = .raw)
    (done : (run line around).exitStatus = 0) :
    let output := (run line around).stdout line
    (∀ (again : CommandLine) (elsewhere : Surroundings), again.format = .raw →
      again.pretty = line.pretty → (∃ loaded, loadInventory again elsewhere = .ok loaded) →
      (again.items = [] ∧ elsewhere.stdin = output ∨ again.items = [output]) →
        (run again elsewhere).exitStatus = 0 ∧ (run again elsewhere).calls = [] ∧
          (run again elsewhere).stdout again = output) ∧
    ∀ (words : List String) (again : CommandLine), CommandLine.parse words = .ok again →
      CommandLine.parse (words ++ [output]) =
        .ok { again with items := again.items ++ [output] } := by
  intro output
  obtain ⟨rendered, ok⟩ := Report.exitStatus_eq_zero.mp done
  obtain ⟨atoms, rfl⟩ := exists_atoms_of_raw raw ok
  have printed : output = Rendered.rawText _ atoms := Report.stdout_of_ok ok
  clear_value output
  subst printed
  refine ⟨fun again elsewhere format pretty loads fed => ?_, fun words again parsed => ?_⟩
  · obtain ⟨result, calls⟩ := run_rawText format loads fed
    refine ⟨Report.exitStatus_eq_zero.mpr ⟨_, result⟩, calls, ?_⟩
    rw [Report.stdout_of_ok result, pretty, Rendered.rawText]
  · apply CommandLine.parse_append_plain _ parsed
    rw [Rendered.head?_rawText]
    decide

/-- A comment with a quote and a line break, printed over several lines and read from standard
    input, or given as a word. -/
theorem raw_output_again_of_comment :
    let line : CommandLine :=
      { items := ["\x7b\"ip\": \"::1\", \"comment\": \"a \\\"b\\\"\\n\"\x7d"]
        format := .raw
        pretty := true }
    let around : Surroundings :=
      { inventoryAt := fun _ => .error .notFound, stdin := "", answer := fun _ => .silence }
    let output := (run line around).stdout line
    let again : CommandLine := { format := .raw, pretty := true }
    let elsewhere : Surroundings := { around with stdin := output }
    (run line around).exitStatus = 0 ∧ (run again elsewhere).exitStatus = 0 ∧
      (run again elsewhere).calls = [] ∧ (run again elsewhere).stdout again = output ∧
      CommandLine.parse (["--fmt", "raw", "--pretty"] ++ [output]) =
        .ok { again with items := [output] } := by
  intro line around output again elsewhere
  have done : (run line around).exitStatus = 0 := by decide +kernel
  have given : elsewhere.stdin = output := by dsimp only [elsewhere]
  have parsed : CommandLine.parse ["--fmt", "raw", "--pretty"] = .ok again := rfl
  obtain ⟨reads, isItem⟩ := raw_output_again line around rfl done
  obtain ⟨succeeds, calls, same⟩ := reads again elsewhere rfl rfl ⟨_, rfl⟩ (.inl ⟨rfl, given⟩)
  exact ⟨done, succeeds, calls, same, isItem _ again parsed⟩

end Program

end AddressExpansion
