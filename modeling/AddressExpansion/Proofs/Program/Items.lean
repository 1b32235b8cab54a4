import AddressExpansion.Proofs.CommandLine
import AddressExpansion.Proofs.Engine.Outcome
import AddressExpansion.Proofs.Json.Locality
import AddressExpansion.Proofs.Program.Reports
import AddressExpansion.Proofs.Term

/-! # Items from the command line and from standard input

Words of the command line are read one by one, standard input is one document. An array in which
documents stand as they are, and other words as strings, gives the same items, as long as no item
is nested so deep that there is no room for the array around it.
-/

namespace AddressExpansion

open Json (Value maxDepth readDocument readValue)

/-! ## Words as elements of an array -/

/-- Whether a word is a document that can be an element of an array: a string, or an array or
    object with one level less than a document may have. -/
def fitsInArray (word : String) : Bool :=
  (readDocument (readValue .keep (maxDepth - 1)) word).any Value.isDelimited

/-- A word as an element of an array: such a document as it stands, and else a string. -/
def elementText (word : String) : List Char :=
  if fitsInArray word then word.toList else Json.writeString word

def arrayText (words : List String) : String :=
  String.ofList ('[' :: (Text.joinWith ',' (words.map elementText) ++ [']']))

/-- Whether a word is no document, or one that leaves room for an array around it. -/
def LeavesRoom (word : String) : Prop :=
  ∀ v, Value.parse? word = some v → v.isDelimited → fitsInArray word

theorem readItem_of_delimited {word : String} {v : Value} (parsed : Value.parse? word = some v)
    (delimited : v.isDelimited) : readItem word = v := by
  unfold readItem
  rw [parsed]
  cases v <;> first | rfl | cases delimited

theorem readItem_of_not_delimited {word : String}
    (other : ∀ v, Value.parse? word = some v → v.isDelimited = false) :
    readItem word = .string word := by
  unfold readItem
  cases parsed : Value.parse? word with
  | none => rfl
  | some v =>
      have plain := other v parsed
      cases v <;> first | rfl | cases plain

theorem takes_elementText {word : String} (room : LeavesRoom word) :
    (readValue .keep (maxDepth - 1)).Takes (elementText word) (readItem word) := by
  unfold elementText
  split
  next fits =>
    obtain ⟨v, read, delimited⟩ := (Option.any_eq_true _ _).mp fits
    have parsed : Value.parse? word = some v := Json.readDocument_succ read
    rw [readItem_of_delimited parsed delimited]
    exact Json.takes_of_readDocument read delimited
  next unfit =>
    rw [readItem_of_not_delimited]
    · exact Json.takes_writeString word
    · exact fun v parsed => Bool.eq_false_iff.mpr fun delimited => unfit (room v parsed delimited)

theorem parse?_arrayText {words : List String} (room : ∀ word ∈ words, LeavesRoom word) :
    Value.parse? (arrayText words) = some (.array (words.map readItem)) := by
  have each : List.Forall₂ (readValue .keep (maxDepth - 1)).Takes (words.map elementText)
      (words.map readItem) := by
    rw [List.forall₂_map_left_iff, List.forall₂_map_right_iff, List.forall₂_same]
    exact fun word member => takes_elementText (room word member)
  exact Value.parse?_of_takes_whole (Json.takes_array each [] nofun)

/-! ## Runs on either -/

namespace Program

theorem run_items_eq_run_stdin {words : List String} (some_word : words ≠ [])
    (room : ∀ word ∈ words, LeavesRoom word) {line : CommandLine} (without : line.items = [])
    (around : Surroundings) : run { line with items := words } around =
      run line { around with stdin := arrayText words } := by
  have piped : items line { around with stdin := arrayText words } = .ok (words.map readItem) :=
    items_of_stdin without (parse?_arrayText room)
  refine run_congr rfl rfl rfl rfl ?_
  rw [items_of_words some_word, piped]
  rfl

/-- Items mean the same on the command line and on standard input. Words after `--` are the items
    of the invocation, and the array of the same words on standard input, with the options alone,
    gives the same report: exit status, standard output, log lines and errors. Options that are
    wrong are reported in the same way. No item may be nested as deep as a document can be, since
    the array is one more level around it. -/
theorem items_either_way (options words : List String) (separate : "--" ∉ options)
    (some_word : words ≠ []) (room : ∀ word ∈ words, LeavesRoom word) :
    (∀ error, CommandLine.parse (options ++ "--" :: words) = .error error ↔
      CommandLine.parse options = .error error) ∧
    ∀ line : CommandLine, CommandLine.parse options = .ok line → line.items = [] →
      ∀ around : Surroundings,
        let given := { line with items := words }
        let piped := { around with stdin := arrayText words }
        CommandLine.parse (options ++ "--" :: words) = .ok given ∧
          run given around = run line piped ∧
          (run given around).exitStatus = (run line piped).exitStatus ∧
          (run given around).stdout given = (run line piped).stdout line ∧
          ∀ color time, (run given around).stderr given color time =
            (run line piped).stderr line color time := by
  rw [CommandLine.parse_append_dashes separate]
  refine ⟨fun error => ?_, fun line parsed without around => ?_⟩
  · cases CommandLine.parse options <;> simp [Except.map]
  · have same := run_items_eq_run_stdin some_word room without around
    refine ⟨?_, same, congrArg Report.exitStatus same, ?_, fun color time => ?_⟩
    · rw [parsed, Except.map, without, List.nil_append]
    · rw [same]
      rfl
    · rw [same]
      rfl

/-- A list with blanks around it beside a name with a quote in it, and the document that they make
    together. -/
theorem items_either_way_of_two :
    let words := [" [\"::1\"] ", "a\"b"]
    let around : Surroundings :=
      { inventoryAt := fun _ => .error .notFound, stdin := "", answer := fun _ => .silence }
    let line : CommandLine := { pretty := true }
    let given := { line with items := words }
    let piped := { around with stdin := arrayText words }
    arrayText words = "[ [\"::1\"] ,\"a\\\"b\"]" ∧
      CommandLine.parse (["--pretty"] ++ "--" :: words) = .ok given ∧
      (run given around).exitStatus = (run line piped).exitStatus ∧
      (run given around).stdout given = (run line piped).stdout line ∧
      (run given around).stderr given false 0 = (run line piped).stderr line false 0 := by
  intro words around line given piped
  have list_fits : fitsInArray " [\"::1\"] " = true := by decide +kernel
  have no_document : (Value.parse? "a\"b").isNone = true := by decide +kernel
  have room : ∀ word ∈ words, LeavesRoom word := by
    intro word member
    rcases List.mem_cons.mp member with rfl | member
    · exact fun _ _ _ => list_fits
    · rw [List.mem_singleton.mp member]
      intro v parsed
      rw [parsed] at no_document
      cases no_document
  have parsed : CommandLine.parse ["--pretty"] = .ok line := rfl
  obtain ⟨-, runs⟩ := items_either_way ["--pretty"] words (by decide) (List.cons_ne_nil _ _) room
  obtain ⟨words_parsed, -, status, printed, logged⟩ := runs line parsed rfl around
  exact ⟨by decide +kernel, words_parsed, status, printed, logged false 0⟩

end Program

/-! ## Items without room around them -/

def nestedText (levels : Nat) : List Char :=
  List.replicate levels '[' ++ List.replicate levels ']'

def nestedValue : Nat → Value
  | 0 => .array []
  | n + 1 => .array [nestedValue n]

theorem takes_nestedText (n : Nat) :
    (readValue .keep (n + 1)).Takes (nestedText (n + 1)) (nestedValue n) := by
  induction n with
  | zero => exact Json.takes_array .nil [] nofun
  | succ n ih =>
      have taken := Json.takes_array (.cons ih .nil) [] nofun
      have text : nestedText (n + 1 + 1) = '[' :: (nestedText (n + 1) ++ [']']) := by
        have closing : List.replicate (n + 1 + 1) ']' = List.replicate (n + 1) ']' ++ [']'] :=
          List.replicate_succ'
        unfold nestedText
        rw [closing, List.replicate_succ, List.cons_append, List.append_assoc]
      rw [text]
      exact taken

theorem fitsInArray_of_unread {text : List Char}
    (unread : readValue .keep (maxDepth - 1) text = none) :
    fitsInArray (String.ofList text) = false := by
  unfold fitsInArray readDocument
  rw [String.toList_ofList, unread]
  rfl

theorem classify_of_unread {text : List Char} (trimmed : Text.trimBlanks text = text)
    (noIp : readIp? .plain text = none) (noBlock : readBlock? text = none) :
    Address.classify (Text.trim (String.ofList text)) = none := by
  unfold Address.classify Text.trim
  rw [String.toList_ofList, String.toList_ofList, trimmed, trimmed]
  dsimp only
  rw [noIp, noBlock]
  rfl

theorem ofValue_nestedValue (n : Nat) : ∃ term, Term.ofValue (nestedValue n) = .ok term ∧
    ∀ env scope, (Expansion.inScope env scope term).atoms = .ok [] := by
  induction n with
  | zero =>
      refine ⟨.list [], rfl, fun env scope => ?_⟩
      rw [Expansion.inScope_list]
      rfl
  | succ n ih =>
      obtain ⟨term, read, empty⟩ := ih
      refine ⟨.list [term], Term.ofValue_array.mpr ⟨_, .cons read .nil, rfl⟩, fun env scope => ?_⟩
      rw [Expansion.inScope_list, List.map_singleton, Expansion.atoms, Expansion.atomsOfAll, empty]
      rfl

namespace Program

variable {line : CommandLine} {around : Surroundings}

theorem loadInventory_of_none (bare : line.inventory = none) :
    loadInventory line around = .ok ({}, []) := by
  rw [loadInventory, bare]

theorem exitStatus_of_nested {n : Nat} (bare : line.inventory = none)
    (found : items line around = .ok [nestedValue n]) : (run line around).exitStatus = 0 := by
  obtain ⟨term, same, empty⟩ := ofValue_nestedValue n
  have parsed : parseItems [nestedValue n] = .ok [term] := parseItems_eq_ok.mpr (.cons same .nil)
  have atoms (env : Environment) :
      Expansion.atomsOfAll (Expansion.ofItems env 0 [term]) = .ok [] := by
    rw [Expansion.ofItems_cons, Expansion.atomsOfAll, empty]
    rfl
  obtain ⟨whole, rfl, -, result⟩ := run_of_items (loadInventory_of_none bare) found
  rw [(Engine.run_of_atoms _ line.options parsed (atoms _)).1] at result
  exact Report.exitStatus_eq_zero.mpr ⟨_, result⟩

theorem exitStatus_of_unknown {token : String} (bare : line.inventory = none)
    (unguided : line.overrides = []) (silent : around.answer = fun _ => .silence)
    (unclassified : Address.classify (Text.trim token) = none)
    (found : items line around = .ok [.string token]) : (run line around).exitStatus = 1 := by
  obtain ⟨whole, same, -, result⟩ := run_of_items (loadInventory_of_none bare) found
  refine Report.exitStatus_eq_one fun rendered ok => ?_
  rw [result, resultOf_eq_ok, same] at ok
  obtain ⟨terms, atoms, parsed, worth, -⟩ := Engine.exists_atoms_of_value ok
  have term : parseItems [.string token] = .ok [.literal token] := rfl
  rw [term] at parsed
  cases parsed
  have none_given : line.options.overrides = [] := unguided
  rw [none_given, silent, Expansion.ofItems_cons, Expansion.inScope_literal] at worth
  have meaning (engine : Engine) (undefined : engine.inventory = {}) :
      (engine.environment []).meaning (Text.trim token) = .host := by
    have same : (engine.environment []).inventory = {} := undefined
    rw [Environment.meaning, unclassified, same]
    rfl
  rw [meaning _ rfl] at worth
  cases worth

/-- A list that is nested as deep as a document can be is a list on the command line, and gives
    nothing. In an array there is no place for it but as a string, and no such name is known. -/
theorem deepest_item_differs :
    let deep := String.ofList (nestedText maxDepth)
    let around : Surroundings :=
      { inventoryAt := fun _ => .error .notFound, stdin := "", answer := fun _ => .silence }
    let line : CommandLine := {}
    let given := { line with items := [deep] }
    let piped := { around with stdin := arrayText [deep] }
    CommandLine.parse [] = .ok line ∧ CommandLine.parse ([] ++ "--" :: [deep]) = .ok given ∧
      arrayText [deep] = String.ofList ('[' :: (Json.writeString deep ++ [']'])) ∧
      (run given around).exitStatus = 0 ∧ (run line piped).exitStatus = 1 := by
  intro deep around line given piped
  have unfit : fitsInArray deep = false :=
    fitsInArray_of_unread (Option.isNone_iff_eq_none.mp (by decide +kernel))
  have read : readItem deep = nestedValue 126 :=
    readItem_of_delimited (Value.parse?_of_takes_whole (takes_nestedText 126)) rfl
  have unclassified : Address.classify (Text.trim deep) = none :=
    classify_of_unread (by decide +kernel) (by decide +kernel) (by decide +kernel)
  clear_value deep
  have array : arrayText [deep] = String.ofList ('[' :: (Json.writeString deep ++ [']'])) := by
    unfold arrayText elementText
    rw [List.map_singleton, unfit]
    rfl
  refine ⟨rfl, CommandLine.parse_append_dashes List.not_mem_nil [deep], array, ?_, ?_⟩
  · have found : items given around = .ok [readItem deep] := items_of_words (List.cons_ne_nil _ _)
    rw [read] at found
    exact exitStatus_of_nested rfl found
  · have elements : List.Forall₂ (readValue .keep 126).Takes [Json.writeString deep]
        [.string deep] := .cons (Json.takes_writeString deep) .nil
    have parsed : Value.parse? (arrayText [deep]) = some (.array [.string deep]) := by
      rw [array]
      exact Value.parse?_of_takes_whole (Json.takes_array elements [] nofun)
    have found : items line piped = .ok [.string deep] := items_of_stdin rfl parsed
    exact exitStatus_of_unknown rfl rfl rfl unclassified found

end Program

end AddressExpansion
