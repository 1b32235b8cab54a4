import AddressExpansion.LogLine
import AddressExpansion.Proofs.Json.Locality

/-! # Log lines are read back

Names of hosts, comments and the words of a resolver are put into messages as they come. A message
that is written as a JSON line is still one line and one document, from which the message is read
back: only its text can hold anything odd, and that is escaped. Level and target are never odd.
-/

namespace AddressExpansion

open Json Text

/-! ## Levels and targets -/

theorem Level.escapeChar_name (level : Level) : ∀ c ∈ level.name.toList, escapeChar c = [c] := by
  have plain : level.name.toList.all (fun c => escapeChar c = [c]) := by cases level <;> decide
  exact fun c member => of_decide_eq_true (List.all_eq_true.mp plain c member)

namespace Message

def targets : List String :=
  ["netspec::engine", "netspec::normalize", "netspec::inventory", "netspec",
    "netspec::initialization::resolver"]

theorem target_mem_targets (message : Message) : message.target ∈ targets := by
  cases message <;> simp [target, targets]

theorem escapeChar_target (message : Message) :
    ∀ c ∈ message.target.toList, escapeChar c = [c] := by
  have plain : ∀ name ∈ targets, name.toList.all fun c => escapeChar c = [c] := by decide
  exact fun c member =>
    of_decide_eq_true (List.all_eq_true.mp (plain _ message.target_mem_targets) c member)

/-! ## Fields -/

def textFields (message : Message) : List (String × String) :=
  [("level", message.level.name), ("target", message.target), ("msg", message.text)]

def writeField (field : String × String) : List Char :=
  writeString field.1 ++ Layout.colon .compact ++ writeString field.2

def writeTime (time : Nat) : List Char :=
  writeString "ts" ++ ':' :: Nat.toDigits 10 time

theorem toList_jsonLine (time : Nat) (message : Message) :
    (message.jsonLine time).toList =
      '\x7b' :: (writeTime time ++
        ',' :: (joinWith ',' (message.textFields.map writeField) ++ ['\x7d'])) := by
  have opening : "\x7b\"ts\":".toList = '\x7b' :: (writeString "ts" ++ [':']) := rfl
  have beforeLevel : ",\"level\":\"".toList = ',' :: (writeString "level" ++ [':', '"']) := rfl
  have beforeTarget : "\",\"target\":\"".toList =
      '"' :: ',' :: (writeString "target" ++ [':', '"']) := rfl
  have beforeText : "\",\"msg\":".toList = '"' :: ',' :: (writeString "msg" ++ [':']) := rfl
  have level := writeString_of_plain message.level.escapeChar_name
  have target := writeString_of_plain message.escapeChar_target
  simp only [textFields, List.map_cons, List.map_nil, joinWith, writeField, level, target]
  unfold jsonLine
  rw [String.toList_ofList, opening, beforeLevel, beforeTarget, beforeText]
  simp only [writeTime, Layout.colon, List.append_assoc, List.cons_append, List.nil_append]

/-! ## Control characters -/

theorem not_lt_space_of_mem_writeTime {time : Nat} {c : Char} (member : c ∈ writeTime time) :
    ¬ c < ' ' := by
  rcases List.mem_append.mp member with name | value
  · exact not_lt_space_of_mem_writeString name
  · rcases List.mem_cons.mp value with rfl | digit
    · decide
    · have isDigit := Nat.isDigit_of_mem_toDigits (by decide) (by decide) digit
      simp only [Char.isDigit, Bool.and_eq_true, decide_eq_true_eq] at isDigit
      exact fun control => absurd (UInt32.lt_of_lt_of_le control (by decide : ' '.val ≤ 48))
        (UInt32.not_lt.mpr isDigit.1)

theorem not_lt_space_of_mem_writeField {field : String × String} {c : Char}
    (member : c ∈ writeField field) : ¬ c < ' ' := by
  simp only [writeField, Layout.colon, List.mem_append, List.mem_singleton] at member
  rcases member with (name | rfl) | value
  · exact not_lt_space_of_mem_writeString name
  · decide
  · exact not_lt_space_of_mem_writeString value

theorem not_lt_space_of_mem_jsonLine {time : Nat} {message : Message} {c : Char}
    (member : c ∈ (message.jsonLine time).toList) : ¬ c < ' ' := by
  rw [toList_jsonLine, textFields, List.map_cons, joinWith_cons] at member
  simp only [List.mem_cons, List.mem_append, List.mem_flatMap, List.mem_map, List.not_mem_nil,
    or_false] at member
  rcases member with rfl | time | rfl | (first | ⟨_, ⟨field, -, rfl⟩, rfl | inside⟩) | rfl
  · decide
  · exact not_lt_space_of_mem_writeTime time
  · decide
  · exact not_lt_space_of_mem_writeField first
  · decide
  · exact not_lt_space_of_mem_writeField inside
  · decide

/-! ## Reading -/

theorem readField_writeTime {time depth : Nat} (clock : time < UInt64.size) (rest : List Char) :
    readField .keep (fun _ => readValue .keep depth) (writeTime time ++ ',' :: rest) =
      some (("ts", .number (.integer time)), ',' :: rest) := by
  have ends : EndsNumber ',' := ⟨rfl, by decide, by decide, by decide⟩
  have digits : readNumber .keep (Nat.toDigits 10 time ++ ',' :: rest) =
      some (.integer time, ',' :: rest) := readNumber_toDigits clock ends rest
  have value : readValue .keep depth (Nat.toDigits 10 time ++ ',' :: rest) =
      some (.number (.integer time), ',' :: rest) := readValue_of_readNumber digits
  refine readField_eq_some.mpr ⟨_, _, ?_, skipGap_cons rfl _, value⟩
  rw [writeTime, List.append_assoc]
  exact readString_writeString "ts"

/-- The fields of a line in the order of their names. -/
theorem ofEntries_fields (time level target text : Value) :
    Table.ofEntries [("ts", time), ("level", level), ("target", target), ("msg", text)] =
      [("level", level), ("msg", text), ("target", target), ("ts", time)] := by
  have levelFirst : "level" < "ts" := by decide +kernel
  have targetThird : ¬"target" < "level" ∧ "target" < "ts" := by decide +kernel
  have msgSecond : ¬"msg" < "level" ∧ "msg" < "target" := by decide +kernel
  have targetOther : "target" ≠ "level" := by decide +kernel
  have msgOther : "msg" ≠ "level" := by decide +kernel
  simp only [Table.ofEntries, List.foldl_cons, List.foldl_nil, Table.insert, if_pos levelFirst,
    if_neg targetThird.1, if_pos targetThird.2, if_neg targetOther, if_neg msgSecond.1,
    if_pos msgSecond.2, if_neg msgOther]

theorem parse?_jsonLine {time : Nat} (clock : time < UInt64.size) (message : Message) :
    Value.parse? (message.jsonLine time) =
      some (.object [("level", .string message.level.name), ("msg", .string message.text),
        ("target", .string message.target), ("ts", .number (.integer time))]) := by
  have opened (cs : List Char) : readValue .keep maxDepth ('\x7b' :: cs) =
      (readEnclosed (readField .keep fun _ => readValue .keep (maxDepth - 1)) '\x7d' cs).bind
        fun found => some (.object (Table.ofEntries found.1), found.2) := rfl
  have texts : List.Forall₂ (readField .keep fun _ => readValue .keep (maxDepth - 1)).Takes
      (message.textFields.map writeField)
      (message.textFields.map fun field => (field.1, .string field.2)) := by
    rw [List.forall₂_map_left_iff, List.forall₂_map_right_iff]
    exact List.forall₂_same.mpr fun field _ => takes_field .compact (takes_writeString field.2)
  have ends : skipGap ['\x7d'] = ['\x7d'] := rfl
  have fields : readEnclosed (readField .keep fun _ => readValue .keep (maxDepth - 1)) '\x7d'
      (writeTime time ++ ',' :: (joinWith ',' (message.textFields.map writeField) ++ ['\x7d'])) =
        some (("ts", .number (.integer time)) ::
          message.textFields.map fun field => (field.1, .string field.2), []) :=
    readEnclosed_of_takes_others texts (List.cons_ne_nil _ _) (by decide) ends (by rfl) (by decide)
      (readField_writeTime clock _)
  unfold Value.parse? readDocument
  rw [toList_jsonLine, opened, fields]
  exact congrArg (fun table => some (Value.object table)) (ofEntries_fields ..)

/-- Whatever its text holds, a message is written as one line, which is a document with the time,
    the level, the target and exactly this text. -/
theorem json_line_holds_message (time : Nat) (color : Bool) (message : Message)
    (clock : time < UInt64.size) :
    let line := message.line ⟨.json, color⟩ time
    '\n' ∉ line.toList ∧ '\r' ∉ line.toList ∧
      Value.parse? line =
        some (.object [("level", .string message.level.name), ("msg", .string message.text),
          ("target", .string message.target), ("ts", .number (.integer time))]) := by
  intro line
  refine ⟨fun newline => ?_, fun carriage => ?_, parse?_jsonLine clock message⟩
  · exact not_lt_space_of_mem_jsonLine newline (by decide)
  · exact not_lt_space_of_mem_jsonLine carriage (by decide)

/-- A resolver that answers with the end of a line and the beginning of another. -/
theorem json_line_holds_message_of_another_line :
    let message : Message :=
      .rescued (.resolution "a\\" (.refused "no\"\x7d\r\n\x7b\"ts\":0")) (.string "::1")
    let line := message.line ⟨.json, true⟩ 7
    '\n' ∉ line.toList ∧
      Value.parse? line = some (.object [("level", .string "WARN"),
        ("msg", .string
          "could not resolve 'a\\': no\"\x7d\r\n\x7b\"ts\":0; using dns override \"::1\""),
        ("target", .string "netspec::normalize"), ("ts", .number (.integer 7))]) := by
  intro message line
  obtain ⟨newline, -, parsed⟩ := json_line_holds_message 7 true message (by decide)
  have text : message.text =
      "could not resolve 'a\\': no\"\x7d\r\n\x7b\"ts\":0; using dns override \"::1\"" := by
    decide
  rw [text] at parsed
  exact ⟨newline, parsed⟩

end Message

end AddressExpansion
