import AddressExpansion.Proofs.Engine.Composition

/-! # Definitions written in place of names

A token may be replaced by what it stands for, wherever it stands in the items: a group by a record
of its members, a variable by its value, a name whose lookup fails by a record of its override. No
name is open around an item, so what could be opened inside the name can be opened without it.
-/

namespace AddressExpansion

def Json.Value.commented (comment : String) (ip : Json.Value) : Json.Value :=
  .object [("comment", .string comment), ("ip", ip)]

/-- Whether a value is what a token stands for, and which lookups are saved by writing it. -/
inductive StandsFor (env : Environment) : Json.Value → String → List String → Prop
  | group {token members} (meaning : env.meaning (Text.trim token) = .group members) :
      StandsFor env (.commented (Text.trim token) (.array (members.map .string))) token []
  | var {token value} (meaning : env.meaning (Text.trim token) = .var value) :
      StandsFor env value token []
  | override {token reason value} (meaning : env.meaning (Text.trim token) = .host)
      (fails : env.outcome (Text.trim token) = .error reason)
      (given : env.override? (Text.trim token) = some value) :
      StandsFor env (.commented (Text.trim token) value) token [Text.trim token]

/-- Whether a value comes of another one when what it stands for is written for one of its tokens,
    and which lookups are saved by that. -/
inductive Inlined (env : Environment) (saved : List String) : Json.Value → Json.Value → Prop
  | token {token value} (defined : StandsFor env value token saved) :
      Inlined env saved (.string token) value
  | item {front back value value'} (inside : Inlined env saved value value') :
      Inlined env saved (.array (front ++ value :: back)) (.array (front ++ value' :: back))
  | ip {front back value value'} (first : ∀ field ∈ front, field.1 ≠ "ip")
      (inside : Inlined env saved value value') :
      Inlined env saved (.object (front ++ ("ip", value) :: back))
        (.object (front ++ ("ip", value') :: back))

namespace Inlined

variable {env : Environment} {saved : List String} {value value' : Json.Value} {term : Term}

/-- Whether a value is a term that is worth as much as another one, once some lookups are saved. -/
def Replaces (env : Environment) (saved : List String) (value : Json.Value) (term : Term) : Prop :=
  ∃ term', Term.ofValue value = .ok term' ∧
    (Expansion.inScope env (.root 0) term').worth = (Expansion.inScope env (.root 0) term).worth ∧
    (saved ++ (Expansion.inScope env (.root 0) term').lookups).Perm
      (Expansion.inScope env (.root 0) term).lookups

theorem ofValue_commented {comment : String} {ip : Term} (read : Term.ofValue value = .ok ip) :
    Term.ofValue (.commented comment value) = .ok (.record ip (some comment)) := by
  unfold Json.Value.commented
  rw [Term.ofValue, Term.ofIpField, if_neg (by decide), Term.ofIpField, if_pos rfl, read]
  rfl

theorem replaces_token {token : String} (defined : StandsFor env value token saved)
    (sound : (Expansion.inScope env (.root 0) (.literal token)).faults env = []) :
    Replaces env saved value (.literal token) := by
  unfold Replaces
  rw [Expansion.inScope_literal] at sound ⊢
  cases defined with
  | @group _ members meaning =>
      rw [meaning] at sound ⊢
      obtain ⟨term, same, unopened⟩ := Expansion.inScope_of_sound_definition sound
      obtain rfl := Except.ok.inj same
      have read : Term.ofValue (.array (members.map .string)) =
          .ok (.list (members.map .literal)) :=
        Term.ofValue_array.mpr ⟨_, by simp [Term.ofValue], rfl⟩
      refine ⟨_, ofValue_commented read, ?_, ?_⟩
      · rw [Expansion.inScope_record, unopened, Expansion.worth_record, Expansion.worth_group]
      · rw [Expansion.inScope_record, unopened]
        exact .refl _
  | var meaning =>
      rw [meaning] at sound ⊢
      obtain ⟨term, read, unopened⟩ := Expansion.inScope_of_sound_definition sound
      refine ⟨term, Scope.readValue_eq_ok.mp read, ?_, ?_⟩
      · rw [unopened, Expansion.worth_var]
      · rw [unopened]
        exact .refl _
  | override meaning fails given =>
      rw [meaning] at sound ⊢
      simp only [Expansion.ofHost, fails, given] at sound ⊢
      obtain ⟨term, read, unopened⟩ :=
        Expansion.inScope_of_sound_definition (Expansion.sound_of_rescue sound).1
      refine ⟨_, ofValue_commented (Scope.readValue_eq_ok.mp read), ?_, ?_⟩
      · -- An override has an address, so the record has an atom as well.
        have worth : Expansion.worth _ ≠ none := fun lost => Expansion.worth_eq_none.mp lost sound
        rw [Expansion.worth_rescue, ← unopened] at worth ⊢
        rw [Expansion.inScope_record, Expansion.worth_record]
        cases inner : (Expansion.inScope env (.root 0) term).worth with
        | none => rfl
        | some atoms =>
            rw [inner, Option.bind_some] at worth
            rw [Option.map_some, Option.bind_some]
            cases gathered : Atom.gather? atoms (some _) with
            | none => rw [gathered] at worth; exact absurd rfl worth
            | some atom => rfl
      · rw [Expansion.inScope_record, unopened]
        exact .refl _

theorem replaces (inlined : Inlined env saved value value') (read : Term.ofValue value = .ok term)
    (sound : (Expansion.inScope env (.root 0) term).faults env = []) :
    Replaces env saved value' term := by
  induction inlined generalizing term with
  | token defined =>
      obtain rfl := Except.ok.inj read
      exact replaces_token defined sound
  | item _ ih =>
      obtain ⟨terms, each, rfl⟩ := Term.ofValue_array.mp read
      obtain ⟨front, part, back, rfl, before, here, after⟩ := exists_of_forall₂_middle each
      rw [Expansion.inScope_list, Expansion.faults_list, List.flatMap_map,
        List.flatMap_eq_nil_iff] at sound
      obtain ⟨part', read', worth, lookups⟩ := ih here (sound part (by simp))
      refine ⟨.list (front ++ part' :: back),
        Term.ofValue_array.mpr ⟨_, List.rel_append before (.cons read' after), rfl⟩, ?_, ?_⟩
      · simp only [Expansion.inScope_list, Expansion.worth_list, List.map_append, List.map_cons,
          worth]
      · simp only [Expansion.inScope_list, Expansion.lookups, Expansion.lookupsOfAll_eq_flatMap,
          List.map_append, List.map_cons, List.flatMap_append, List.flatMap_cons]
        have moved := List.perm_append_comm_assoc saved
          ((front.map (Expansion.inScope env (.root 0))).flatMap Expansion.lookups)
        refine (moved _).trans (List.Perm.append_left _ ?_)
        rw [← List.append_assoc]
        exact lookups.append_right _
  | @ip front back value value' first _ ih =>
      obtain ⟨ip, comment, inner, commented, rfl⟩ :=
        (Term.ofValue_object (Term.ofIpField_append first)).mp read
      rw [Expansion.inScope_record, Expansion.faults_record] at sound
      obtain ⟨ip', inner', worth, lookups⟩ := ih inner sound
      rw [Term.readComment_append front back value value'] at commented
      refine ⟨.record ip' comment, (Term.ofValue_object (Term.ofIpField_append first)).mpr
        ⟨ip', comment, inner', commented, rfl⟩, ?_, ?_⟩
      · rw [Expansion.inScope_record, Expansion.inScope_record, Expansion.worth_record,
          Expansion.worth_record, worth]
      · rw [Expansion.inScope_record, Expansion.inScope_record]
        exact lookups

end Inlined

namespace Engine

/-- Writing a definition in place of a name keeps the meaning. If a run gives a value, so does a run
    of the same items with what one of their tokens stands for in the place of the token, and the
    same value. It makes the same calls, but for the failed call of a token that has an override. -/
theorem inlining_keeps_value (engine : Engine) (options : Options) (items items' : List Json.Value)
    (saved : List String) (value : Rendered)
    (inlined : Inlined (engine.environment options.overrides) saved (.array items) (.array items'))
    (succeeds : (engine.run options items none).ending = .value value) :
    (engine.run options items' none).ending = .value value ∧
      (saved ++ (engine.run options items' none).calls.map Call.name).Perm
        ((engine.run options items none).calls.map Call.name) := by
  obtain ⟨terms, atoms, parsed, same, rfl⟩ := exists_atoms_of_value succeeds
  have worth := atomsOfAll_eq_ok.mp same
  have read := Term.ofValue_array.mpr ⟨terms, parseItems_eq_ok.mp parsed, rfl⟩
  have sound : (Expansion.inScope (engine.environment options.overrides) (.root 0)
      (.list terms)).faults (engine.environment options.overrides) = [] := by
    by_contra faulty
    rw [Expansion.worth_eq_none.mpr faulty] at worth
    cases worth
  obtain ⟨term', read', worth', lookups⟩ := inlined.replaces read sound
  obtain ⟨terms', each, rfl⟩ := Term.ofValue_array.mp read'
  have run := run_of_worth parsed worth
  have run' := run_of_worth (parseItems_eq_ok.mpr each) (worth'.trans worth)
  exact ⟨run'.1, (run'.2.append_left saved).trans (lookups.trans run.2.symm)⟩

/-- An override inside a list inside a record. -/
theorem inlining_keeps_value_of_an_override :
    let ip : Ip := ⟨.v4, 1, by decide⟩
    let engine : Engine := { answer := fun _ => .after 5 (.refusal "gone") }
    let options : Options := { overrides := [("db", .string "0.0.0.1")] }
    let items : List Json.Value := [.object [("ip", .array [.string " db "])]]
    let items' : List Json.Value :=
      [.object [("ip", .array [.object [("comment", .string "db"), ("ip", .string "0.0.0.1")]])]]
    (engine.run options items none).ending = .value (.ips [.host ip]) ∧
      (engine.run options items' none).ending = .value (.ips [.host ip]) ∧
      (["db"] ++ (engine.run options items' none).calls.map Call.name).Perm
        ((engine.run options items none).calls.map Call.name) := by
  intro ip engine options items items'
  have parsed : parseItems items = .ok [.record (.list [.literal " db "]) none] := rfl
  have unfolds : Expansion.ofItems (engine.environment options.overrides) 0
      [.record (.list [.literal " db "]) none] =
        [.record none (.list [.rescue "db" (.refused "gone") (.string "0.0.0.1")
          (.literal "0.0.0.1" (.host ip))])] := rfl
  have atoms : Expansion.atomsOfAll (Expansion.ofItems (engine.environment options.overrides) 0
      [.record (.list [.literal " db "]) none]) =
        .ok (Atom.gather? [.single (.host ip) "db"] none).toList := by
    rw [unfolds]
    rfl
  have succeeds : (engine.run options items none).ending = .value (.ips [.host ip]) :=
    (engine.run_of_atoms options parsed atoms).1
  have trimmed : Text.trim " db " = "db" := rfl
  have defined := @StandsFor.override (engine.environment options.overrides) " db "
    (.refused "gone") (.string "0.0.0.1")
  rw [trimmed] at defined
  have inlined : Inlined (engine.environment options.overrides) ["db"] (.array items)
      (.array items') :=
    @Inlined.item _ _ [] [] _ _ <| @Inlined.ip _ _ [] [] _ _ nofun <|
      @Inlined.item _ _ [] [] _ _ <| .token (defined rfl rfl rfl)
  exact ⟨succeeds, inlining_keeps_value engine options items items' ["db"] _ inlined succeeds⟩

end Engine

end AddressExpansion
