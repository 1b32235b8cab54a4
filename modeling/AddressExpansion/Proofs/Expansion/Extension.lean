import AddressExpansion.Proofs.Expansion.Parts

/-! # Sound expansions in wider environments

A sound expansion opens only names that may be opened, and takes only overrides that there are. So
it is the same where fewer names are open around it, and where there are more overrides.
-/

namespace AddressExpansion

/-- Whether an environment has all that another one has, and perhaps more overrides. -/
structure Environment.Extends (wide env : Environment) : Prop where
  meaning : ∀ name, wide.meaning name = env.meaning name
  outcome : ∀ name, wide.outcome name = env.outcome name
  override : ∀ name value, env.override? name = some value → wide.override? name = some value

theorem Environment.Extends.refl (env : Environment) : env.Extends env :=
  ⟨fun _ => rfl, fun _ => rfl, fun _ _ => id⟩

/-- Whether every name that is open in a scope is open in another one, and no more names are. -/
structure Scope.Around (outer scope : Scope) : Prop where
  chain : ∀ name ∈ outer.chain, name ∈ scope.chain
  depth : outer.depth ≤ scope.depth

namespace Scope

theorem around_root (item : Nat) (scope : Scope) : (root item).Around scope :=
  ⟨nofun, Nat.zero_le _⟩

theorem Around.refl (scope : Scope) : scope.Around scope :=
  ⟨fun _ => id, Nat.le_refl _⟩

theorem Around.inside {outer scope : Scope} (around : outer.Around scope) (name : String) :
    outer.Around (scope.enter name) where
  chain other isOpen := List.mem_cons_of_mem _ (around.chain other isOpen)
  depth := Nat.le_succ_of_le around.depth

theorem Around.enter {outer scope : Scope} (around : outer.Around scope) (name : String) :
    (outer.enter name).Around (scope.enter name) where
  chain other isOpen := by
    rcases List.mem_cons.mp isOpen with rfl | isOpen
    · exact List.mem_cons_self
    · exact List.mem_cons_of_mem _ (around.chain other isOpen)
  depth := Nat.succ_le_succ around.depth

theorem Around.enter? {outer scope within : Scope} {name : String} (around : outer.Around scope)
    (entered : scope.enter? name = .ok within) :
    ∃ within', outer.enter? name = .ok within' ∧ within'.Around within := by
  obtain ⟨fresh, low, rfl⟩ := enter?_eq_ok.mp entered
  refine ⟨outer.enter name, enter?_eq_ok.mpr ⟨?_, ?_, rfl⟩, around.enter name⟩
  · exact fun isOpen => fresh (around.chain name isOpen)
  · exact Nat.lt_of_le_of_lt around.depth low

theorem readValue_eq_ok {scope : Scope} {name : String} {value : Json.Value} {term : Term} :
    scope.readValue name value = .ok term ↔ Term.ofValue value = .ok term := by
  unfold readValue
  cases Term.ofValue value <;> simp [Except.mapError]

end Scope

namespace Expansion

variable {wide env : Environment} {outer scope : Scope} {name : String}

private theorem ofDefinition_eq_of_sound {definition definition' : Except Failure Term}
    (around : outer.Around scope)
    (sound : (ofDefinition env scope name definition).faults env = [])
    (read : ∀ term, definition = .ok term → definition' = .ok term)
    (inside : ∀ within term outer, scope.enter? name = .ok within → outer.Around within →
      (inScope env within term).faults env = [] →
      inScope wide outer term = inScope env within term) :
    ofDefinition wide outer name definition' = ofDefinition env scope name definition := by
  obtain ⟨within, term, entered, rfl, same⟩ := exists_of_sound_definition sound
  obtain ⟨within', entered', around'⟩ := around.enter? entered
  rw [same] at sound ⊢
  unfold ofDefinition
  rw [entered', read term rfl]
  exact inside within term within' entered around' sound

/-- A sound expansion is the same further out and with more overrides. -/
theorem inScope_eq_of_sound (extends' : wide.Extends env) {term : Term}
    (around : outer.Around scope)
    (sound : (inScope env scope term).faults env = []) :
    inScope wide outer term = inScope env scope term := by
  induction scope, term using unfolding_induct generalizing outer with
  | record scope ip comment ih =>
      rw [inScope_record] at sound ⊢
      rw [inScope_record, ih around sound]
  | list scope items ih =>
      rw [inScope_list] at sound ⊢
      rw [faults_list, List.flatMap_map, List.flatMap_eq_nil_iff] at sound
      rw [inScope_list]
      congr 1
      exact List.map_congr_left fun item given => ih item given around (sound item given)
  | token scope token ih =>
      have unfolds := ofName_token env scope token
      rw [inScope_literal wide, extends'.meaning]
      generalize Text.trim token = name, inScope env scope (.literal token) = e
        at ih unfolds sound ⊢
      have opens : ∀ {definition definition' : Except Failure Term},
          (ofDefinition env scope name definition).faults env = [] →
          (∀ term, definition = .ok term → definition' = .ok term) →
          ofDefinition wide outer name definition' = ofDefinition env scope name definition :=
        fun sound read => ofDefinition_eq_of_sound around sound read
          fun within term outer entered => ih name within term entered
      have values : ∀ (value : Json.Value) (term : Term),
          scope.readValue name value = .ok term → outer.readValue name value = .ok term :=
        fun value term read => Scope.readValue_eq_ok.mpr (Scope.readValue_eq_ok.mp read)
      cases unfolds with
      | literal meaning => rw [meaning]
      | group meaning =>
          rw [meaning]
          exact congrArg _ (opens sound fun _ => id)
      | var meaning =>
          rw [meaning]
          exact congrArg _ (opens sound (values _))
      | host meaning answered => simp only [meaning, ofHost, extends'.outcome, answered]
      | lost => cases sound
      | rescue meaning failed override =>
          simp only [meaning, ofHost, extends'.outcome, failed, extends'.override name _ override]
          exact congrArg _ (opens (sound_of_rescue sound).1 (values _))

/-- What a name opens soundly can be had without opening the name. -/
theorem inScope_of_sound_definition {definition : Except Failure Term}
    (sound : (ofDefinition env scope name definition).faults env = []) :
    ∃ term, definition = .ok term ∧
      inScope env scope term = ofDefinition env scope name definition := by
  obtain ⟨within, term, entered, read, same⟩ := exists_of_sound_definition sound
  obtain ⟨-, -, rfl⟩ := Scope.enter?_eq_ok.mp entered
  rw [same] at sound ⊢
  exact ⟨term, read, inScope_eq_of_sound (.refl env) ((Scope.Around.refl scope).inside name) sound⟩

theorem ofItems_eq_of_sound (extends' : wide.Extends env) {terms : List Term} {index : Nat}
    (sound : ∀ e ∈ ofItems env index terms, e.faults env = []) :
    ofItems wide index terms = ofItems env index terms := by
  induction terms generalizing index with
  | nil => rfl
  | cons term terms ih =>
      rw [ofItems_cons, List.forall_mem_cons] at sound
      rw [ofItems_cons, ofItems_cons, inScope_eq_of_sound extends' (.refl _) sound.1, ih sound.2]

end Expansion

end AddressExpansion
