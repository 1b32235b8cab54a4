import AddressExpansion.Proofs.Engine.Outcome
import AddressExpansion.Proofs.Expansion.Extension
import AddressExpansion.Proofs.Term

/-! # Composition of items

What an item is worth depends neither on where it stands nor on what stands beside it. So a run is
worth its items one after the other, and lists among them may be put in brackets or taken out of
brackets as one likes.
-/

namespace AddressExpansion

namespace Expansion

variable {env : Environment} {terms : List Term}

theorem worth_inScope_root (env : Environment) (index : Nat) (term : Term) :
    (inScope env (.root index) term).worth = (inScope env (.root 0) term).worth := by
  have same : ∀ i j, (inScope env (.root i) term).faults env = [] →
      inScope env (.root j) term = inScope env (.root i) term :=
    fun i j sound => inScope_eq_of_sound (.refl env) (Scope.around_root j _) sound
  by_cases sound : (inScope env (.root 0) term).faults env = []
  · rw [same 0 index sound]
  · have lost : (inScope env (.root index) term).faults env ≠ [] := by
      intro sound'
      rw [same index 0 sound'] at sound
      exact sound sound'
    rw [worth_eq_none.mpr sound, worth_eq_none.mpr lost]

theorem worths_ofItems (env : Environment) (index : Nat) (terms : List Term) :
    together ((ofItems env index terms).map worth) =
      (inScope env (.root 0) (.list terms)).worth := by
  rw [inScope_list, worth_list, List.map_map]
  congr 1
  induction terms generalizing index with
  | nil => rfl
  | cons term terms ih =>
      rw [ofItems_cons, List.map_cons, List.map_cons, ih, worth_inScope_root]
      rfl

theorem ofItems_of_worth (sound : (inScope env (.root 0) (.list terms)).worth ≠ none) :
    list (ofItems env 0 terms) = inScope env (.root 0) (.list terms) := by
  have clean : (inScope env (.root 0) (.list terms)).faults env = [] := by
    by_contra faulty
    exact sound (worth_eq_none.mpr faulty)
  rw [inScope_list, faults_list, List.flatMap_map, List.flatMap_eq_nil_iff] at clean
  have each : ∀ index, ofItems env index terms = terms.map (inScope env (.root 0)) := by
    clear sound
    induction terms with
    | nil => exact fun _ => rfl
    | cons term terms ih =>
        intro index
        rw [List.forall_mem_cons] at clean
        rw [ofItems_cons, List.map_cons, ih clean.2,
          inScope_eq_of_sound (.refl env) (Scope.around_root index _) clean.1]
  rw [inScope_list, each]

end Expansion

namespace Json.Value

/-- The atoms that a value gives as an item, if it is a term without faults. -/
def worth (env : Environment) (value : Json.Value) : Option (List Atom) :=
  (Term.ofValue value).toOption.bind fun term => (Expansion.inScope env (.root 0) term).worth

variable {env : Environment} {value : Json.Value} {items : List Json.Value} {atoms : List Atom}

theorem worth_eq_some : value.worth env = some atoms ↔
    ∃ term, Term.ofValue value = .ok term ∧
      (Expansion.inScope env (.root 0) term).worth = some atoms := by
  unfold worth
  cases Term.ofValue value <;> simp [Except.toOption]

private theorem worths_eq_map {terms : List Term}
    (read : List.Forall₂ (fun item term => Term.ofValue item = .ok term) items terms) :
    terms.map (fun term => (Expansion.inScope env (.root 0) term).worth) =
      items.map (worth env) := by
  induction read with
  | nil => rfl
  | cons here _ ih => simp [ih, worth, here, Except.toOption]

private theorem exists_terms {pieces : List (List Atom)}
    (given : items.map (worth env) = pieces.map some) :
    ∃ terms, List.Forall₂ (fun item term => Term.ofValue item = .ok term) items terms := by
  induction items generalizing pieces with
  | nil => exact ⟨[], .nil⟩
  | cons item items ih =>
      obtain ⟨piece, rest, rfl, here, others⟩ := List.map_eq_cons_iff.mp given.symm
      obtain ⟨term, read, -⟩ := worth_eq_some.mp here.symm
      obtain ⟨terms, each⟩ := ih others.symm
      exact ⟨term :: terms, .cons read each⟩

theorem worth_array (env : Environment) (items : List Json.Value) :
    (array items).worth env = together (items.map (worth env)) := by
  apply Option.ext
  intro atoms
  rw [worth_eq_some]
  constructor
  · rintro ⟨term, read, here⟩
    obtain ⟨terms, each, rfl⟩ := Term.ofValue_array.mp read
    rw [Expansion.inScope_list, Expansion.worth_list, List.map_map] at here
    rwa [← worths_eq_map each]
  · intro here
    obtain ⟨pieces, given, -⟩ := together_eq_some.mp here
    obtain ⟨terms, each⟩ := exists_terms given
    refine ⟨.list terms, Term.ofValue_array.mpr ⟨terms, each, rfl⟩, ?_⟩
    rw [Expansion.inScope_list, Expansion.worth_list, List.map_map]
    rwa [← worths_eq_map each] at here

mutual

/-- The values that are left when a value that is a list is taken out of its brackets, and the lists
    in it out of theirs. Records stay as they are. -/
def spread : Json.Value → List Json.Value
  | .array items => spreadAll items
  | .null => [.null]
  | .bool b => [.bool b]
  | .number n => [.number n]
  | .string s => [.string s]
  | .object fields => [.object fields]

/-- The values that are left when all lists among some values are taken out of their brackets. -/
def spreadAll : List Json.Value → List Json.Value
  | [] => []
  | value :: values => spread value ++ spreadAll values

end

mutual

private theorem worths_spread (env : Environment) : (value : Json.Value) →
    together (value.spread.map (worth env)) = value.worth env
  | .array items => by rw [spread, worths_spreadAll env items, worth_array]
  | .null | .bool _ | .number _ | .string _ | .object _ => by
      rw [spread, List.map_cons, List.map_nil, together_singleton]

private theorem worths_spreadAll (env : Environment) : (values : List Json.Value) →
    together ((spreadAll values).map (worth env)) = together (values.map (worth env))
  | [] => rfl
  | value :: values => by
      rw [spreadAll, List.map_append, together_append, worths_spread env value,
        worths_spreadAll env values, List.map_cons, together_cons]

end

theorem worth_spread (env : Environment) (items : List Json.Value) :
    (array (spreadAll items)).worth env = (array items).worth env := by
  rw [worth_array, worth_array, worths_spreadAll]

end Json.Value

namespace Engine

variable {engine : Engine} {options : Options} {items : List Json.Value}

theorem atomsOfAll_eq_ok {env : Environment} {terms : List Term} {atoms : List Atom} :
    Expansion.atomsOfAll (Expansion.ofItems env 0 terms) = .ok atoms ↔
      (Expansion.inScope env (.root 0) (.list terms)).worth = some atoms := by
  rw [← Expansion.worths_ofItems env 0, ← Expansion.toOption_atomsOfAll]
  cases Expansion.atomsOfAll (Expansion.ofItems env 0 terms) <;> simp [Except.toOption]

/-- A run whose items are worth something gives that, and makes the lookups of one list of them. -/
theorem run_of_worth {terms : List Term} {atoms : List Atom} (parsed : parseItems items = .ok terms)
    (worth : (Expansion.inScope (engine.environment options.overrides) (.root 0)
      (.list terms)).worth = some atoms) :
    (engine.run options items none).ending = .value (.ofAtoms atoms options.format) ∧
      ((engine.run options items none).calls.map Call.name).Perm
        (Expansion.inScope (engine.environment options.overrides) (.root 0)
          (.list terms)).lookups := by
  obtain ⟨ends, calls⟩ := engine.run_of_atoms options parsed (atomsOfAll_eq_ok.mpr worth)
  have unfolds := Expansion.ofItems_of_worth (worth ▸ Option.some_ne_none atoms)
  rw [← unfolds]
  exact ⟨ends, calls⟩

theorem value_iff {value : Rendered} : (engine.run options items none).ending = .value value ↔
    ∃ atoms, (Json.Value.array items).worth (engine.environment options.overrides) = some atoms ∧
      value = .ofAtoms atoms options.format := by
  constructor
  · intro succeeds
    obtain ⟨terms, atoms, parsed, same, rendered⟩ := exists_atoms_of_value succeeds
    have read := Term.ofValue_array.mpr ⟨terms, parseItems_eq_ok.mp parsed, rfl⟩
    exact ⟨atoms, Json.Value.worth_eq_some.mpr ⟨_, read, atomsOfAll_eq_ok.mp same⟩, rendered⟩
  · rintro ⟨atoms, worth, rfl⟩
    obtain ⟨term, read, worth⟩ := Json.Value.worth_eq_some.mp worth
    obtain ⟨terms, each, rfl⟩ := Term.ofValue_array.mp read
    exact (run_of_worth (parseItems_eq_ok.mpr each) worth).1

private theorem raw_iff {atoms : List Atom} :
    (engine.run { options with format := .raw } items none).ending = .value (.raw atoms) ↔
      (Json.Value.array items).worth (engine.environment options.overrides) = some atoms := by
  rw [value_iff]
  constructor
  · rintro ⟨atoms', worth, same⟩
    rwa [Rendered.raw.inj same]
  · exact fun worth => ⟨atoms, worth, rfl⟩

/-- Items compose. A raw run of some items and others gives atoms exactly if a run of the ones and a
    run of the others do, and gives the atoms of the ones and then of the others. A list of items in
    brackets gives what the items give; and however lists among items are put in brackets, at
    whatever depth, the result in each format is the same. -/
theorem items_compose (engine : Engine) (options : Options) (xs ys : List Json.Value) :
    let raw (items : List Json.Value) : Ending Rendered :=
      (engine.run { options with format := .raw } items none).ending
    (∀ value, raw (xs ++ ys) = .value value ↔ ∃ front back,
      raw xs = .value (.raw front) ∧ raw ys = .value (.raw back) ∧ value = .raw (front ++ back)) ∧
    (∀ value, raw [.array xs] = .value value ↔ raw xs = .value value) ∧
    (Json.Value.spreadAll xs = Json.Value.spreadAll ys → ∀ value,
      (engine.run options xs none).ending = .value value ↔
        (engine.run options ys none).ending = .value value) := by
  intro raw
  refine ⟨?_, ?_, ?_⟩
  · intro value
    simp only [raw, raw_iff]
    rw [value_iff, Json.Value.worth_array, List.map_append, together_append,
      ← Json.Value.worth_array, ← Json.Value.worth_array]
    constructor
    · rintro ⟨atoms, worth, rfl⟩
      obtain ⟨front, ofFront, worth⟩ := Option.bind_eq_some_iff.mp worth
      obtain ⟨back, ofBack, rfl⟩ := Option.map_eq_some_iff.mp worth
      exact ⟨front, back, ofFront, ofBack, rfl⟩
    · rintro ⟨front, back, ofFront, ofBack, rfl⟩
      exact ⟨front ++ back, Option.bind_eq_some_iff.mpr
        ⟨front, ofFront, Option.map_eq_some_iff.mpr ⟨back, ofBack, rfl⟩⟩, rfl⟩
  · intro value
    simp only [raw, value_iff]
    rw [Json.Value.worth_array, List.map_singleton, together_singleton]
  · intro regrouped value
    rw [value_iff, value_iff, ← Json.Value.worth_spread, regrouped, Json.Value.worth_spread]

/-- One bracketing gives the same as another. -/
theorem items_compose_bracketed_twice :
    let ip : Ip := ⟨.v4, 1, by decide⟩
    let engine : Engine := { answer := fun _ => .atOnce (.addresses [ip]) }
    let xs : List Json.Value := [.string "a", .array [.string "b"]]
    let ys : List Json.Value := [.array [.string "a"], .string "b"]
    (engine.run {} xs none).ending = .value (.ips [.host ip]) ∧
      (engine.run {} ys none).ending = .value (.ips [.host ip]) := by
  intro ip engine xs ys
  have parsed : parseItems xs = .ok [.literal "a", .list [.literal "b"]] := rfl
  have unfolds : Expansion.ofItems (engine.environment []) 0 [.literal "a", .list [.literal "b"]] =
      [.host "a" [ip], .list [.host "b" [ip]]] := rfl
  have atoms : Expansion.atomsOfAll
      (Expansion.ofItems (engine.environment []) 0 [.literal "a", .list [.literal "b"]]) =
        .ok [.single (.host ip) "a", .single (.host ip) "b"] := by
    rw [unfolds]
    rfl
  have given : (engine.run {} xs none).ending = .value (.ips [.host ip]) :=
    (engine.run_of_atoms {} parsed atoms).1
  exact ⟨given, ((items_compose engine {} xs ys).2.2 rfl _).mp given⟩

end Engine

end AddressExpansion
