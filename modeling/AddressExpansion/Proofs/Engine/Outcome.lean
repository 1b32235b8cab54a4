import AddressExpansion.Proofs.Run
import AddressExpansion.Proofs.Sequential
import AddressExpansion.Proofs.Term

/-! # Runs and sequential evaluation

In a run everything goes on side by side, and lookups compete for lines. What comes of it is what a
sequential evaluation gives, whatever the order in which lookups end.
-/

namespace AddressExpansion

/-- How a run ends whose atoms are rendered in a format. -/
def Ending.rendered (format : Format) : Outcome → Ending Rendered
  | .ok atoms => .value (.ofAtoms atoms format)
  | .error f => .failure f

theorem Expansion.mem_ofItems {env : Environment} {index : Nat} {terms : List Term} {e : Expansion}
    (member : e ∈ ofItems env index terms) :
    ∃ i term, terms[i]? = some term ∧ e = inScope env (.root (index + i)) term := by
  induction terms generalizing index with
  | nil => cases member
  | cons term terms ih =>
      rw [ofItems_cons] at member
      rcases List.mem_cons.mp member with rfl | member
      · exact ⟨0, term, rfl, rfl⟩
      · obtain ⟨i, term', located, same⟩ := ih member
        exact ⟨i + 1, term', located, by rw [same, Nat.add_right_comm, Nat.add_assoc]⟩

namespace Engine

variable {engine : Engine} {options : Options} {items : List Json.Value} {terms : List Term}

/-- The progress of a run that has read its items. -/
def begun (engine : Engine) (options : Options) (terms : List Term) : Progress :=
  { Run.idle (engine.environment options.overrides) with tracing := options.debug }.say
    (.started terms.length options.format options.overrides.length)

theorem run_eq (engine : Engine) (options : Options)
    (parsed : parseItems items = .ok terms) {cancelAt : Option Nat} (later : cancelAt ≠ some 0) :
    engine.run options items cancelAt =
      (Run.ofTerms (engine.environment options.overrides) cancelAt terms
        (engine.begun options terms)).conclude
          (Rendered.ofAtoms · options.format) fun atoms =>
            .rendering atoms.length options.format := by
  unfold run
  simp only [if_neg later, parsed]
  rfl

/-- A run that is not cancelled renders an outcome that agrees with what its items unfold to. -/
theorem run_spec (engine : Engine) (options : Options) (cancelAt : Option Nat)
    (parsed : parseItems items = .ok terms) :
    (∃ outcome, (engine.run options items cancelAt).ending = .rendered options.format outcome ∧
      Run.Agrees (engine.environment options.overrides) terms outcome
        ((engine.run options items cancelAt).calls.map Call.name)) ∨
    cancelAt ≠ none ∧ (engine.run options items cancelAt).ending = .failure .cancelled := by
  by_cases later : cancelAt = some 0
  · subst later
    exact .inr ⟨nofun, rfl⟩
  have resolves := engine.run_eq options parsed later
  have untouched : Task.Untouched (engine.environment options.overrides).permits
      (engine.begun options terms) := ⟨rfl, rfl⟩
  rw [resolves]
  rcases Run.ofTerms_spec cancelAt terms untouched with
    ⟨outcome, q, same, agrees⟩ | ⟨time, q, cancels, same⟩
  · left
    rw [same]
    refine ⟨outcome, ?_, ?_⟩
    · cases outcome <;> rfl
    · cases outcome <;> exact agrees
  · right
    rw [same, cancels]
    exact ⟨nofun, rfl⟩

theorem run_agrees (engine : Engine) (options : Options) (parsed : parseItems items = .ok terms) :
    ∃ outcome, (engine.run options items none).ending = .rendered options.format outcome ∧
      Run.Agrees (engine.environment options.overrides) terms outcome
        ((engine.run options items none).calls.map Call.name) :=
  (engine.run_spec options none parsed).resolve_right fun cancelled => cancelled.1 rfl

theorem run_of_atoms (engine : Engine) (options : Options) {atoms : List Atom}
    (parsed : parseItems items = .ok terms)
    (same : Expansion.atomsOfAll
      (Expansion.ofItems (engine.environment options.overrides) 0 terms) = .ok atoms) :
    (engine.run options items none).ending = .value (.ofAtoms atoms options.format) ∧
      ((engine.run options items none).calls.map Call.name).Perm (Expansion.lookupsOfAll
        (Expansion.ofItems (engine.environment options.overrides) 0 terms)) := by
  obtain ⟨outcome, ends, worth, -, calls⟩ := engine.run_agrees options parsed
  rw [same] at worth
  cases outcome with
  | error => cases worth
  | ok atoms' =>
      obtain rfl : atoms' = atoms := Option.some.inj worth
      exact ⟨ends, calls rfl⟩

theorem exists_item_of_unparsed {failure : Failure} (unparsed : parseItems items = .error failure) :
    ∃ index fault, failure = .malformedItem index fault := by
  rcases exists_first_unread items with all | ⟨front, item, back, fault, rfl, earlier, unread⟩
  · obtain ⟨terms, read⟩ := exists_forall₂.mpr all
    rw [parseItems_eq_ok.mpr read] at unparsed
    cases unparsed
  · rw [parseItems_of_unread earlier unread] at unparsed
    exact ⟨front.length, fault, (Except.error.inj unparsed).symm⟩

theorem ending_of_unparsed (engine : Engine) (options : Options) (cancelAt : Option Nat)
    {failure : Failure} (unparsed : parseItems items = .error failure) :
    (engine.run options items cancelAt).ending = .failure .cancelled ∨
      (engine.run options items cancelAt).ending = .failure failure := by
  unfold run
  dsimp only
  split
  · exact .inl rfl
  · rw [unparsed]
    exact .inr rfl

theorem fault_of_failure {cancelAt : Option Nat} {failure : Failure}
    (failed : (engine.run options items cancelAt).ending = .failure failure) :
    failure = .cancelled ∨ (∃ index fault, failure = .malformedItem index fault) ∨
      ∃ terms, parseItems items = .ok terms ∧
        ∃ e ∈ Expansion.ofItems (engine.environment options.overrides) 0 terms,
          failure ∈ e.faults (engine.environment options.overrides) := by
  cases parsed : parseItems items with
  | error first =>
      rcases engine.ending_of_unparsed options cancelAt parsed with ends | ends
      · rw [failed] at ends
        exact .inl (Ending.failure.inj ends)
      · rw [failed] at ends
        obtain rfl := Ending.failure.inj ends
        exact .inr (.inl (exists_item_of_unparsed parsed))
  | ok terms =>
      rcases engine.run_spec options cancelAt parsed with ⟨outcome, ends, agrees⟩ | ⟨-, ends⟩
      · rw [failed] at ends
        cases outcome with
        | ok => cases ends
        | error f =>
            cases ends
            obtain ⟨e, member, fault⟩ := List.mem_flatMap.mp (agrees.faults failure rfl)
            exact .inr (.inr ⟨terms, rfl, e, member, fault⟩)
      · rw [failed] at ends
        exact .inl (Ending.failure.inj ends)

theorem exists_atoms_of_value {cancelAt : Option Nat} {value : Rendered}
    (succeeds : (engine.run options items cancelAt).ending = .value value) :
    ∃ terms atoms, parseItems items = .ok terms ∧
      Expansion.atomsOfAll
        (Expansion.ofItems (engine.environment options.overrides) 0 terms) = .ok atoms ∧
      value = .ofAtoms atoms options.format := by
  cases parsed : parseItems items with
  | error failure =>
      rcases engine.ending_of_unparsed options cancelAt parsed with ends | ends <;>
        rw [succeeds] at ends <;> cases ends
  | ok terms =>
      rcases engine.run_spec options cancelAt parsed with ⟨outcome, ends, agrees⟩ | ⟨-, cancelled⟩
      · rw [succeeds] at ends
        cases outcome with
        | error => cases ends
        | ok atoms =>
            have worth := agrees.worth
            cases found : Expansion.atomsOfAll
                (Expansion.ofItems (engine.environment options.overrides) 0 terms) with
            | error => rw [found] at worth; cases worth
            | ok atoms' =>
                rw [found] at worth
                cases worth
                cases ends
                exact ⟨terms, atoms, rfl, found, rfl⟩
      · rw [succeeds] at cancelled
        cases cancelled

/-- Every run refines the sequential evaluation of its items. It gives a value exactly if the
    evaluation does, and the same one; otherwise it ends with a failure of one of the leaves, in
    whose item malformed values are reported; and to give a value it makes the same lookups. -/
theorem run_refines_sequential (engine : Engine) (options : Options) (items : List Json.Value)
    (terms : List Term) (parsed : parseItems items = .ok terms) :
    let env := engine.environment options.overrides
    let reference := Sequential.evaluate env terms
    let run := engine.run options items none
    (∀ value, run.ending = .value value ↔
      ∃ atoms, reference.1 = .ok atoms ∧ value = .ofAtoms atoms options.format) ∧
    (∀ first, reference.1 = .error first → ∃ index term failure, terms[index]? = some term ∧
      failure ∈ (Expansion.unfold env maxNesting (.root index) term).faults env ∧
      run.ending = .failure failure ∧
      ∀ item name fault, failure = .malformedValue item name fault → item = index) ∧
    (∀ value, run.ending = .value value → (run.calls.map Call.name).Perm reference.2) := by
  intro env reference run
  obtain ⟨outcome, ends, worth, faults, calls⟩ := engine.run_agrees options parsed
  obtain ⟨atoms_eq, lookups_eq⟩ := Sequential.evaluate_eq env terms
  change reference.1 = _ at atoms_eq
  change run.ending = _ at ends
  rw [← atoms_eq] at worth
  rw [ends]
  cases outcome with
  | ok atoms =>
      have sound : reference.1 = .ok atoms := by
        cases found : reference.1 with
        | error => rw [found] at worth; cases worth
        | ok => rw [found] at worth; cases worth; rfl
      rw [sound]
      refine ⟨fun value => ?_, nofun, fun _ _ => ?_⟩
      · constructor
        · rintro ⟨⟩
          exact ⟨atoms, rfl, rfl⟩
        · rintro ⟨_, ⟨⟩, rfl⟩
          rfl
      · rw [lookups_eq (by rw [sound]; rfl)]
        exact calls rfl
  | error failure =>
      have lost : ∃ first, reference.1 = .error first := by
        cases found : reference.1 with
        | error first => exact ⟨first, rfl⟩
        | ok => rw [found] at worth; cases worth
      obtain ⟨first, lost⟩ := lost
      rw [lost]
      refine ⟨fun value => ⟨nofun, nofun⟩, fun _ _ => ?_, nofun⟩
      obtain ⟨e, member, fault⟩ := List.mem_flatMap.mp (faults failure rfl)
      obtain ⟨index, term, located, rfl⟩ := Expansion.mem_ofItems member
      rw [Nat.zero_add] at fault
      have ofItem := Expansion.isOfItem_of_mem_faults failure fault
      rw [Expansion.inScope_root] at fault
      exact ⟨index, term, failure, located, fault, rfl, ofItem⟩

/-- The result follows the order of the items, not the order of the answers. -/
theorem run_refines_sequential_slow_then_fast :
    let answer (name : String) : Answer :=
      if name = "slow" then .after 9 (.addresses [⟨.v4, 1, by decide⟩])
      else .after 2 (.addresses [⟨.v4, 2, by decide⟩])
    let run := ({ answer } : Engine).run {} [.string "slow", .string "fast"] none
    run.ending = .value (.ips [.host ⟨.v4, 1, by decide⟩, .host ⟨.v4, 2, by decide⟩]) ∧
      (run.calls.map Call.name).Perm ["slow", "fast"] := by
  intro answer run
  obtain ⟨values, -, calls⟩ := run_refines_sequential { answer } {}
    [.string "slow", .string "fast"] [.literal "slow", .literal "fast"] rfl
  have ends := (values _).mpr ⟨_, rfl, rfl⟩
  exact ⟨ends, calls _ ends⟩

end Engine

end AddressExpansion
