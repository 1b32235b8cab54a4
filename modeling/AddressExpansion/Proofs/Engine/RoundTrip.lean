import AddressExpansion.Proofs.Address.RoundTrip
import AddressExpansion.Proofs.Engine.Outcome
import AddressExpansion.Proofs.Term

/-! # Raw results that are fed back

A raw result is valid input. Its addresses are literals whatever the definitions are, and each of
its records is gathered into the atom that it came from, so a run on it looks nothing up and gives
the same atoms again.
-/

namespace AddressExpansion

/-! ## Reading an atom -/

def Atom.toTerm (atom : Atom) : Term :=
  .record (.list (atom.addresses.map fun a => .literal a.text)) atom.comment

private theorem forall₂_read {α : Type} {f : α → Json.Value} {g : α → Term}
    (read : ∀ x, Term.ofValue (f x) = .ok (g x)) (xs : List α) :
    List.Forall₂ (fun item term => Term.ofValue item = .ok term) (xs.map f) (xs.map g) := by
  rw [List.forall₂_map_left_iff, List.forall₂_map_right_iff, List.forall₂_same]
  exact fun x _ => read x

theorem Term.ofItems_map {α : Type} {f : α → Json.Value} {g : α → Term}
    (read : ∀ x, Term.ofValue (f x) = .ok (g x)) (index : Nat) (xs : List α) :
    Term.ofItems index (xs.map f) = .ok (xs.map g) :=
  Term.ofItems_eq_ok.mpr (forall₂_read read xs)

theorem parseItems_map {α : Type} {f : α → Json.Value} {g : α → Term}
    (read : ∀ x, Term.ofValue (f x) = .ok (g x)) (xs : List α) :
    parseItems (xs.map f) = .ok (xs.map g) :=
  parseItems_eq_ok.mpr (forall₂_read read xs)

theorem Atom.ofValue_toValue (atom : Atom) : Term.ofValue atom.toValue = .ok atom.toTerm := by
  have token : ∀ a : Address, Term.ofValue a.toValue = .ok (.literal a.text) := fun _ => rfl
  have ip : Term.ofValue (.array (atom.addresses.map Address.toValue)) =
      .ok (.list (atom.addresses.map fun a => .literal a.text)) := by
    rw [Term.ofValue, Term.ofItems_map token]
    rfl
  unfold Atom.toValue Atom.toTerm
  rw [Term.ofValue, Term.ofIpField, if_pos rfl, ip]
  cases atom.comment <;> rfl

theorem Rendered.ofValue_raw (atoms : List Atom) :
    Term.ofValue (Rendered.raw atoms).toValue = .ok (.list (atoms.map Atom.toTerm)) := by
  rw [Rendered.toValue, Term.ofValue, Term.ofItems_map Atom.ofValue_toValue]
  rfl

/-! ## Resolving an atom -/

namespace Expansion

theorem inScope_text (env : Environment) (scope : Scope) (a : Address) :
    inScope env scope (.literal a.text) = .literal a.text a := by
  have meaning : env.meaning a.text = .literal a := by
    unfold Environment.meaning
    rw [a.classify_text]
  rw [inScope_literal, a.trim_text, meaning]

theorem atomsOfAll_map {α : Type} {f : α → Expansion} {g : α → Atom}
    (each : ∀ x, (f x).atoms = .ok [g x]) (xs : List α) :
    atomsOfAll (xs.map f) = .ok (xs.map g) := by
  induction xs with
  | nil => rfl
  | cons x xs ih =>
      rw [List.map_cons, atomsOfAll, each, ih]
      rfl

theorem lookupsOfAll_map {α : Type} {f : α → Expansion} (each : ∀ x, (f x).lookups = [])
    (xs : List α) : lookupsOfAll (xs.map f) = [] := by
  rw [lookupsOfAll_eq_flatMap, List.flatMap_eq_nil_iff]
  intro e member
  obtain ⟨x, -, rfl⟩ := List.mem_map.mp member
  exact each x

end Expansion

theorem Atom.gather?_singles (atom : Atom) :
    Atom.gather? (atom.addresses.map fun a => .single a a.text) atom.comment = some atom := by
  have addresses : Atom.addressesOf (atom.addresses.map fun a => .single a a.text) =
      atom.addresses := by
    unfold Atom.addressesOf
    rw [List.flatMap_map]
    exact List.flatMap_singleton' _
  obtain ⟨addresses', comment, ne_nil, nodup⟩ := atom
  unfold Atom.gather?
  rw [addresses]
  simp only [Atom.ofAddresses?, distinct_of_nodup nodup, dif_neg ne_nil]

namespace Expansion

theorem inScope_toTerm (env : Environment) (scope : Scope) (atom : Atom) :
    inScope env scope atom.toTerm =
      .record atom.comment (.list (atom.addresses.map fun a => .literal a.text a)) := by
  unfold Atom.toTerm
  rw [inScope_record, inScope_list, List.map_map]
  congr 2
  apply List.map_congr_left
  intro a _
  exact inScope_text env scope a

theorem atoms_toTerm (env : Environment) (scope : Scope) (atom : Atom) :
    (inScope env scope atom.toTerm).atoms = .ok [atom] := by
  have parts : atomsOfAll (atom.addresses.map fun a => .literal a.text a) =
      .ok (atom.addresses.map fun a => .single a a.text) :=
    atomsOfAll_map (fun _ => rfl) _
  rw [inScope_toTerm, atoms, atoms, parts]
  change Except.ok (Atom.gather? _ atom.comment).toList = _
  rw [atom.gather?_singles]
  rfl

theorem lookups_toTerm (env : Environment) (scope : Scope) (atom : Atom) :
    (inScope env scope atom.toTerm).lookups = [] := by
  rw [inScope_toTerm, lookups, lookups]
  exact lookupsOfAll_map (fun _ => rfl) _

theorem ofItems_toTerm (env : Environment) (index : Nat) (atoms : List Atom) :
    atomsOfAll (ofItems env index (atoms.map Atom.toTerm)) = .ok atoms ∧
      lookupsOfAll (ofItems env index (atoms.map Atom.toTerm)) = [] := by
  induction atoms generalizing index with
  | nil => exact ⟨rfl, rfl⟩
  | cons atom atoms ih =>
      obtain ⟨others, called⟩ := ih (index + 1)
      rw [List.map_cons, ofItems_cons, atomsOfAll, lookupsOfAll, atoms_toTerm, lookups_toTerm,
        others, called]
      exact ⟨rfl, rfl⟩

theorem ofItems_list_toTerm (env : Environment) (index : Nat) (atoms : List Atom) :
    atomsOfAll (ofItems env index [.list (atoms.map Atom.toTerm)]) = .ok atoms ∧
      lookupsOfAll (ofItems env index [.list (atoms.map Atom.toTerm)]) = [] := by
  have each := atomsOfAll_map (atoms_toTerm env (.root index)) atoms
  have called := lookupsOfAll_map (lookups_toTerm env (.root index)) atoms
  rw [List.map_id'] at each
  rw [ofItems_cons, inScope_list, List.map_map, ofItems, atomsOfAll, lookupsOfAll, atomsOfAll,
    lookupsOfAll, Expansion.atoms, Expansion.lookups]
  change (do return (← atomsOfAll (atoms.map fun atom : Atom => inScope env _ atom.toTerm)) ++ []) = _ ∧
    lookupsOfAll (atoms.map fun atom : Atom => inScope env _ atom.toTerm) ++ [] = _
  rw [each, called]
  exact ⟨congrArg Except.ok (List.append_nil atoms), rfl⟩

end Expansion

/-! ## Runs on what a run gave -/

namespace Engine

theorem calls_eq_nil {run : Run Rendered} (called : (run.calls.map Call.name).Perm []) :
    run.calls = [] :=
  List.map_eq_nil_iff.mp (List.perm_nil.mp called)

/-- A raw result that is fed back, as one list or element by element, needs no lookup and gives
    its atoms again in any format, whatever is defined by then. -/
theorem run_raw_again (engine : Engine) (options : Options) (items : List Json.Value)
    (cancelAt : Option Nat) (value : Rendered) (raw : options.format = .raw)
    (succeeds : (engine.run options items cancelAt).ending = .value value) :
    ∃ atoms elements, value = .raw atoms ∧ value.toValue = .array elements ∧
      ∀ (other : Engine) (others : Options) (again : List Json.Value),
        again = [value.toValue] ∨ again = elements →
          (other.run others again none).ending = .value (.ofAtoms atoms others.format) ∧
          (other.run others again none).calls = [] ∧
          (others.format = .raw → (other.run others again none).ending = .value value) := by
  obtain ⟨-, atoms, -, -, rfl⟩ := exists_atoms_of_value succeeds
  rw [raw]
  refine ⟨atoms, atoms.map Atom.toValue, rfl, rfl, ?_⟩
  intro other others again fed
  have found : (other.run others again none).ending = .value (.ofAtoms atoms others.format) ∧
      (other.run others again none).calls = [] := by
    rcases fed with rfl | rfl
    · have parsed : parseItems [(Rendered.raw atoms).toValue] =
          .ok [.list (atoms.map Atom.toTerm)] := by
        unfold parseItems parseItems.go
        rw [Rendered.ofValue_raw]
        rfl
      obtain ⟨same, called⟩ :=
        Expansion.ofItems_list_toTerm (other.environment others.overrides) 0 atoms
      have given := other.run_of_atoms others parsed same
      rw [called] at given
      exact ⟨given.1, calls_eq_nil given.2⟩
    · have parsed := parseItems_map Atom.ofValue_toValue atoms
      obtain ⟨same, called⟩ :=
        Expansion.ofItems_toTerm (other.environment others.overrides) 0 atoms
      have given := other.run_of_atoms others parsed same
      rw [called] at given
      exact ⟨given.1, calls_eq_nil given.2⟩
  refine ⟨found.1, found.2, ?_⟩
  intro format
  rw [found.1, format]

/-- A group that is named like an address does not hide the address. -/
theorem run_raw_again_named_like_a_group :
    let address : Address := .host ⟨.v4, 167772161, by decide⟩
    let value : Rendered := .raw [.single address "10.0.0.1"]
    let other : Engine :=
      { inventory := { groups := [("10.0.0.1", ["elsewhere"])] }, answer := fun _ => .silence }
    (other.run {} [value.toValue] none).ending = .value (.ips [address]) ∧
      (other.run {} [value.toValue] none).calls = [] := by
  intro address value other
  have succeeds : (other.run { format := .raw } [.string "10.0.0.1"] none).ending = .value value :=
    (other.run_of_atoms { format := .raw } rfl rfl).1
  obtain ⟨atoms, elements, same, -, again⟩ :=
    run_raw_again other { format := .raw } [.string "10.0.0.1"] none value rfl succeeds
  obtain rfl := Rendered.raw.inj same
  obtain ⟨ends, calls, -⟩ := again other {} _ (.inl rfl)
  exact ⟨ends, calls⟩

end Engine

end AddressExpansion
