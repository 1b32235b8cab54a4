import AddressExpansion.Proofs.Engine.Addresses
import AddressExpansion.Proofs.Expansion.Paths

/-! # Recursive definitions in runs

Whether a run reports a recursive definition is a question about the paths that names lead on. A
name that is met again beside another place where it is open is on no path twice, and is no
recursion.
-/

namespace AddressExpansion.Engine

/-- A run that gives a value has opened no name twice on a path, and at most 32 names. A run reports
    a name as recursive only if a path that opens it already, or opens 32 other names, reaches it.
    So no name is reported if all paths are short enough and open no name twice, as they do where
    definitions fall in rank, of which there are 32. -/
theorem recursion_exact (engine : Engine) (options : Options) (items : List Json.Value)
    (cancelAt : Option Nat) :
    let env := engine.environment options.overrides
    let run := engine.run options items cancelAt
    (∀ value, run.ending = .value value → ∃ terms, parseItems items = .ok terms ∧
      ∀ chain name, Path env (Term.tokensOfAll terms) chain name →
        (env.nest chain name).Nodup ∧ (env.nest chain name).length ≤ 32) ∧
    (∀ name, run.ending = .failure (.recursion name) → ∃ terms chain,
      parseItems items = .ok terms ∧ Path env (Term.tokensOfAll terms) chain name ∧
      (env.definition? name).isSome ∧ (name ∈ chain ∨ chain.Nodup ∧ chain.length = 32)) ∧
    (∀ terms, parseItems items = .ok terms →
      (∀ chain name, Path env (Term.tokensOfAll terms) chain name →
        (env.nest chain name).Nodup ∧ (env.nest chain name).length ≤ 32) →
      ∀ name, run.ending ≠ .failure (.recursion name)) ∧
    (∀ rank : String → Nat, (∀ name, rank name < 32) →
      (∀ name next, env.Leads name next → (env.definition? next).isSome →
        rank next < rank name) →
      ∀ name, run.ending ≠ .failure (.recursion name)) := by
  intro env run
  have sound : ∀ value, run.ending = .value value → ∃ terms, parseItems items = .ok terms ∧
      ∀ chain name, Path env (Term.tokensOfAll terms) chain name →
        (env.nest chain name).Nodup ∧ (env.nest chain name).length ≤ 32 := by
    intro value succeeds
    obtain ⟨terms, atoms, parsed, same, -⟩ := exists_atoms_of_value succeeds
    refine ⟨terms, parsed, ?_⟩
    intro chain name path
    exact Expansion.nest_of_sound (Expansion.sound_of_atomsOfAll same) path
  have reached : ∀ name, run.ending = .failure (.recursion name) → ∃ terms chain,
      parseItems items = .ok terms ∧ Path env (Term.tokensOfAll terms) chain name ∧
      (env.definition? name).isSome ∧ (name ∈ chain ∨ chain.Nodup ∧ chain.length = 32) := by
    intro name failed
    rcases fault_of_failure failed with same | ⟨_, _, same⟩ | ⟨terms, parsed, e, member, fault⟩
    · cases same
    · cases same
    · obtain ⟨index, term, located, rfl⟩ := Expansion.mem_ofItems member
      have starts : ∀ token ∈ term.tokens,
          Path env (Term.tokensOfAll terms) [] (Text.trim token) := by
        intro token inside
        have given := List.mem_of_getElem? located
        exact .start (Term.mem_tokensOfAll.mpr ⟨term, given, inside⟩)
      obtain ⟨chain, path⟩ :=
        Expansion.path_of_recursion fault starts List.nodup_nil (Nat.zero_le _)
      exact ⟨terms, chain, parsed, path⟩
  have absent : ∀ terms, parseItems items = .ok terms →
      (∀ chain name, Path env (Term.tokensOfAll terms) chain name →
        (env.nest chain name).Nodup ∧ (env.nest chain name).length ≤ 32) →
      ∀ name, run.ending ≠ .failure (.recursion name) := by
    intro terms parsed nested name failed
    obtain ⟨terms', chain, parsed', path, opens, refused⟩ := reached name failed
    obtain rfl : terms = terms' := Except.ok.inj (parsed.symm.trans parsed')
    have once := nested chain name path
    rw [Environment.nest, if_pos opens, List.nodup_cons, List.length_cons] at once
    rcases refused with isOpen | ⟨-, full⟩
    · exact once.1.1 isOpen
    · omega
  refine ⟨sound, reached, absent, ?_⟩
  intro rank low falls name failed
  obtain ⟨terms, chain, parsed, -, -, -⟩ := reached name failed
  exact absent terms parsed (fun _ _ path => Expansion.nest_of_rank low falls path) name failed

/-- A group that is met twice, each time beside the other, is not recursive. -/
theorem recursion_exact_siblings :
    let ip : Ip := ⟨.v4, 1, by decide⟩
    let engine : Engine :=
      { inventory := { groups := [("a", ["b", "b"]), ("b", ["0.0.0.1"])] }
        answer := fun _ => .silence }
    let items : List Json.Value := [.string "a"]
    (engine.run {} items none).ending = .value (.ips [.host ip]) ∧
      ∃ terms, parseItems items = .ok terms ∧
        ∀ chain name, Path (engine.environment []) (Term.tokensOfAll terms) chain name →
          ((engine.environment []).nest chain name).Nodup ∧
            ((engine.environment []).nest chain name).length ≤ 32 := by
  intro ip engine items
  have parsed : parseItems items = .ok [.literal "a"] := rfl
  have unfolds : Expansion.ofItems (engine.environment []) 0 [.literal "a"] =
      [.group "a" (.list [.group "b" (.list [.literal "0.0.0.1" (.host ip)]),
        .group "b" (.list [.literal "0.0.0.1" (.host ip)])])] := rfl
  have atoms : Expansion.atomsOfAll (Expansion.ofItems (engine.environment []) 0 [.literal "a"]) =
      .ok [.single (.host ip) "a"] := by
    rw [unfolds]
    rfl
  have succeeds : (engine.run {} items none).ending = .value (.ips [.host ip]) :=
    (engine.run_of_atoms {} parsed atoms).1
  exact ⟨succeeds, (recursion_exact engine {} items none).1 _ succeeds⟩

end AddressExpansion.Engine
