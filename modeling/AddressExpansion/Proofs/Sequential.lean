import AddressExpansion.Proofs.Expansion.Unfolding

/-! # Sequential evaluation

Items evaluated one after the other: every term is resolved where it is met, from left to right, a
lookup has its answer at once, and the first failure ends everything. Such an evaluation is the
measure of runs, in which parts go on side by side. Main statement: it gives the atoms and makes
the lookups of what the items unfold to (`evaluate_eq`).
-/

namespace AddressExpansion

/-- An evaluation that ends at the first failure, and keeps the names that were looked up. -/
abbrev Evaluation := ExceptT Failure (StateM (List String))

namespace Sequential

variable {α β : Type}

/-- What an evaluation comes to, after some names were looked up. -/
def after (names : List String) (x : Evaluation α) : Except Failure α × List String :=
  (ExceptT.run x).run names

def lookup (env : Environment) (name : String) : Evaluation (Except Reason (List Ip)) := do
  modify (· ++ [name])
  return env.outcome name

/-- Resolves a token, given how terms inside one more name are resolved. -/
def ofToken (env : Environment) (deeper : Scope → Term → Evaluation (List Atom)) (scope : Scope)
    (token : String) : Evaluation (List Atom) := do
  let name := Text.trim token
  match env.meaning name with
  | .literal address => return [.single address name]
  | .group members =>
    let within ← scope.enter? name
    let atoms ← deeper within (.list (members.map .literal))
    return (Atom.gather? atoms (some name)).toList
  | .var value =>
    let within ← scope.enter? name
    let term ← scope.readValue name value
    deeper within term
  | .host =>
    match ← lookup env name with
    | .ok ips => return (Atom.ofAddresses? (ips.map .host) (some name)).toList
    | .error reason =>
      match env.override? name with
      | none => throw (.resolution name reason)
      | some value =>
        let within ← scope.enter? name
        let term ← scope.readValue name value
        let atoms ← deeper within term
        match Atom.gather? atoms (some name) with
        | some atom => return [atom]
        | none => throw (.resolution name .emptyOverride)

mutual

/-- Resolves a term, given how tokens are resolved. -/
def ofTerm (token : String → Evaluation (List Atom)) : Term → Evaluation (List Atom)
  | .literal t => token t
  | .record ip comment => do
    let atoms ← ofTerm token ip
    return (Atom.gather? atoms comment).toList
  | .list items => ofTerms token items

def ofTerms (token : String → Evaluation (List Atom)) : List Term → Evaluation (List Atom)
  | [] => return []
  | term :: terms => do
    let atoms ← ofTerm token term
    let others ← ofTerms token terms
    return atoms ++ others

end

/-- Resolves a term in a scope with room for `room` more names. -/
def inScope (env : Environment) : (room : Nat) → Scope → Term → Evaluation (List Atom)
  -- No name can be opened any more, so nothing inside one is ever asked for.
  | 0, scope, term => ofTerm (ofToken env (fun _ _ => return []) scope) term
  | room + 1, scope, term => ofTerm (ofToken env (inScope env room) scope) term

def ofItems (env : Environment) (index : Nat) : List Term → Evaluation (List Atom)
  | [] => return []
  | term :: terms => do
    let atoms ← inScope env maxNesting (.root index) term
    let others ← ofItems env (index + 1) terms
    return atoms ++ others

/-- Evaluates items: their atoms or the first failure, and the names that were looked up. -/
def evaluate (env : Environment) (terms : List Term) : Except Failure (List Atom) × List String :=
  after [] (ofItems env 0 terms)

/-! ## Runs of evaluations -/

@[simp] theorem after_pure (names : List String) (a : α) :
    after names (pure a : Evaluation α) = (.ok a, names) := rfl

@[simp] theorem after_throw (names : List String) (failure : Failure) :
    after names (throw failure : Evaluation α) = (.error failure, names) := rfl

theorem after_bind (names : List String) (x : Evaluation α) (f : α → Evaluation β) :
    after names (x >>= f) =
      match after names x with
      | (.ok a, names) => after names (f a)
      | (.error failure, names) => (.error failure, names) := by
  unfold after
  rw [ExceptT.run_bind, StateT.run_bind]
  change (match (ExceptT.run x).run names with
    | (outcome, names) => _ : Except Failure β × List String) = _
  cases (ExceptT.run x).run names with
  | mk outcome names =>
      cases outcome <;> rfl

theorem after_lookup (env : Environment) (names : List String) (name : String)
    (f : Except Reason (List Ip) → Evaluation β) :
    after names (lookup env name >>= f) = after (names ++ [name]) (f (env.outcome name)) := rfl

/-- Whether an evaluation comes to an outcome, and makes some lookups if it does not fail. -/
def ComesTo (x : Evaluation (List Atom)) (outcome : Except Failure (List Atom))
    (lookups : List String) : Prop :=
  ∀ names, ∃ called, after names x = (outcome, names ++ called) ∧
    (outcome.isOk → called = lookups)

theorem ComesTo.error (failure : Failure) (lookups : List String) :
    ComesTo (throw failure) (.error failure) lookups :=
  fun names => ⟨[], by simp, nofun⟩

theorem ComesTo.ok (atoms : List Atom) : ComesTo (pure atoms) (.ok atoms) [] :=
  fun names => ⟨[], by simp, fun _ => rfl⟩

theorem ComesTo.andThen {x : Evaluation (List Atom)} {outcome : Except Failure (List Atom)}
    {lookups : List String} {f : List Atom → Evaluation (List Atom)}
    {g : List Atom → Except Failure (List Atom)} (comes : ComesTo x outcome lookups)
    (same : ∀ atoms, ComesTo (f atoms) (g atoms) []) : ComesTo (x >>= f) (outcome >>= g) lookups := by
  intro names
  obtain ⟨called, run, full⟩ := comes names
  rw [after_bind, run]
  cases outcome with
  | error failure => exact ⟨called, rfl, nofun⟩
  | ok atoms =>
      obtain ⟨called', run', full'⟩ := same atoms (names ++ called)
      refine ⟨called ++ called', by rw [← List.append_assoc]; exact run', fun sound => ?_⟩
      rw [full rfl, full' sound, List.append_nil]

theorem ComesTo.both {x y : Evaluation (List Atom)} {first second : Except Failure (List Atom)}
    {lookups lookups' : List String} (comes : ComesTo x first lookups)
    (comes' : ComesTo y second lookups') :
    ComesTo (do return (← x) ++ (← y)) (do return (← first) ++ (← second))
      (lookups ++ lookups') := by
  intro names
  obtain ⟨called, run, full⟩ := comes names
  rw [after_bind, run]
  cases first with
  | error failure => exact ⟨called, rfl, nofun⟩
  | ok atoms =>
      obtain ⟨called', run', full'⟩ := comes' (names ++ called)
      simp only
      rw [after_bind, run']
      refine ⟨called ++ called', ?_, fun sound => ?_⟩
      · rw [List.append_assoc]
        cases second <;> rfl
      · cases second with
        | error => cases sound
        | ok => rw [full rfl, full' rfl]

variable {env : Environment} {scope : Scope} {name : String}

/-- What is done with a definition, if the name can be opened. -/
private theorem comesTo_definition (definition : Except Failure Term)
    {use : Scope → Term → Evaluation (List Atom)} {g : List Atom → Except Failure (List Atom)}
    (used : ∀ within term, scope.enter? name = .ok within →
      ComesTo (use within term) ((Expansion.inScope env within term).atoms >>= g)
        (Expansion.inScope env within term).lookups) :
    ComesTo (do
        let within ← scope.enter? name
        let term ← definition
        use within term)
      ((Expansion.ofDefinition env scope name definition).atoms >>= g)
      (Expansion.ofDefinition env scope name definition).lookups := by
  unfold Expansion.ofDefinition
  cases entered : scope.enter? name with
  | error failure => exact .error failure _
  | ok within =>
      cases definition with
      | error failure => exact .error failure _
      | ok term => exact used within term entered

private theorem bind_ok (outcome : Except Failure (List Atom)) : outcome >>= .ok = outcome := by
  cases outcome <;> rfl

theorem comesTo_ofToken {deeper : Scope → Term → Evaluation (List Atom)}
    (deep : ∀ name within term, scope.enter? name = .ok within →
      ComesTo (deeper within term) (Expansion.inScope env within term).atoms
        (Expansion.inScope env within term).lookups) (token : String) :
    ComesTo (ofToken env deeper scope token) (Expansion.inScope env scope (.literal token)).atoms
      (Expansion.inScope env scope (.literal token)).lookups := by
  rw [Expansion.inScope_literal]
  unfold ofToken
  generalize Text.trim token = name
  dsimp only
  cases env.meaning name with
  | literal address => exact .ok _
  | group members =>
      exact comesTo_definition (.ok (.list (members.map .literal)))
        (g := fun atoms => .ok (Atom.gather? atoms (some name)).toList)
        fun within term entered => (deep name within term entered).andThen fun _ => .ok _
  | var value =>
      have used : ∀ within term, scope.enter? name = .ok within →
          ComesTo (deeper within term) ((Expansion.inScope env within term).atoms >>= .ok)
            (Expansion.inScope env within term).lookups := by
        intro within term entered
        rw [bind_ok]
        exact deep name within term entered
      have defined := comesTo_definition (scope.readValue name value) used
      rwa [bind_ok] at defined
  | host =>
      intro names
      simp only
      rw [after_lookup]
      unfold Expansion.ofHost
      cases env.outcome name with
      | ok ips => exact ⟨[name], rfl, fun _ => rfl⟩
      | error reason =>
          cases env.override? name with
          | none => exact ⟨[name], rfl, nofun⟩
          | some value =>
              have defined := comesTo_definition (scope.readValue name value)
                (g := fun atoms => match Atom.gather? atoms (some name) with
                  | some atom => .ok [atom]
                  | none => .error (.resolution name .emptyOverride))
                fun within term entered => (deep name within term entered).andThen
                  (f := fun atoms => match Atom.gather? atoms (some name) with
                    | some atom => return [atom]
                    | none => throw (.resolution name .emptyOverride)) fun atoms => by
                      cases Atom.gather? atoms (some name) with
                      | none => exact .error _ _
                      | some atom => exact .ok _
              obtain ⟨called, run, full⟩ := defined (names ++ [name])
              rw [List.append_assoc] at run
              refine ⟨name :: called, run, fun sound => ?_⟩
              rw [full sound]
              rfl

theorem comesTo_ofTerm {token : String → Evaluation (List Atom)}
    (tokens : ∀ t, ComesTo (token t) (Expansion.inScope env scope (.literal t)).atoms
      (Expansion.inScope env scope (.literal t)).lookups) (term : Term) :
    ComesTo (ofTerm token term) (Expansion.inScope env scope term).atoms
      (Expansion.inScope env scope term).lookups := by
  induction term using Term.induct with
  | literal t => exact tokens t
  | record ip comment ih =>
      rw [Expansion.inScope_record]
      exact ih.andThen fun _ => .ok _
  | list items ih =>
      rw [Expansion.inScope_list]
      change ComesTo (ofTerms token items) (Expansion.atomsOfAll _) (Expansion.lookupsOfAll _)
      induction items with
      | nil => exact .ok []
      | cons item items ihItems =>
          simp only [List.forall_mem_cons] at ih
          exact ih.1.both (ihItems ih.2)

theorem comesTo_inScope (env : Environment) (room : Nat) (scope : Scope) (term : Term)
    (enough : maxNesting ≤ scope.depth + room) :
    ComesTo (inScope env room scope term) (Expansion.inScope env scope term).atoms
      (Expansion.inScope env scope term).lookups := by
  induction room generalizing scope term with
  | zero =>
      refine comesTo_ofTerm (comesTo_ofToken fun name within _ entered => ?_) term
      have closed : scope.enter? name = .error (.recursion name) := if_pos (.inr enough)
      rw [closed] at entered
      cases entered
  | succ room ih =>
      refine comesTo_ofTerm (comesTo_ofToken fun name within term entered => ih within term ?_) term
      obtain ⟨-, -, rfl⟩ := Scope.enter?_eq_ok.mp entered
      simp only [Scope.depth, Scope.enter, List.length_cons] at enough ⊢
      omega

theorem comesTo_ofItems (env : Environment) (index : Nat) (terms : List Term) :
    ComesTo (ofItems env index terms) (Expansion.atomsOfAll (Expansion.ofItems env index terms))
      (Expansion.lookupsOfAll (Expansion.ofItems env index terms)) := by
  induction terms generalizing index with
  | nil => exact .ok []
  | cons term terms ih =>
      rw [Expansion.ofItems_cons]
      have first := comesTo_inScope env maxNesting (.root index) term (by simp)
      exact first.both (ih (index + 1))

/-- A sequential evaluation gives the atoms of what the items unfold to, and makes its lookups if
    it does not fail. -/
theorem evaluate_eq (env : Environment) (terms : List Term) :
    (evaluate env terms).1 = Expansion.atomsOfAll (Expansion.ofItems env 0 terms) ∧
      ((evaluate env terms).1.isOk →
        (evaluate env terms).2 = Expansion.lookupsOfAll (Expansion.ofItems env 0 terms)) := by
  obtain ⟨called, run, full⟩ := comesTo_ofItems env 0 terms []
  unfold evaluate
  rw [run]
  exact ⟨rfl, fun sound => full sound⟩

end Sequential

end AddressExpansion
