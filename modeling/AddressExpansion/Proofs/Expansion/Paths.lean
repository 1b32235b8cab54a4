import AddressExpansion.Proofs.Expansion.Parts

/-! # Paths of names

A name leads to the names in its definition. What is said here about recursive definitions is said
about the paths that begin at the tokens of some terms, whatever the graph of definitions is: an
expansion is sound only if no path opens a name twice or too many names, and a name is reported as
recursive only where a path does.
-/

namespace AddressExpansion

mutual

def Term.tokens : Term → List String
  | .literal token => [token]
  | .record ip _ => ip.tokens
  | .list items => Term.tokensOfAll items

def Term.tokensOfAll : List Term → List String
  | [] => []
  | term :: terms => term.tokens ++ Term.tokensOfAll terms

end

theorem Term.mem_tokensOfAll {token : String} {terms : List Term} :
    token ∈ tokensOfAll terms ↔ ∃ term ∈ terms, token ∈ term.tokens := by
  induction terms with
  | nil => simp [tokensOfAll]
  | cons term terms ih => simp [tokensOfAll, ih]

namespace Environment

/-- The definition that stands for a trimmed name: the members of a group, the value of a variable,
    or the override of a host whose lookup fails. -/
def definition? (env : Environment) (name : String) : Option (Except Fault Term) :=
  match env.meaning name with
  | .literal _ => none
  | .group members => some (.ok (.list (members.map .literal)))
  | .var value => some (Term.ofValue value)
  | .host =>
    match env.outcome name with
    | .ok _ => none
    | .error _ => (env.override? name).map Term.ofValue

/-- Whether a name is in the definition of another. -/
def Leads (env : Environment) (name next : String) : Prop :=
  ∃ term token, env.definition? name = some (.ok term) ∧ token ∈ term.tokens ∧
    next = Text.trim token

/-- The names that are opened where a path ends: those on the way, innermost first, and the last
    name if it has a definition. -/
def nest (env : Environment) (chain : List String) (name : String) : List String :=
  if (env.definition? name).isSome then name :: chain else chain

end Environment

/-- Whether a name is reached from some tokens on the way through other names, innermost first. -/
inductive Path (env : Environment) (tokens : List String) : List String → String → Prop
  | start {token} (member : token ∈ tokens) : Path env tokens [] (Text.trim token)
  | lead {chain name next} (path : Path env tokens chain name) (leads : env.Leads name next) :
      Path env tokens (name :: chain) next

namespace Expansion

variable {env : Environment} {scope : Scope} {chain tokens : List String} {name : String}

/-! ## Faults of tokens -/

theorem faults_tokens (env : Environment) (scope : Scope) (term : Term) :
    (inScope env scope term).faults env =
      term.tokens.flatMap fun token => (inScope env scope (.literal token)).faults env := by
  induction term using Term.induct with
  | literal token => simp [Term.tokens]
  | record ip comment ih =>
      rw [inScope_record, faults_record, ih]
      rfl
  | list items ih =>
      rw [inScope_list, faults_list, List.flatMap_map, Term.tokens]
      induction items with
      | nil => rfl
      | cons item items ihItems =>
          rw [List.forall_mem_cons] at ih
          rw [List.flatMap_cons, Term.tokensOfAll, List.flatMap_append, ih.1, ihItems ih.2]

/-- What a name that has a definition unfolds to is as sound as its definition, and reports the
    recursion that is found there. -/
theorem faults_of_definition (scope : Scope) {token : String} {body : Except Fault Term}
    (defined : env.definition? (Text.trim token) = some body) :
    ∃ definition : Expansion,
      definition = ofDefinition env scope (Text.trim token)
        (body.mapError (.malformedValue scope.item (Text.trim token))) ∧
      ((inScope env scope (.literal token)).faults env = [] → definition.faults env = []) ∧
      ∀ n, .recursion n ∈ (inScope env scope (.literal token)).faults env →
        .recursion n ∈ definition.faults env := by
  refine ⟨_, rfl, ?_⟩
  have unfolds := ofName_token env scope token
  generalize Text.trim token = name, inScope env scope (.literal token) = e at defined unfolds ⊢
  cases unfolds with
  | literal meaning => simp [Environment.definition?, meaning] at defined
  | group meaning | var meaning =>
      obtain rfl : _ = body := by simpa [Environment.definition?, meaning] using defined
      exact ⟨id, fun _ => id⟩
  | host meaning answered => simp [Environment.definition?, meaning, answered] at defined
  | lost meaning failed unrescued =>
      simp [Environment.definition?, meaning, failed, unrescued] at defined
  | rescue meaning failed override =>
      obtain rfl : _ = body := by
        simpa [Environment.definition?, meaning, failed, override] using defined
      exact ⟨fun sound => (sound_of_rescue sound).1,
        fun n member => (of_mem_faults_rescue member).resolve_left nofun⟩

theorem no_recursion_of_undefined {token : String}
    (undefined : env.definition? (Text.trim token) = none) (n : String) :
    .recursion n ∉ (inScope env scope (.literal token)).faults env := by
  intro member
  have unfolds := ofName_token env scope token
  generalize Text.trim token = name, inScope env scope (.literal token) = e
    at undefined unfolds member
  cases unfolds with
  | literal | host => cases member
  | lost => cases List.mem_singleton.mp member
  | group meaning | var meaning => simp [Environment.definition?, meaning] at undefined
  | rescue meaning failed override =>
      simp [Environment.definition?, meaning, failed, override] at undefined

/-! ## Sound expansions -/

theorem entered_of_sound {token : String} {body : Except Fault Term}
    (defined : env.definition? (Text.trim token) = some body)
    (sound : (inScope env scope (.literal token)).faults env = []) :
    Text.trim token ∉ scope.chain ∧ scope.depth < maxNesting ∧
      ∃ term, body = .ok term ∧
        (inScope env (scope.enter (Text.trim token)) term).faults env = [] := by
  obtain ⟨definition, same, clean, -⟩ := faults_of_definition scope defined
  have sound := clean sound
  rw [same] at sound
  obtain ⟨within, term, entered, read, same⟩ := exists_of_sound_definition sound
  obtain ⟨fresh, low, rfl⟩ := Scope.enter?_eq_ok.mp entered
  rw [same] at sound
  refine ⟨fresh, low, term, ?_, sound⟩
  cases body with
  | error => cases read
  | ok => cases read; rfl

theorem sound_token {index : Nat} {terms : List Term}
    (sound : ∀ e ∈ ofItems env index terms, e.faults env = []) {token : String}
    (member : token ∈ Term.tokensOfAll terms) :
    ∃ item, (inScope env (.root item) (.literal token)).faults env = [] := by
  induction terms generalizing index with
  | nil => cases member
  | cons term terms ih =>
      rw [ofItems_cons, List.forall_mem_cons] at sound
      rcases List.mem_append.mp member with here | later
      · have clean := sound.1
        rw [faults_tokens, List.flatMap_eq_nil_iff] at clean
        exact ⟨index, clean token here⟩
      · exact ih sound.2 later

/-- On a path from the tokens of sound terms every name is opened once, and not too many are. -/
theorem sound_of_path {terms : List Term} (sound : ∀ e ∈ ofItems env 0 terms, e.faults env = [])
    (path : Path env (Term.tokensOfAll terms) chain name) :
    chain.Nodup ∧ chain.length ≤ maxNesting ∧ ∃ item token, Text.trim token = name ∧
      (inScope env ⟨item, chain⟩ (.literal token)).faults env = [] := by
  induction path with
  | @start token member =>
      obtain ⟨item, clean⟩ := sound_token sound member
      exact ⟨List.nodup_nil, Nat.zero_le _, item, token, rfl, clean⟩
  | @lead chain name next _ leads ih =>
      obtain ⟨nodup, -, item, token, rfl, clean⟩ := ih
      obtain ⟨term, token', defined, member, rfl⟩ := leads
      obtain ⟨fresh, low, term', same, clean⟩ := entered_of_sound defined clean
      obtain rfl := Except.ok.inj same
      rw [faults_tokens, List.flatMap_eq_nil_iff] at clean
      exact ⟨List.nodup_cons.mpr ⟨fresh, nodup⟩, low, item, token', rfl, clean token' member⟩

theorem nest_of_sound {terms : List Term} (sound : ∀ e ∈ ofItems env 0 terms, e.faults env = [])
    (path : Path env (Term.tokensOfAll terms) chain name) :
    (env.nest chain name).Nodup ∧ (env.nest chain name).length ≤ maxNesting := by
  obtain ⟨nodup, short, item, token, rfl, clean⟩ := sound_of_path sound path
  unfold Environment.nest
  cases defined : env.definition? (Text.trim token) with
  | none => exact ⟨nodup, short⟩
  | some body =>
      obtain ⟨fresh, low, -⟩ := entered_of_sound defined clean
      exact ⟨List.nodup_cons.mpr ⟨fresh, nodup⟩, low⟩

/-! ## Recursion -/

/-- A name is reported as recursive only where it has a definition and is reached on a path that
    opens it already, or opens as many names as may be open. -/
theorem path_of_recursion {n : String} {term : Term}
    (member : .recursion n ∈ (inScope env scope term).faults env)
    (paths : ∀ token ∈ term.tokens, Path env tokens scope.chain (Text.trim token))
    (nodup : scope.chain.Nodup) (short : scope.chain.length ≤ maxNesting) :
    ∃ chain, Path env tokens chain n ∧ (env.definition? n).isSome ∧
      (n ∈ chain ∨ chain.Nodup ∧ chain.length = maxNesting) := by
  induction scope, term using unfolding_induct with
  | record scope ip comment ih =>
      rw [inScope_record] at member
      exact ih member paths nodup short
  | list scope items ih =>
      rw [inScope_list, faults_list, List.flatMap_map] at member
      obtain ⟨item, given, member⟩ := List.mem_flatMap.mp member
      refine ih item given member ?_ nodup short
      intro token inside
      exact paths token (Term.mem_tokensOfAll.mpr ⟨item, given, inside⟩)
  | token scope token ih =>
      have path := paths token (List.mem_singleton_self token)
      cases defined : env.definition? (Text.trim token) with
      | none => exact absurd member (no_recursion_of_undefined defined n)
      | some body =>
          obtain ⟨definition, same, -, recursion⟩ := faults_of_definition scope defined
          have member := recursion n member
          rw [same] at member
          unfold ofDefinition at member
          cases entered : scope.enter? (Text.trim token) with
          | error failure =>
              rw [entered] at member
              obtain ⟨rfl, refused⟩ := Scope.enter?_eq_error.mp entered
              cases List.mem_singleton.mp member
              refine ⟨scope.chain, path, by rw [defined]; rfl, refused.imp_right ?_⟩
              intro deep
              exact ⟨nodup, Nat.le_antisymm short deep⟩
          | ok within =>
              rw [entered] at member
              cases body with
              | error fault => cases List.mem_singleton.mp member
              | ok term =>
                  obtain ⟨fresh, low, rfl⟩ := Scope.enter?_eq_ok.mp entered
                  apply ih _ _ term entered member
                  · intro token' inside
                    exact .lead path ⟨term, token', defined, inside, rfl⟩
                  · exact List.nodup_cons.mpr ⟨fresh, nodup⟩
                  · exact low

/-! ## Ranked definitions -/

/-- Names that fall in rank from one definition to the next are opened once, and only as many as
    there are ranks. -/
theorem nest_of_rank {rank : String → Nat} {ranks : Nat} (low : ∀ name, rank name < ranks)
    (falls : ∀ name next, env.Leads name next → (env.definition? next).isSome →
      rank next < rank name)
    (path : Path env tokens chain name) :
    (env.nest chain name).Nodup ∧ (env.nest chain name).length ≤ ranks := by
  have nested : chain.Nodup ∧ chain.length ≤ ranks ∧ ((env.definition? name).isSome →
      (∀ other ∈ chain, rank name < rank other) ∧ chain.length + rank name < ranks) := by
    induction path with
    | start =>
        refine ⟨List.nodup_nil, Nat.zero_le _, fun _ => ⟨nofun, ?_⟩⟩
        rw [List.length_nil, Nat.zero_add]
        exact low _
    | @lead chain name next _ leads ih =>
        obtain ⟨term, token, defined, -, -⟩ := id leads
        obtain ⟨nodup, -, inner⟩ := ih
        obtain ⟨above, deep⟩ := inner (by rw [defined]; rfl)
        have fresh : name ∉ chain := by
          intro member
          exact Nat.lt_irrefl _ (above name member)
        refine ⟨List.nodup_cons.mpr ⟨fresh, nodup⟩, ?_, ?_⟩
        · rw [List.length_cons]
          omega
        · intro opens
          have less := falls name next leads opens
          constructor
          · rw [List.forall_mem_cons]
            exact ⟨less, fun other member => Nat.lt_trans less (above other member)⟩
          · rw [List.length_cons]
            omega
  obtain ⟨nodup, short, inner⟩ := nested
  unfold Environment.nest
  split
  next opens =>
    obtain ⟨above, deep⟩ := inner opens
    constructor
    · apply List.nodup_cons.mpr
      refine ⟨?_, nodup⟩
      intro member
      exact Nat.lt_irrefl _ (above name member)
    · rw [List.length_cons]
      omega
  next => exact ⟨nodup, short⟩

end Expansion

end AddressExpansion
