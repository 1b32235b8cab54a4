import AddressExpansion.Proofs.Expansion.Worth

/-! # Parts of sound expansions

A part is sound where the whole is. So in an expansion without faults every literal gives its
address, every lookup its answer, and no override is followed in vain.
-/

namespace AddressExpansion.Expansion

/-- Whether an expansion is somewhere in another one, or the whole of it. -/
inductive Inside (e : Expansion) : Expansion → Prop
  | whole : Inside e e
  | rescue {name reason value body} (inside : Inside e body) :
      Inside e (.rescue name reason value body)
  | group {name body} (inside : Inside e body) : Inside e (.group name body)
  | var {name body} (inside : Inside e body) : Inside e (.var name body)
  | record {comment body} (inside : Inside e body) : Inside e (.record comment body)
  | list {part parts} (member : part ∈ parts) (inside : Inside e part) : Inside e (.list parts)

/-- Whether an expansion gives what its name stands for. A leaf holds the address that is written
    or all that was answered, and there is at least one address in an answer and in an override. -/
def Supplied (env : Environment) : Expansion → Prop
  | .literal name address => Address.classify name = some address
  | .host name ips => env.outcome name = .ok ips ∧ ips ≠ []
  | .rescue name reason value body =>
    env.outcome name = .error reason ∧ env.override? name = some value ∧ body.addresses ≠ []
  | .lost .. | .fault _ => False
  | .group .. | .var .. | .record .. | .list _ => True

variable {env : Environment} {scope : Scope} {name : String} {e : Expansion}

theorem ne_nil_of_outcome {ips : List Ip} (answered : env.outcome name = .ok ips) : ips ≠ [] := by
  have replied : ∀ reply : Reply, reply.outcome = .ok ips → ips ≠ [] := by
    rintro ((_ | ⟨ip, ips⟩) | text) same
    · cases same
    · obtain rfl := Except.ok.inj same
      exact List.cons_ne_nil ip ips
    · cases same
  unfold Environment.outcome at answered
  cases answer : env.answer name with
  | atOnce reply =>
      rw [answer] at answered
      exact replied reply answered
  | after delay reply =>
      rw [answer, Answer.outcome] at answered
      split at answered
      · exact replied reply answered
      · cases answered
  | silence =>
      rw [answer] at answered
      cases answered

theorem meaning_literal {address : Address} (meaning : env.meaning name = .literal address) :
    Address.classify name = some address := by
  unfold Environment.meaning at meaning
  split at meaning
  next found =>
    cases meaning
    exact found
  next =>
    split at meaning
    · cases meaning
    · split at meaning <;> cases meaning

theorem exists_of_sound_definition {definition : Except Failure Term}
    (sound : (ofDefinition env scope name definition).faults env = []) :
    ∃ within term, scope.enter? name = .ok within ∧ definition = .ok term ∧
      ofDefinition env scope name definition = inScope env within term := by
  unfold ofDefinition at sound ⊢
  cases entered : scope.enter? name with
  | error failure =>
      rw [entered] at sound
      cases sound
  | ok within =>
      rw [entered] at sound
      cases definition with
      | error failure => cases sound
      | ok term => exact ⟨within, term, rfl, rfl, rfl⟩

theorem sound_of_rescue {reason : Reason} {value : Json.Value} {body : Expansion}
    (sound : (rescue name reason value body).faults env = []) :
    body.faults env = [] ∧ body.addresses ≠ [] := by
  rw [faults_rescue] at sound
  split at sound
  next clean =>
    refine ⟨clean, ?_⟩
    intro empty
    rw [if_pos empty] at sound
    cases sound
  next faulty => exact absurd sound faulty

/-- Every part of what a term unfolds to is supplied, if nothing in it is at fault. -/
theorem supplied_of_sound {term : Term} (sound : (inScope env scope term).faults env = []) :
    ∀ e, Inside e (inScope env scope term) → e.Supplied env := by
  induction scope, term using unfolding_induct with
  | record scope ip comment ih =>
      intro e inside
      rw [inScope_record] at sound inside
      cases inside with
      | whole => trivial
      | record inside => exact ih sound e inside
  | list scope items ih =>
      intro e inside
      rw [inScope_list] at sound inside
      cases inside with
      | whole => trivial
      | list member inside =>
          obtain ⟨item, given, rfl⟩ := List.mem_map.mp member
          rw [faults_list, List.flatMap_eq_nil_iff] at sound
          exact ih item given (sound _ member) e inside
  | token scope token ih =>
      intro e inside
      have inner : ∀ {definition : Except Failure Term},
          (ofDefinition env scope (Text.trim token) definition).faults env = [] →
          Inside e (ofDefinition env scope (Text.trim token) definition) → e.Supplied env := by
        intro definition sound inside
        obtain ⟨within, term, entered, -, same⟩ := exists_of_sound_definition sound
        rw [same] at sound inside
        exact ih _ within term entered sound e inside
      have unfolds := ofName_token env scope token
      generalize inScope env scope (.literal token) = whole at unfolds sound inside
      cases unfolds with
      | literal meaning =>
          cases inside
          exact meaning_literal meaning
      | group =>
          cases inside with
          | whole => trivial
          | group inside => exact inner sound inside
      | var =>
          cases inside with
          | whole => trivial
          | var inside => exact inner sound inside
      | host _ answered =>
          cases inside
          exact ⟨answered, ne_nil_of_outcome answered⟩
      | lost => cases sound
      | rescue _ failed override =>
          obtain ⟨clean, filled⟩ := sound_of_rescue sound
          cases inside with
          | whole => exact ⟨failed, override, filled⟩
          | rescue inside => exact inner clean inside

end AddressExpansion.Expansion
