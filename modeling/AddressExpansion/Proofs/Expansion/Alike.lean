import Mathlib.Data.List.Forall2
import AddressExpansion.Proofs.Expansion.Unfolding

/-! # Expansions that run alike

Of an expansion a run sees everything but the values of the overrides that were followed, and of the
environment how long each lookup has to be waited for. Two expansions are alike if nothing of this
differs.
-/

namespace AddressExpansion.Expansion

/-- Whether two expansions, each in its own environment, look the same to a run. -/
inductive Alike (env env' : Environment) : Expansion → Expansion → Prop
  | literal {name address} : Alike env env' (.literal name address) (.literal name address)
  | host {name ips} (wait : env.wait? name = env'.wait? name) :
      Alike env env' (.host name ips) (.host name ips)
  | lost {name reason} (wait : env.wait? name = env'.wait? name) :
      Alike env env' (.lost name reason) (.lost name reason)
  | rescue {name reason value value' body body'} (wait : env.wait? name = env'.wait? name)
      (inside : Alike env env' body body') :
      Alike env env' (.rescue name reason value body) (.rescue name reason value' body')
  | group {name body body'} (inside : Alike env env' body body') :
      Alike env env' (.group name body) (.group name body')
  | var {name body body'} (inside : Alike env env' body body') :
      Alike env env' (.var name body) (.var name body')
  | fault {failure} : Alike env env' (.fault failure) (.fault failure)
  | record {comment body body'} (inside : Alike env env' body body') :
      Alike env env' (.record comment body) (.record comment body')
  | list {parts parts'} (inside : List.Forall₂ (Alike env env') parts parts') :
      Alike env env' (.list parts) (.list parts')

variable {env env' : Environment} {scope scope' : Scope}

theorem Alike.refl {e : Expansion} (wait : ∀ name ∈ e.lookups, env.wait? name = env'.wait? name) :
    Alike env env' e e := by
  induction e using induct with
  | literal => exact .literal
  | fault => exact .fault
  | host name => exact .host (wait name (List.mem_singleton_self name))
  | lost name => exact .lost (wait name (List.mem_singleton_self name))
  | rescue name _ _ _ ih =>
      refine .rescue (wait name List.mem_cons_self) (ih fun other member => ?_)
      exact wait other (List.mem_cons_of_mem _ member)
  | group _ _ ih => exact .group (ih wait)
  | var _ _ ih => exact .var (ih wait)
  | record _ _ ih => exact .record (ih wait)
  | list parts ih =>
      refine .list (List.forall₂_same.mpr fun part member => ih part member fun name inside => ?_)
      rw [lookups, lookupsOfAll_eq_flatMap] at wait
      exact wait name (List.mem_flatMap.mpr ⟨part, member, inside⟩)

/-! ## Terms that unfold alike -/

/-- What an expansion is at its root. A lookup is one however it ends. -/
inductive Kind where
  | literal
  | lookup (name : String)
  | group
  | var
  | fault
  | record
  | list

def kind : Expansion → Kind
  | .literal .. => .literal
  | .host name _ | .lost name _ | .rescue name _ _ _ => .lookup name
  | .group .. => .group
  | .var .. => .var
  | .fault _ => .fault
  | .record .. => .record
  | .list _ => .list

theorem Alike.kind_eq {e e' : Expansion} (alike : Alike env env' e e') : e.kind = e'.kind := by
  cases alike <;> rfl

theorem Alike.wait_eq {e e' : Expansion} (alike : Alike env env' e e') {name : String}
    (lookup : e.kind = .lookup name) : env.wait? name = env'.wait? name := by
  cases alike with
  | host wait | lost wait | rescue wait => cases lookup; exact wait
  | literal | group | var | fault | record | list => cases lookup

theorem kind_ofHost (env : Environment) (scope : Scope) (name : String) :
    (ofHost env scope name).kind = .lookup name := by
  unfold ofHost
  cases env.outcome name with
  | ok => rfl
  | error => cases env.override? name <;> rfl

/-- What the name of a token means can be seen from what the token unfolds to. -/
theorem kind_token (env : Environment) (scope : Scope) (token : String) :
    (inScope env scope (.literal token)).kind =
      match env.meaning (Text.trim token) with
      | .literal _ => .literal
      | .group _ => .group
      | .var _ => .var
      | .host => .lookup (Text.trim token) := by
  rw [inScope_literal]
  cases env.meaning (Text.trim token) with
  | literal | group | var => rfl
  | host => exact kind_ofHost env scope _

theorem kind_token_ne (env : Environment) (scope : Scope) (token : String) :
    (inScope env scope (.literal token)).kind ≠ .fault ∧
      (inScope env scope (.literal token)).kind ≠ .record ∧
      (inScope env scope (.literal token)).kind ≠ .list := by
  rw [kind_token]
  cases env.meaning (Text.trim token) <;>
    exact ⟨Kind.noConfusion, Kind.noConfusion, Kind.noConfusion⟩

theorem kind_ne_fault (env : Environment) (scope : Scope) (term : Term) :
    (inScope env scope term).kind ≠ .fault := by
  cases term with
  | literal token => exact (kind_token_ne env scope token).1
  | record => rw [inScope_record]; exact Kind.noConfusion
  | list => rw [inScope_list]; exact Kind.noConfusion

/-- How two terms look that unfold alike. -/
inductive AlikeTerms (env env' : Environment) (scope scope' : Scope) : Term → Term → Prop
  | literal {token token'} : AlikeTerms env env' scope scope' (.literal token) (.literal token')
  | record {ip ip' comment}
      (inside : Alike env env' (inScope env scope ip) (inScope env' scope' ip')) :
      AlikeTerms env env' scope scope' (.record ip comment) (.record ip' comment)
  | list {items items'} (inside : List.Forall₂ (fun item item' =>
      Alike env env' (inScope env scope item) (inScope env' scope' item')) items items') :
      AlikeTerms env env' scope scope' (.list items) (.list items')

theorem Alike.terms {term term' : Term}
    (alike : Alike env env' (inScope env scope term) (inScope env' scope' term')) :
    AlikeTerms env env' scope scope' term term' := by
  have kinds := alike.kind_eq
  cases term with
  | literal token =>
      obtain ⟨-, noRecord, noList⟩ := kind_token_ne env scope token
      cases term' with
      | literal => exact .literal
      | record => rw [kinds, inScope_record] at noRecord; exact absurd rfl noRecord
      | list => rw [kinds, inScope_list] at noList; exact absurd rfl noList
  | record ip comment =>
      rw [inScope_record] at alike kinds
      cases term' with
      | literal token => exact absurd kinds.symm (kind_token_ne env' scope' token).2.1
      | list => rw [inScope_list] at kinds; cases kinds
      | record =>
          rw [inScope_record] at alike
          cases alike with
          | record inside => exact .record inside
  | list items =>
      rw [inScope_list] at alike kinds
      cases term' with
      | literal token => exact absurd kinds.symm (kind_token_ne env' scope' token).2.2
      | record => rw [inScope_record] at kinds; cases kinds
      | list =>
          rw [inScope_list] at alike
          cases alike with
          | list inside =>
              rw [List.forall₂_map_left_iff, List.forall₂_map_right_iff] at inside
              exact .list inside

end AddressExpansion.Expansion
