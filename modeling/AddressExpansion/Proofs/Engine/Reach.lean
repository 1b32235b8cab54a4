import AddressExpansion.Proofs.Engine.Alike
import AddressExpansion.Proofs.Task.Agreement

/-! # What a run reaches

A name is reached if a run meets it in a token that is no literal; what a run reaches, it tells of
when it is surveyed. Main statement: two runs whose environments agree on what the first one reaches
end in the same way, after the same calls at the same times (`run_depends_on_reached`). Definitions
of other names make no difference, and neither does what comes after the first definition of a name.
-/

namespace AddressExpansion

open AddressExpansion.Task

theorem Environment.AgreesOn.refl (env : Environment) (name : String) : env.AgreesOn env name :=
  ⟨fun _ => rfl, fun _ _ => rfl, fun _ => rfl, fun _ _ => rfl⟩

/-- The task of all items as an activity that is surveyed. -/
def Task.surveyed (env : Environment) (levels : Nat) : Activity Task :=
  { visit := survey env levels .main
    isOver := Task.isOver
    alarms := Task.alarms .main }

namespace Run

/-- Nothing done yet, and decisions are traced. -/
def tracedIdle (env : Environment) : Progress :=
  { idle env with tracing := true }

/-- What a run of terms comes to that tells of each name that it meets. But for what it says it does
    the same as the run itself (`ofTerms_of_survey`). -/
def survey (env : Environment) (cancelAt : Option Nat) (terms : List Term) :
    (Halt × Task) × Progress :=
  let work : Work (Halt × Task) := do
    let task ← Task.ofParts (Task.freshItems 0 terms)
    (Task.surveyed env (env.levels terms)).drive cancelAt (env.turns terms) task
  work.run (tracedIdle env)

/-- The names that a run of terms reaches. -/
def reached (env : Environment) (cancelAt : Option Nat) (terms : List Term) : List String :=
  (survey env cancelAt terms).2.sought

variable {env env' : Environment} {cancelAt : Option Nat} {terms : List Term} {p q : Progress}

theorem survey_eq (env : Environment) (cancelAt : Option Nat) (terms : List Term) :
    survey env cancelAt terms =
      ((surveyed env (env.levels terms)).drive cancelAt (env.turns terms)
        (start terms (tracedIdle env)).1).run (start terms (tracedIdle env)).2 := by
  unfold survey
  generalize env.turns terms = turns
  rfl

theorem untouched_tracedIdle (env : Environment) : Untouched env.permits (tracedIdle env) :=
  ⟨rfl, rfl⟩

theorem shared_start (terms : List Term) (untouched : Untouched env'.permits q)
    (same : (tracedIdle env).Alike q) :
    Shared env env' (env.levels terms) (env'.levels terms) (start terms (tracedIdle env)).1 ∧
      (start terms (tracedIdle env)).1 = (start terms q).1 ∧
      (start terms (tracedIdle env)).2.Alike (start terms q).2 ∧
      (start terms (tracedIdle env)).2.tracing := by
  have fresh : ∀ part ∈ freshItems 0 terms, Hosts env part := by
    intro part member
    obtain ⟨i, term, -, rfl⟩ := mem_freshItems member
    exact .fresh
  obtain ⟨started, same⟩ := inStep_ofParts_self (freshItems 0 terms) _ q same
  refine ⟨⟨fits_start env (untouched_tracedIdle env), ?_, hosts_ofParts fresh _⟩, started, same, ?_⟩
  · exact started ▸ fits_start env' untouched
  · exact (growing_ofParts (freshItems 0 terms) (tracedIdle env)).tracing

theorem follows_surveyed (timeout : env.timeout = env'.timeout) {levels levels' : Nat} {task : Task}
    (shared : Shared env env' levels levels' task) (turns : Nat) :
    Work.Follows (Agreed env env') (fun halted => Shared env env' levels levels' halted.2)
      ((surveyed env levels).drive cancelAt turns task)
      ((activity env' levels').drive cancelAt turns task) := by
  have visits (task : Task) (shared : Shared env env' levels levels' task) :
      Work.Follows (Agreed env env') (Shared env env' levels levels')
        ((surveyed env levels).visit task) ((activity env' levels').visit task) :=
    follows_survey timeout levels levels' .main task shared
  have surveys (task : Task) : Work.Growing ((surveyed env levels).visit task) :=
    growing_survey env levels .main task
  exact Activity.follows_drive visits surveys cancelAt turns shared

theorem survey_ne_stalled (env : Environment) (cancelAt : Option Nat) (terms : List Term) :
    (survey env cancelAt terms).1.1 ≠ .stalled := by
  have halts := halts_start env cancelAt terms (Nat.le_max_left 1 _) (untouched_tracedIdle env)
  have agreed : ∀ name ∈ (survey env cancelAt terms).2.sought, Agreed env env name :=
    fun name _ _ => .refl env name
  obtain ⟨shared, -, same, tracing⟩ := shared_start terms (untouched_tracedIdle env) (.refl _)
  rw [survey_eq] at agreed ⊢
  obtain ⟨halted, -⟩ := follows_surveyed rfl shared _ _ _ tracing same agreed
  rw [halted]
  exact ne_stalled halts

/-- A run comes to what a survey in another environment comes to, if the two agree on all that the
    survey reaches. -/
theorem ofTerms_of_survey (timeout : env.timeout = env'.timeout)
    (agreed : ∀ name ∈ reached env cancelAt terms, Agreed env env' name)
    (untouched : Untouched env'.permits q)
    (same : (tracedIdle env).Alike q) :
    ∃ p, (survey env cancelAt terms).2.Alike p ∧ ofTerms env' cancelAt terms q =
      ofHalt (survey env cancelAt terms).1.2 p (survey env cancelAt terms).1.1 := by
  obtain ⟨shared, started, same, tracing⟩ := shared_start terms untouched same
  obtain ⟨result, driven, run⟩ := ofTerms_eq env' cancelAt terms q
  have halts := halts_start env' cancelAt terms (Nat.le_max_left 1 _) untouched
  have enough := survey_ne_stalled env cancelAt terms
  have longer := Activity.drive_of_enough (Nat.le_max_right (env.turns terms) _) (ne_stalled halts)
  rw [reached] at agreed
  rw [survey_eq] at agreed enough ⊢
  rw [← Activity.drive_of_enough (Nat.le_max_left _ (env'.turns terms)) enough] at agreed ⊢
  rw [← longer, ← started] at driven
  obtain ⟨halted, -, same⟩ := follows_surveyed timeout shared _ _ _ tracing same agreed
  rw [run, driven, halted]
  exact ⟨_, same, rfl⟩

theorem ofTerms_of_agreement (timeout : env.timeout = env'.timeout)
    (agreed : ∀ name ∈ reached env cancelAt terms, Agreed env env' name)
    (untouched : Untouched env.permits p) (untouched' : Untouched env'.permits q)
    (same : (idle env).Alike p) (same' : (idle env).Alike q) :
    (ofTerms env cancelAt terms p).Alike (ofTerms env' cancelAt terms q) := by
  have begun : (tracedIdle env).Alike (idle env) := ⟨rfl, rfl, rfl⟩
  have itself : ∀ name ∈ reached env cancelAt terms, Agreed env env name :=
    fun name _ _ => .refl env name
  obtain ⟨r, here, run⟩ := ofTerms_of_survey rfl itself untouched (begun.trans same)
  obtain ⟨r', there, run'⟩ := ofTerms_of_survey timeout agreed untouched' (begun.trans same')
  rw [run, run']
  exact .ofHalt (here.symm.trans there) rfl

end Run

namespace Engine

/-- The names that a run reaches. One that is cancelled from the start, or whose items are no
    terms, reaches none. -/
def reached (engine : Engine) (options : Options) (items : List Json.Value)
    (cancelAt : Option Nat) : List String :=
  if cancelAt = some 0 then []
  else
    match parseItems items with
    | .error _ => []
    | .ok terms => Run.reached (engine.environment options.overrides) cancelAt terms

/-- A run depends only on the definitions that it reaches. Two runs of the same items end with the
    same value or the same failure, after the same calls at the same times, if their environments
    agree on every name that the first one reaches; and on names with blanks around them they need
    not agree at all. -/
theorem run_depends_on_reached (engine engine' : Engine) (options : Options)
    (overrides : Table Json.Value) (items : List Json.Value) (cancelAt : Option Nat)
    (timeout : engine.timeout = engine'.timeout)
    (maxLookups : engine.maxLookups = engine'.maxLookups)
    (agree : ∀ name ∈ engine.reached options items cancelAt, Text.trim name = name →
      (engine.environment options.overrides).AgreesOn (engine'.environment overrides) name) :
    let run := engine.run options items cancelAt
    let run' := engine'.run { options with overrides } items cancelAt
    run.ending = run'.ending ∧ run.calls = run'.calls ∧ run.elapsed = run'.elapsed ∧
      run.peak = run'.peak := by
  intro run run'
  have idle : (Run.idle (engine.environment options.overrides)).Alike
      (Run.idle (engine'.environment overrides)) := by
    have permits : (engine.environment options.overrides).permits =
        (engine'.environment overrides).permits := congrArg (max 1) maxLookups
    rw [Run.idle, permits]
    exact .refl _
  suffices alike : run.Alike run' from ⟨alike.ending, alike.calls, alike.elapsed, alike.peak⟩
  unfold reached at agree
  by_cases later : cancelAt = some 0
  · subst later
    exact .cancelled idle 0
  · rw [if_neg later] at agree
    cases parsed : parseItems items with
    | error failure =>
        have failed := engine.run_of_unparsed options parsed later
        have failed' := engine'.run_of_unparsed { options with overrides } parsed later
        change run = _ at failed
        change run' = _ at failed'
        rw [failed, failed']
        exact ⟨rfl, idle⟩
    | ok terms =>
        rw [parsed] at agree
        have resolved := engine.run_eq options parsed later
        have resolved' := engine'.run_eq { options with overrides } parsed later
        change run = _ at resolved
        change run' = _ at resolved'
        rw [resolved, resolved']
        exact .conclude _ _ (Run.ofTerms_of_agreement timeout agree
          (engine.untouched_begun options terms) (engine'.untouched_begun _ terms)
          ⟨rfl, rfl, rfl⟩ ⟨idle.board, idle.rota, idle.allowance⟩)

/-- Definitions are added under the name of a group, under a literal, under a name with blanks, and
    under a name that is not reached. -/
theorem run_depends_on_reached_of_others_added :
    let engine : Engine :=
      { inventory := { groups := [("g", ["a"])] }
        answer := fun _ => .after 5 (.refusal "no") }
    let engine' : Engine :=
      { inventory := {
          groups := [("g", ["a"]), ("::1", ["b"]), (" a", ["b"])]
          vars := [("g", .string "b"), ("u", .string "b")] }
        answer := fun name => .after (if name = "a" then 5 else 1) (.refusal "no") }
    let options : Options := { format := .raw, overrides := [("a", .string "::1")] }
    let overrides := [("a", .string "::1"), ("g", .string "b"), ("b", .string "::2")]
    let run := engine.run options [.string " g"] none
    let run' := engine'.run { options with overrides } [.string " g"] none
    run.ending = run'.ending ∧ run.calls = run'.calls ∧ run.elapsed = run'.elapsed ∧
      run'.calls = [⟨"a", 0⟩] := by
  intro engine engine' options overrides run run'
  have reached : ∀ name ∈ engine.reached options [.string " g"] none, name = "g" ∨ name = "a" := by
    decide +kernel
  have agree : ∀ name ∈ engine.reached options [.string " g"] none, Text.trim name = name →
      (engine.environment options.overrides).AgreesOn (engine'.environment overrides) name := by
    intro name member _
    rcases reached name member with rfl | rfl
    · exact .of_group (rfl : engine.inventory.group? "g" = some ["a"]) rfl
    · exact ⟨fun _ => rfl, fun _ _ => rfl, fun _ => rfl, fun _ _ => rfl⟩
  obtain ⟨ending, calls, elapsed, -⟩ :=
    run_depends_on_reached engine engine' options overrides [.string " g"] none rfl rfl agree
  exact ⟨ending, calls, elapsed, calls.symm.trans (by decide +kernel)⟩

end Engine

end AddressExpansion
