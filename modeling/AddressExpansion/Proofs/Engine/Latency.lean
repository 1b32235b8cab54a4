import AddressExpansion.Proofs.Engine.Lines
import AddressExpansion.Proofs.Task.Latency

/-! # Latency

How long a run takes that is never short of lines. A success takes as long as the last of its
leaves, and a failure as long as the first of its failures: nothing waits for anything else. The
exception is a list of many parts, where a failure waits for all parts before it.
-/

namespace AddressExpansion

namespace Task

variable {env : Environment} {terms : List Term} {lines : Nat} {p : Progress}

theorem closes_freshItems {index now : Nat} :
    closes env now (freshItems index terms) =
      Expansion.closes env now (Expansion.ofItems env index terms) := by
  induction terms generalizing index with
  | nil => rfl
  | cons term terms ih =>
      rw [freshItems, closes, ih, Expansion.ofItems_cons, Expansion.closes, close]

theorem close_start (now : Nat) (terms : List Term) (p : Progress) :
    close env now (start terms p).1 =
      (Expansion.list (Expansion.ofItems env 0 terms)).close env now := by
  unfold start ofParts
  rw [length_freshItems, Expansion.close, Expansion.length_ofItems]
  split
  · exact congrArg (Close.ofJoin now) closes_freshItems
  · exact congrArg (Close.ofCrowd now) closes_freshItems

theorem unhindered_outset (untouched : Untouched lines p)
    (enough : (Expansion.list (Expansion.ofItems env 0 terms)).lookups.length ≤ env.permits) :
    Unhindered env ((outset terms p).state.sites .main) (outset terms p).progress := by
  have quiet : ∀ site ∈ (start terms p).1.sites .main,
      site.HoldsNothing ∧ ∀ time, site.EndsFrom time := by
    intro site member
    match site, unvisited_start untouched member with
    | .crowd .., _ => exact ⟨⟨rfl, rfl⟩, fun _ => trivial⟩
    | .fresh .., _ => exact ⟨⟨rfl, rfl⟩, fun _ => trivial⟩
  have accounts : Accounts env (Expansion.lookupsOfAll (Expansion.ofItems env 0 terms))
      ((start terms p).1.sites .main) (start terms p).2 := accounts_start untouched
  have counts := accounts.length_eq
  rw [List.length_append] at counts
  refine ⟨fun site member => (quiet site member).2 _, ?_⟩
  change demandOf env ((start terms p).1.sites .main) ≤ _
  rw [demandOf_holdsNothing fun site member => (quiet site member).1]
  rw [Expansion.lookups] at enough
  omega

end Task

namespace Run

variable {env : Environment} {terms : List Term} {p : Progress}

theorem exists_ended (terms : List Term) (untouched : Task.Untouched env.permits p) :
    ∃ outcome q goal, ofTerms env none terms p = ⟨.ofOutcome outcome, q⟩ ∧
      Task.Course env (env.levels terms) (Task.outset terms p) ⟨.ended outcome, q, goal⟩ := by
  have some_line : 0 < env.permits := Nat.le_max_left 1 _
  obtain ⟨result, driven, same⟩ := ofTerms_eq env none terms p
  have halts := Task.halts_start env none terms some_line untouched
  obtain ⟨goal, course⟩ := Activity.course_drive (Task.steps_round env (env.levels terms)) none
    (env.turns terms) (Task.start terms p).1 (Task.start terms p).2
  rw [← driven] at halts course
  rw [same]
  clear driven same
  obtain ⟨⟨halt, task⟩, q⟩ := result
  obtain ⟨ended, finished⟩ := halts.resolve_right fun ⟨_, cancels, _⟩ => nomatch cancels
  obtain rfl : halt = .ended := ended
  match task, finished with
  | .ended (.ok atoms), _ => exact ⟨.ok atoms, q, goal, rfl, course⟩
  | .ended (.error failure), _ => exact ⟨.error failure, q, goal, rfl, course⟩

/-- If there are lines for all lookups, a run closes as what its items unfold to. -/
theorem close_ofTerms (terms : List Term) (untouched : Task.Untouched env.permits p)
    (enough : (Expansion.list (Expansion.ofItems env 0 terms)).lookups.length ≤ env.permits) :
    ∃ outcome, (ofTerms env none terms p).ending = .ofOutcome outcome ∧
      (Expansion.list (Expansion.ofItems env 0 terms)).close env 0 =
        Task.close env (ofTerms env none terms p).elapsed (.ended outcome) := by
  obtain ⟨outcome, q, goal, same, course⟩ := exists_ended terms untouched
  have closes := course.close_eq (Task.proper_outset env terms untouched)
    (Task.unhindered_outset untouched enough)
  have start : (Task.outset terms p).board.now = 0 := by
    rw [Task.board_outset terms untouched]
  rw [start] at closes
  refine ⟨outcome, congrArg Run.ending same, ?_⟩
  rw [same, ← Task.close_start 0 terms p]
  exact closes.symm

end Run

namespace Engine

variable {engine : Engine} {options : Options} {items : List Json.Value} {terms : List Term}

theorem close_run (engine : Engine) (options : Options) (parsed : parseItems items = .ok terms)
    (enough : (Expansion.list
      (Expansion.ofItems (engine.environment options.overrides) 0 terms)).lookups.length ≤
        (engine.environment options.overrides).permits) :
    ∃ outcome, (engine.run options items none).ending = .rendered options.format outcome ∧
      (Expansion.list (Expansion.ofItems (engine.environment options.overrides) 0 terms)).close
          (engine.environment options.overrides) 0 =
        Task.close (engine.environment options.overrides)
          (engine.run options items none).elapsed (.ended outcome) := by
  have never : (none : Option Nat) ≠ some 0 := nofun
  obtain ⟨outcome, ends, close⟩ :=
    Run.close_ofTerms terms (engine.untouched_begun options terms) enough
  refine ⟨outcome, ?_, ?_⟩
  · rw [engine.run_eq options parsed never, Run.conclude, ends]
    cases outcome <;> rfl
  · rw [close, Run.elapsed, Run.elapsed, engine.board_run options parsed never]

/-- What a run takes that has a line for each of its lookups. Items that are no terms take no time.
    A success takes until the last leaf is over. A failure takes as long as its close says, and that
    is until the first of all failures, if no part of a list of many parts has a fault. -/
theorem latency_is_critical_path (engine : Engine) (options : Options)
    (items : List Json.Value) :
    let env := engine.environment options.overrides
    let run := engine.run options items none
    (∀ failure, parseItems items = .error failure → run.elapsed = 0) ∧
    ∀ terms, parseItems items = .ok terms →
      let tree := Expansion.list (Expansion.ofItems env 0 terms)
      tree.lookups.length ≤ env.permits →
        (∀ value, run.ending = .value value →
          run.elapsed = (tree.leafTimes env 0).foldr max 0) ∧
        ∀ failure, run.ending = .failure failure →
          tree.close env 0 = .failed run.elapsed ∧
            (tree.Prompt env →
              ((tree.failures env 0).map Prod.fst).min? = some run.elapsed) := by
  intro env run
  refine ⟨fun failure unparsed => ?_, fun terms parsed => ?_⟩
  · exact congrArg Switchboard.now (engine.board_of_unparsed options unparsed none)
  · intro tree enough
    obtain ⟨outcome, ends, close⟩ := engine.close_run options parsed enough
    change run.ending = _ at ends
    change tree.close env 0 = Task.close env run.elapsed (.ended outcome) at close
    rw [ends]
    cases outcome with
    | ok atoms =>
        refine ⟨fun _ _ => ?_, nofun⟩
        have sound : tree.faults env = [] := by
          rw [← Expansion.isWell_close_iff, close]
          rfl
        rw [Expansion.close_eq_ofTimes (Expansion.prompt_of_sound sound),
          List.map_eq_nil_iff.mp sound] at close
        rw [← Expansion.finish_eq_of_sound sound]
        exact (Close.well.inj close).symm
    | error failure =>
        refine ⟨nofun, fun _ _ => ⟨close, fun prompt => ?_⟩⟩
        rw [Expansion.close_eq_ofTimes prompt, Close.ofTimes] at close
        split at close
        · cases close
        · next first => rw [first, Close.failed.inj close]

/-- A failure does not wait for a slower answer, and an override waits for the lookup that it stands
    in for. -/
theorem latency_is_critical_path_past_a_slow_answer :
    let answer (name : String) : Answer :=
      if name = "slow" then .after 9 (.addresses [⟨.v4, 1, by decide⟩])
      else .after 2 (.refusal "no")
    let engine : Engine := { answer }
    let items : List Json.Value := [.string "slow", .string "bad"]
    (engine.run {} items none).elapsed = 2 ∧
      (engine.run { overrides := [("bad", .string "slow")] } items none).elapsed = 11 := by
  intro answer engine items
  let ip : Ip := ⟨.v4, 1, by decide⟩
  let terms : List Term := [.literal "slow", .literal "bad"]
  have parsed : parseItems items = .ok terms := rfl
  constructor
  · have unfolds : Expansion.ofItems (engine.environment []) 0 terms =
        [.host "slow" [ip], .lost "bad" (.refused "no")] := rfl
    have enough : (Expansion.list (Expansion.ofItems (engine.environment []) 0
        terms)).lookups.length ≤ (engine.environment []).permits := by
      rw [unfolds]
      decide
    obtain ⟨-, timely⟩ := latency_is_critical_path engine {} items
    obtain ⟨-, fails⟩ := timely terms parsed enough
    obtain ⟨outcome, ends, close⟩ := engine.close_run {} parsed enough
    cases outcome with
    | ok atoms =>
        rw [unfolds] at close
        cases close
    | error failure =>
        have first := (fails failure ends).2
        rw [unfolds] at first
        exact (Option.some.inj (first ⟨.inl (by decide), trivial, trivial, trivial⟩)).symm
  · have unfolds : Expansion.ofItems (engine.environment [("bad", .string "slow")]) 0 terms =
        [.host "slow" [ip], .rescue "bad" (.refused "no") (.string "slow") (.host "slow" [ip])] :=
      rfl
    have enough : (Expansion.list (Expansion.ofItems
        (engine.environment [("bad", .string "slow")]) 0 terms)).lookups.length ≤
          (engine.environment [("bad", .string "slow")]).permits := by
      rw [unfolds]
      decide
    obtain ⟨-, timely⟩ :=
      latency_is_critical_path engine { overrides := [("bad", .string "slow")] } items
    obtain ⟨succeeds, -⟩ := timely terms parsed enough
    obtain ⟨outcome, ends, close⟩ :=
      engine.close_run { overrides := [("bad", .string "slow")] } parsed enough
    cases outcome with
    | ok atoms =>
        have last := succeeds _ ends
        rw [unfolds] at last
        exact last
    | error failure =>
        rw [unfolds] at close
        cases close

/-- In a list of more than `joinLimit` parts a failure waits until all parts before it are over. -/
theorem failure_waits_among_many :
    let answer (name : String) : Answer :=
      if name = "slow" then .after 10 (.addresses [⟨.v6, 2, by decide⟩])
      else .atOnce (.refusal "no")
    let engine : Engine := { answer }
    let env := engine.environment []
    let items : List Json.Value :=
      .string "slow" :: List.replicate 29 (.string "::1") ++ [.string "bad"]
    let run := engine.run {} items none
    ∃ terms failure, parseItems items = .ok terms ∧ run.ending = .failure failure ∧
      let tree := Expansion.list (Expansion.ofItems env 0 terms)
      tree.lookups.length ≤ env.permits ∧
        ((tree.failures env 0).map Prod.fst).min? = some 0 ∧ run.elapsed = 10 := by
  intro answer engine env items run
  let terms : List Term := .literal "slow" :: List.replicate 29 (.literal "::1") ++ [.literal "bad"]
  have parsed : parseItems items = .ok terms := rfl
  have unfolds : Expansion.ofItems env 0 terms = .host "slow" [⟨.v6, 2, by decide⟩] ::
      List.replicate 29 (.literal "::1" (.host ⟨.v6, 1, by decide⟩)) ++
        [.lost "bad" (.refused "no")] := rfl
  have enough : (Expansion.list (Expansion.ofItems env 0 terms)).lookups.length ≤ env.permits := by
    rw [unfolds]
    decide
  obtain ⟨outcome, ends, close⟩ := engine.close_run {} parsed enough
  have late : (Expansion.list (Expansion.ofItems env 0 terms)).close env 0 = .failed 10 := by
    rw [unfolds]
    rfl
  cases outcome with
  | ok atoms => cases late.symm.trans close
  | error failure =>
      have elapsed : 10 = run.elapsed := Close.failed.inj (late.symm.trans close)
      refine ⟨terms, failure, parsed, ends, enough, ?_, elapsed.symm⟩
      rw [unfolds]
      rfl

end Engine

end AddressExpansion
