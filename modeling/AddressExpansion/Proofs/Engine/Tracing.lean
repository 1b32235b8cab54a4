import AddressExpansion.Proofs.Engine.Outcome
import AddressExpansion.Proofs.Task.Tracing

/-! # Tracing is only looked at

A run whose decisions are traced and the same run without traces go through the same rounds. They
differ in their logs alone, and there in nothing but the traces.
-/

namespace AddressExpansion

open Work

namespace Run

variable {α : Type} {loud quiet : Run α}

/-- Whether a run is another one without its traces. Only the message of a cancellation is neither
    a trace nor a warning. -/
structure Untraced (loud quiet : Run α) : Prop where
  ending : quiet.ending = loud.ending
  board : quiet.progress.board = loud.progress.board
  progress : loud.ending ≠ .failure .cancelled → quiet.progress = loud.progress.untraced

namespace Untraced

theorem ofHalt (task : Task) (p : Progress) (halt : Halt) :
    (Run.ofHalt task p halt).Untraced (Run.ofHalt task p.untraced halt) := by
  cases halt with
  | stalled => exact ⟨rfl, rfl, fun _ => rfl⟩
  | cancelled time => exact ⟨rfl, rfl, fun going => absurd rfl going⟩
  | ended =>
      simp only [Run.ofHalt]
      match task.outcome? with
      | none => exact ⟨rfl, rfl, fun _ => rfl⟩
      | some (.ok atoms) => exact ⟨rfl, rfl, fun _ => rfl⟩
      | some (.error failure) => exact ⟨rfl, rfl, fun _ => rfl⟩

theorem ofTerms (env : Environment) (cancelAt : Option Nat) (terms : List Term) (p : Progress) :
    (Run.ofTerms env cancelAt terms p).Untraced (Run.ofTerms env cancelAt terms p.untraced) := by
  unfold Run.ofTerms
  generalize env.turns terms = turns
  have drives (task : Task) :
      Discreet ((Task.activity env (env.levels terms)).drive cancelAt turns task) :=
    Activity.discreet_drive (Task.discreet_visit env (env.levels terms) .main) cancelAt turns task
  have works := (Task.discreet_ofParts (Task.freshItems 0 terms)).bind drives p
  dsimp only
  rw [works]
  exact ofHalt ..

theorem conclude {β : Type} (untraced : loud.Untraced quiet) (f : α → β) {message : α → Message}
    (remark : ∀ a, (message a).IsRemark) :
    (loud.conclude f message).Untraced (quiet.conclude f message) := by
  obtain ⟨ending, board, progress⟩ := untraced
  simp only [Run.conclude, ending]
  cases ends : loud.ending with
  | value a =>
      refine ⟨rfl, board, fun _ => ?_⟩
      have same := progress (by rw [ends]; nofun)
      exact (congrArg (Progress.say · (message a)) same).trans
        (loud.progress.untraced_say (remark a)).symm
  | failure failure =>
      refine ⟨rfl, board, fun going => progress ?_⟩
      rw [ends]
      exact fun same => going (congrArg Ending.failure (Ending.failure.inj same))
  | stalled => exact ⟨rfl, board, fun _ => progress (by rw [ends]; nofun)⟩

end Untraced

end Run

namespace Engine

theorem untraced_run (engine : Engine) (options : Options) (items : List Json.Value)
    (cancelAt : Option Nat) : (engine.run options items cancelAt).Untraced
      (engine.run { options with debug := false } items cancelAt) := by
  unfold run
  dsimp only
  split
  · exact ⟨rfl, rfl, fun going => absurd rfl going⟩
  · cases parseItems items with
    | error failure => exact ⟨rfl, rfl, fun _ => rfl⟩
    | ok terms =>
        have begun (env : Environment) (message : Message) (trace : message.isTrace) :
            ({ Run.idle env with tracing := options.debug }.say message).untraced =
              { Run.idle env with tracing := false }.say message :=
          Progress.untraced_say _ (.inl trace)
        dsimp only
        rw [← begun _ _ rfl]
        exact (Run.Untraced.ofTerms ..).conclude _ fun _ => .inl rfl

/-- Tracing changes nothing that a run does. With and without traces it comes to the same end, makes
    the same calls in the same order at the same times, takes as long, and never has more lookups
    under way. Unless it is cancelled, the log without traces holds the warnings of the log with
    traces, in their order. -/
theorem tracing_is_observational (engine : Engine) (options : Options) (items : List Json.Value)
    (cancelAt : Option Nat) :
    let loud := engine.run { options with debug := true } items cancelAt
    let quiet := engine.run { options with debug := false } items cancelAt
    quiet.ending = loud.ending ∧ quiet.calls = loud.calls ∧ quiet.elapsed = loud.elapsed ∧
      quiet.peak = loud.peak ∧
      (loud.ending ≠ .failure .cancelled → quiet.log = loud.log.filter (·.level = .warn)) := by
  intro loud quiet
  have untraced : loud.Untraced quiet :=
    engine.untraced_run { options with debug := true } items cancelAt
  refine ⟨untraced.ending, congrArg (·.calls.toList) untraced.board,
    congrArg Switchboard.now untraced.board, congrArg Switchboard.peak untraced.board,
    fun going => ?_⟩
  have log : quiet.progress.log = loud.progress.log.filter (·.level = .warn) :=
    congrArg Progress.log (untraced.progress going)
  rw [Run.log, log, Array.toList_filter]
  rfl

/-- A group without members and a name that has to be rescued are warned of in either run. -/
theorem tracing_is_observational_of_warnings :
    let engine : Engine :=
      { inventory := { groups := [("g", [])] }, answer := fun _ => .after 5 (.refusal "no") }
    let options : Options := { overrides := [("a", .string "::1")] }
    let run (debug : Bool) := engine.run { options with debug } [.string "a", .string "g"] none
    (run true).log.map Message.level = [.debug, .debug, .debug, .warn, .warn, .debug, .debug] ∧
      (run false).log.map Message.text =
        ["Group 'g' has no members; it contributes no addresses",
          "could not resolve 'a': no; using dns override \"::1\""] ∧
      (run false).calls = [⟨"a", 0⟩] := by
  intro engine options run
  obtain ⟨-, calls, -, -, log⟩ :=
    tracing_is_observational engine options [.string "a", .string "g"] none
  have parsed : parseItems [.string "a", .string "g"] = .ok [.literal "a", .literal "g"] := rfl
  have atoms : Expansion.atomsOfAll (Expansion.ofItems (engine.environment options.overrides) 0
      [.literal "a", .literal "g"]) = .ok [.single (.host ⟨.v6, 1, by decide⟩) "a"] := rfl
  have ends : (run true).ending = _ :=
    (engine.run_of_atoms { options with debug := true } parsed atoms).1
  have log : (run false).log = (run true).log.filter (·.level = .warn) := log (ends ▸ nofun)
  refine ⟨by decide +kernel, ?_, calls.trans (by decide +kernel)⟩
  rw [log]
  decide +kernel

end Engine

end AddressExpansion
