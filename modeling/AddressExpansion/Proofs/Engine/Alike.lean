import AddressExpansion.Proofs.Engine.History
import AddressExpansion.Proofs.Task.Alike

/-! # Runs of items that unfold alike

A run is decided by what its items unfold to, by how long the lookups in that have to be waited for,
and by how many lines there are. Whatever else differs in the engine or in the items makes no
difference to how a run ends, nor to any call or time on the way (`run_alike`).
-/

namespace AddressExpansion

namespace Task

variable {env env' : Environment} {terms terms' : List Term} {p q : Progress}

theorem activity_alike (env env' : Environment) (levels levels' : Nat) :
    Activity.Alike (AlikeWithin env env' levels levels') (activity env levels)
      (activity env' levels') where
  isOver here := here.alike.isOver_eq
  alarms here := here.alike.alarms_eq .main
  visit here := visit_inStep env env' levels levels' .main _ _ here

theorem alike_freshItems {index index' : Nat}
    (alike : List.Forall₂ (Expansion.Alike env env') (Expansion.ofItems env index terms)
      (Expansion.ofItems env' index' terms')) :
    List.Forall₂ (Alike env env') (freshItems index terms) (freshItems index' terms') := by
  induction terms generalizing terms' index index' with
  | nil =>
      cases terms' with
      | nil => exact .nil
      | cons => cases alike
  | cons term terms ih =>
      cases terms' with
      | nil => cases alike
      | cons term' terms' =>
          rw [Expansion.ofItems_cons, Expansion.ofItems_cons, List.forall₂_cons] at alike
          exact .cons (.fresh alike.1) (ih alike.2)

theorem start_alike (alike : List.Forall₂ (Expansion.Alike env env') (Expansion.ofItems env 0 terms)
      (Expansion.ofItems env' 0 terms')) (same : p.Alike q) :
    Alike env env' (start terms p).1 (start terms' q).1 ∧
      (start terms p).2.Alike (start terms' q).2 :=
  inStep_ofParts (alike_freshItems alike) p q same

end Task

open AddressExpansion.Task

namespace Run

variable {env env' : Environment} {terms terms' : List Term} {p q : Progress}

/-- Whether two runs end in the same way, after the same calls at the same times. -/
structure Alike {α : Type} (run run' : Run α) : Prop where
  ending : run.ending = run'.ending
  progress : run.progress.Alike run'.progress

namespace Alike

variable {α : Type} {run run' : Run α}

theorem calls (alike : run.Alike run') : run.calls = run'.calls := by
  rw [Run.calls, Run.calls, alike.progress.board]

theorem elapsed (alike : run.Alike run') : run.elapsed = run'.elapsed := by
  rw [Run.elapsed, Run.elapsed, alike.progress.board]

theorem peak (alike : run.Alike run') : run.peak = run'.peak := by
  rw [Run.peak, Run.peak, alike.progress.board]

theorem cancelled (same : p.Alike q) (time : Nat) :
    Alike (Run.cancelled p time : Run α) (Run.cancelled q time) where
  ending := rfl
  progress := ⟨congrArg (·.atTime time) same.board, same.rota, same.allowance⟩

theorem ofHalt {halt : Halt} {task task' : Task} (same : p.Alike q)
    (outcome : task.outcome? = task'.outcome?) :
    (Run.ofHalt task p halt).Alike (Run.ofHalt task' q halt) := by
  cases halt with
  | stalled => exact ⟨rfl, same⟩
  | cancelled time => exact cancelled same time
  | ended =>
      simp only [Run.ofHalt, outcome]
      match task'.outcome? with
      | none => exact ⟨rfl, same⟩
      | some (.ok atoms) => exact ⟨rfl, same⟩
      | some (.error failure) => exact ⟨rfl, same⟩

theorem conclude {β : Type} (f : α → β) (message : α → Message) (alike : run.Alike run') :
    (run.conclude f message).Alike (run'.conclude f message) := by
  obtain ⟨ending, progress⟩ := alike
  simp only [Run.conclude, ending]
  cases run'.ending with
  | value a =>
      exact ⟨rfl, ((Progress.Alike.say _ (message a)).trans progress).trans
        (Progress.Alike.say _ (message a)).symm⟩
  | failure => exact ⟨rfl, progress⟩
  | stalled => exact ⟨rfl, progress⟩

end Alike

theorem ne_stalled {levels : Nat} {cancelAt : Option Nat} {result : (Halt × Task) × Progress}
    (halts : (activity env levels).Halts cancelAt result) : result.1.1 ≠ .stalled := by
  rcases halts with ⟨ended, -⟩ | ⟨time, -, cancelled⟩
  · rw [ended]
    exact Halt.noConfusion
  · rw [cancelled]
    exact Halt.noConfusion

theorem ofTerms_alike (cancelAt : Option Nat)
    (alike : List.Forall₂ (Expansion.Alike env env') (Expansion.ofItems env 0 terms)
      (Expansion.ofItems env' 0 terms')) (untouched : Untouched env.permits p)
    (untouched' : Untouched env'.permits q) (same : p.Alike q) :
    (ofTerms env cancelAt terms p).Alike (ofTerms env' cancelAt terms' q) := by
  obtain ⟨started, same⟩ := start_alike alike same
  obtain ⟨result, driven, run⟩ := ofTerms_eq env cancelAt terms p
  obtain ⟨result', driven', run'⟩ := ofTerms_eq env' cancelAt terms' q
  have halts := halts_start env cancelAt terms (Nat.le_max_left 1 _) untouched
  have halts' := halts_start env' cancelAt terms' (Nat.le_max_left 1 _) untouched'
  have inStep := Activity.drive_inStep (activity_alike env env' _ _) cancelAt
    ⟨started, fits_start env untouched, fits_start env' untouched'⟩ same
    (ne_stalled halts) (ne_stalled halts')
  rw [← driven, ← driven'] at inStep
  obtain ⟨halt, within, same⟩ := inStep
  rw [run, run', halt]
  exact .ofHalt same within.alike.outcome?_eq

end Run

namespace Engine

variable {engine engine' : Engine} {options options' : Options} {items items' : List Json.Value}
  {terms terms' : List Term}

/-- Runs of items that unfold alike end in the same way, after the same calls at the same times. -/
theorem run_alike (cancelAt : Option Nat) (parsed : parseItems items = .ok terms)
    (parsed' : parseItems items' = .ok terms') (format : options.format = options'.format)
    (permits : (engine.environment options.overrides).permits =
      (engine'.environment options'.overrides).permits)
    (alike : List.Forall₂ (Expansion.Alike (engine.environment options.overrides)
        (engine'.environment options'.overrides))
      (Expansion.ofItems (engine.environment options.overrides) 0 terms)
      (Expansion.ofItems (engine'.environment options'.overrides) 0 terms')) :
    (engine.run options items cancelAt).Alike (engine'.run options' items' cancelAt) := by
  have idle : (Run.idle (engine.environment options.overrides)).Alike
      (Run.idle (engine'.environment options'.overrides)) := by
    rw [Run.idle, permits]
    exact .refl _
  by_cases later : cancelAt = some 0
  · subst later
    exact .cancelled idle 0
  · rw [engine.run_eq options parsed later, engine'.run_eq options' parsed' later, format]
    have begun : (engine.begun options terms).Alike (engine'.begun options' terms') :=
      ⟨idle.board, idle.rota, idle.allowance⟩
    exact (Run.ofTerms_alike cancelAt alike (engine.untouched_begun options terms)
      (engine'.untouched_begun options' terms') begun).conclude _ _

end Engine

end AddressExpansion
