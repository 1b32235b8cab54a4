import AddressExpansion.Proofs.Expansion.Close
import AddressExpansion.Proofs.Task.Worth

/-! # Failures that count at once

A failure among a few parts counts at once, and among many parts only when every part before it is
over. A task is prompt if no part of a crowd in it can fail, and steps keep it so (`Step.prompt`). A
failure that counts at once is never lost again (`Step.failing`).
-/

namespace AddressExpansion.Task

variable {env : Environment} {bell : Bell} {task task' : Task} {p p' : Progress}

/-- Whether no failure of a task has to wait for the parts before it. -/
inductive Prompt (env : Environment) : Task → Prop
  | fresh {scope term} (prompt : (Expansion.inScope env scope term).Prompt env) :
      Prompt env (.fresh scope term)
  | lookup {scope name stage} (prompt : (Expansion.ofHost env scope name).Prompt env) :
      Prompt env (.lookup scope name stage)
  | gather {scope gathering body} (inside : Prompt env body) :
      Prompt env (.gather scope gathering body)
  | join {parts} (inside : ∀ part ∈ parts, Prompt env part) : Prompt env (.join parts)
  | crowd {roster parts} (sound : ∀ part ∈ parts, worth env part ≠ none) :
      Prompt env (.crowd roster parts)
  | ended {outcome} : Prompt env (.ended outcome)

/-- Whether a part of a task has failed that is in no crowd. -/
inductive Failing : Task → Prop
  | ended {failure} : Failing (.ended (.error failure))
  | gather {scope gathering body} (inside : Failing body) : Failing (.gather scope gathering body)
  | join {parts part} (member : part ∈ parts) (inside : Failing part) : Failing (.join parts)

/-! ## Openings -/

section Openings

variable {scope : Scope} {name : String} {e : Expansion}

private theorem Uses.prompt {use : Task → Task} (uses : Uses env use e task)
    (used : ∀ task, Prompt env task → Prompt env (use task)) (prompt : e.Prompt env) :
    Prompt env task := by
  cases uses with
  | refused => exact .ended
  | inside => exact used _ (.fresh prompt)

theorem Opens.prompt (opens : Opens env scope name e task) (prompt : e.Prompt env) :
    Prompt env task := by
  cases opens with
  | literal => exact .ended
  | host => exact .lookup prompt
  | group uses => exact uses.prompt (fun _ => .gather) prompt
  | var uses => exact uses.prompt (fun _ => id) prompt

theorem Answers.prompt (answers : Answers env scope name e task) (prompt : e.Prompt env) :
    Prompt env task := by
  cases answers with
  | found | lost => exact .ended
  | rescued _ _ uses => exact uses.prompt (fun _ => .gather) prompt

end Openings

/-! ## Steps -/

private theorem prompt_of_list {scope : Scope} {items : List Term}
    (prompt : Prompt env (.fresh scope (.list items))) :
    (items.length ≤ joinLimit ∨ ∀ item ∈ items, worth env (.fresh scope item) ≠ none) ∧
      ∀ item ∈ items, Prompt env (.fresh scope item) := by
  cases prompt with
  | fresh prompt =>
      rw [Expansion.inScope_list, Expansion.Prompt, Expansion.allPrompt_iff, List.length_map,
        List.forall_mem_map, List.forall_mem_map] at prompt
      refine ⟨prompt.1.imp_right fun sound item member lost => ?_,
        fun item member => .fresh (prompt.2 item member)⟩
      exact Expansion.worth_eq_none.mp lost (sound item member)

theorem Act.prompt (act : Act env bell task p task' p') (prompt : Prompt env task) :
    Prompt env task' := by
  cases act with
  | trace | spend | putOff | roster | ring => exact prompt
  | draw | take | claim | setAlarm =>
      cases prompt with
      | lookup prompt => exact .lookup prompt
  | hangUp =>
      cases prompt with
      | lookup prompt => exact (answers_host ..).prompt prompt
  | token =>
      cases prompt with
      | fresh prompt => exact (opens_token ..).prompt prompt
  | record =>
      cases prompt with
      | fresh prompt =>
          rw [Expansion.inScope_record] at prompt
          exact .gather (.fresh prompt)
  | openJoin =>
      obtain ⟨-, inside⟩ := prompt_of_list prompt
      exact .join (List.forall_mem_map.mpr inside)
  | openCrowd many =>
      obtain ⟨narrow, -⟩ := prompt_of_list prompt
      exact .crowd (List.forall_mem_map.mpr (narrow.resolve_left (Nat.not_le_of_lt many)))
  | finish | fail | settleJoin | settleCrowd => exact .ended

theorem Step.prompt (step : Step env bell task p task' p') (prompt : Prompt env task) :
    Prompt env task' := by
  induction step with
  | act act => exact act.prompt prompt
  | inGather _ ih =>
      cases prompt with
      | gather inside => exact .gather (ih inside)
  | inJoin _ ih =>
      cases prompt with
      | join inside => exact .join (forall_mem_exchange inside (ih (inside _ (by simp))))
  | inCrowd inner =>
      cases prompt with
      | crowd sound =>
          refine .crowd (forall_mem_exchange sound ?_)
          rw [inner.worth_eq]
          exact sound _ (by simp)

theorem Failing.worth_eq (failing : Failing task) : worth env task = none := by
  induction failing with
  | ended => rfl
  | gather _ ih => rw [worth, ih, Option.bind_none]
  | join member _ ih =>
      rw [worth, worths_eq_map]
      exact together_eq_none.mpr (List.mem_map.mpr ⟨_, member, ih⟩)

theorem failing_of_worth {outcome : Outcome} (lost : worth env (.ended outcome) = none) :
    Failing (.ended outcome) := by
  cases outcome with
  | ok => cases lost
  | error => exact .ended

theorem Act.failing (act : Act env bell task p task' p') (failing : Failing task) :
    Failing task' := by
  have lost : worth env task' = none := act.worth_eq.trans failing.worth_eq
  cases act with
  | trace | spend => exact failing
  | finish | fail | settleJoin => exact failing_of_worth lost
  | token | record | openJoin | openCrowd | putOff | draw | take | claim | setAlarm | hangUp
  | settleCrowd | roster | ring => cases failing

theorem Step.failing (step : Step env bell task p task' p') (failing : Failing task) :
    Failing task' := by
  induction step with
  | act act => exact act.failing failing
  | inGather _ ih =>
      cases failing with
      | gather inside => exact .gather (ih inside)
  | inJoin _ ih =>
      cases failing with
      | join member inside =>
          rw [List.mem_append, List.mem_cons] at member
          rcases member with before | rfl | after
          · exact .join (List.mem_append_left _ before) inside
          · exact .join (by simp) (ih inside)
          · exact .join (List.mem_append_right _ (List.mem_cons_of_mem _ after)) inside
  | inCrowd => cases failing

end AddressExpansion.Task
