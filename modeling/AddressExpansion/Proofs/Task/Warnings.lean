import AddressExpansion.Proofs.Task.Change

/-! # Warnings of a task

The warnings that were given, together with those that a task has still to give, are the warnings
that what the task unfolds to is due. A step keeps this account as long as the task is worth
something (`Step.warnings_perm`): a failure would give up parts that have warnings to give.
-/

namespace AddressExpansion

theorem Message.level_ne_warn {message : Message} (isTrace : message.isTrace) :
    message.level ≠ .warn := by
  cases message with
  | started | rendering | traced => exact nofun
  | cancelled | emptyGroup | rescued | inventoryLoaded | interrupted | defaultUpstreams =>
      cases isTrace

namespace Progress

def warnings (p : Progress) : List Message :=
  p.log.toList.filter (·.level = .warn)

theorem warnings_say (p : Progress) (message : Message) :
    (p.say message).warnings = p.warnings ++ [message].filter (·.level = .warn) := by
  unfold warnings say
  dsimp only
  split
  next silent =>
    have isTrace : message.isTrace := ((Bool.and_eq_true _ _).mp silent).1
    rw [List.filter_singleton, decide_eq_false (Message.level_ne_warn isTrace)]
    exact (List.append_nil _).symm
  next => rw [Array.toList_push, List.filter_append]

@[simp] theorem warnings_onRota (p : Progress) (f : Rota → Rota) :
    (p.onRota f).warnings = p.warnings := rfl

theorem warnings_sayAll (p : Progress) (messages : List Message) :
    (p.sayAll messages).warnings = p.warnings ++ messages.filter (·.level = .warn) := by
  induction messages generalizing p with
  | nil => exact (List.append_nil _).symm
  | cons message messages ih =>
      rw [← List.singleton_append, List.filter_append, ← List.append_assoc, ← warnings_say]
      exact ih _

end Progress

theorem Site.warnings_abandon (p : Progress) (site : Site) :
    (site.abandon p).warnings = p.warnings := by
  match site with
  | .fresh .. | .crowd .. => rfl
  | .lookup _ _ _ stage => cases stage <;> rfl

namespace Task

variable {env : Environment} {bell : Bell} {task task' : Task} {p p' : Progress}

mutual

/-- The warnings that a task has still to give, if it has no fault. -/
def dues (env : Environment) : Task → List Message
  | .fresh scope term => (Expansion.inScope env scope term).warnings
  | .lookup scope name _ => (Expansion.ofHost env scope name).warnings
  | .gather scope gathering body =>
    dues env body ++
      ((worth env body).elim [] (gathering.remarks scope)).filter (·.level = .warn)
  | .join parts | .crowd _ parts => duesOfAll env parts
  | .ended _ => []

def duesOfAll (env : Environment) : List Task → List Message
  | [] => []
  | task :: tasks => dues env task ++ duesOfAll env tasks

end

@[simp] theorem duesOfAll_eq_flatMap (tasks : List Task) :
    duesOfAll env tasks = tasks.flatMap (dues env) := by
  induction tasks with
  | nil => rfl
  | cons task tasks ih => simp only [duesOfAll, List.flatMap_cons, ih]

/-! ## Definitions and lookups -/

variable {scope : Scope} {name : String} {e : Expansion}

theorem Uses.dues_eq {use : Task → Task} (uses : Uses env use e task)
    (used : ∀ task, dues env (use task) = dues env task) : dues env task = e.warnings := by
  cases uses with
  | refused => rfl
  | inside => exact used _

/-- What is worth something has the warnings to give that it unfolds to. In a group it is one more
    if its members have no address. -/
theorem Opens.dues_eq (opens : Opens env scope name e task) (sound : e.worth ≠ none) :
    dues env task = e.warnings := by
  cases opens with
  | literal => rfl
  | host => simp only [dues]
  | var uses => exact uses.dues_eq fun _ => rfl
  | group uses =>
      cases uses with
      | refused => exact absurd rfl sound
      | @inside within term =>
          have sound : (Expansion.inScope env within term).worth ≠ none :=
            fun lost => sound (by rw [Expansion.worth_group, lost]; rfl)
          obtain ⟨atoms, found⟩ := Option.ne_none_iff_exists'.mp sound
          have empty := Expansion.gather?_eq_none env found (some name)
          simp only [dues, worth, Expansion.warnings, found, Option.elim_some, Gathering.remarks,
            Option.isNone_iff_eq_none, empty]
          split <;> rfl

theorem Answers.remark_append_dues (answers : Answers env scope name e task) :
    [answerRemark env scope name].filter (·.level = .warn) ++ dues env task = e.warnings := by
  unfold answerRemark
  cases answers with
  | found outcome =>
      rw [outcome]
      rfl
  | lost outcome unrescued =>
      rw [outcome]
      dsimp only
      rw [unrescued]
      rfl
  | rescued outcome override uses =>
      rw [outcome]
      dsimp only
      rw [override, uses.dues_eq, Expansion.warnings]
      · rfl
      · intro task
        cases found : worth env task <;>
          simp only [dues, found, Option.elim, Gathering.remarks, List.filter_nil, List.append_nil]

/-! ## Steps -/

private theorem warnings_giveUpAll (parts : List Task) (p : Progress) :
    ((giveUpAll parts).run p).2.warnings = p.warnings := by
  rw [giveUpAll_eq_abandon .main]
  exact Site.keeps_abandonAll (P := fun q => q.warnings = p.warnings)
    (fun site q same => (site.warnings_abandon q).trans same) _ rfl

private theorem dues_settled {parts : List Task} {atoms : List Atom}
    (settled : outcomeInOrder? parts = some (.ok atoms)) : parts.flatMap (dues env) = [] := by
  refine List.flatMap_eq_nil_iff.mpr fun part member => ?_
  obtain ⟨atoms, rfl⟩ := ended_of_settled settled part member
  rfl

theorem Act.warnings_eq (act : Act env bell task p task' p') (sound : worth env task ≠ none) :
    p'.warnings ++ dues env task' = p.warnings ++ dues env task := by
  cases act with
  | spend | putOff | draw | take | claim | setAlarm | roster | ring => rfl
  | trace message isTrace =>
      rw [Progress.warnings_say, List.filter_singleton,
        decide_eq_false (Message.level_ne_warn isTrace)]
      exact congrArg (· ++ _) (List.append_nil _)
  | token => rw [(opens_token ..).dues_eq sound, dues]
  | @record scope ip comment =>
      rw [dues, dues, dues, Expansion.inScope_record, Expansion.warnings]
      cases worth env (.fresh scope ip) <;> exact congrArg _ (List.append_nil _)
  | openJoin | openCrowd =>
      simp only [dues, duesOfAll_eq_flatMap, Expansion.inScope_list, Expansion.warnings,
        Expansion.warningsOfAll_eq_flatMap, List.flatMap_map, Progress.warnings_onRota]
  | @hangUp scope name =>
      rw [Progress.warnings_say, List.append_assoc, (answers_host ..).remark_append_dues, dues]
      rfl
  | finish =>
      simp only [Progress.warnings_sayAll, dues, worth, Except.toOption, Option.elim_some,
        List.nil_append, List.append_nil]
  | fail => rfl
  | settleJoin settled =>
      rename_i parts outcome
      rw [warnings_giveUpAll, dues, dues, duesOfAll_eq_flatMap]
      cases outcome with
      | error =>
          rw [worth, worths_eq_map, (settled_together settled).1] at sound
          exact absurd rfl sound
      | ok => rw [dues_settled (outcomeInOrder?_of_together_ok settled)]
  | settleCrowd settled =>
      rename_i roster parts outcome
      rw [warnings_giveUpAll, dues, dues, duesOfAll_eq_flatMap]
      cases outcome with
      | error =>
          rw [worth, worths_eq_map, (settled_in_order settled).1] at sound
          exact absurd rfl sound
      | ok => rw [dues_settled settled, Progress.warnings_onRota]

private theorem warnings_perm_around {part part' : Task} (front back : List Task)
    (kept : (p'.warnings ++ dues env part').Perm (p.warnings ++ dues env part)) :
    (p'.warnings ++ duesOfAll env (front ++ part' :: back)).Perm
      (p.warnings ++ duesOfAll env (front ++ part :: back)) := by
  have moved (given due : List Message) :
      (given ++ (front.flatMap (dues env) ++ (due ++ back.flatMap (dues env)))).Perm
        ((given ++ due) ++ (front.flatMap (dues env) ++ back.flatMap (dues env))) := by
    rw [List.append_assoc]
    exact List.Perm.append_left _ (List.perm_append_comm_assoc ..)
  simp only [duesOfAll_eq_flatMap, List.flatMap_append, List.flatMap_cons]
  exact (moved _ _).trans ((kept.append_right _).trans (moved _ _).symm)

private theorem worth_part_ne_none {front back : List Task} {part : Task}
    (sound : together (worths env (front ++ part :: back)) ≠ none) : worth env part ≠ none := by
  rw [worths_eq_map] at sound
  exact fun lost => sound (worth_of_part_lost lost)

/-- A step of a task that is worth something keeps the account of its warnings. -/
theorem Step.warnings_perm (step : Step env bell task p task' p') (sound : worth env task ≠ none) :
    (p'.warnings ++ dues env task').Perm (p.warnings ++ dues env task) := by
  induction step with
  | act act => exact .of_eq (act.warnings_eq sound)
  | @inGather _ scope gathering body body' _ _ inner ih =>
      have part : worth env body ≠ none := fun lost => sound (by rw [worth, lost]; rfl)
      rw [dues, dues, inner.worth_eq, ← List.append_assoc, ← List.append_assoc]
      exact (ih part).append_right _
  | inJoin _ ih => exact warnings_perm_around _ _ (ih (worth_part_ne_none sound))
  | inCrowd _ ih => exact warnings_perm_around _ _ (ih (worth_part_ne_none sound))

end Task

end AddressExpansion
