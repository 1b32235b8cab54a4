import AddressExpansion.Proofs.Expansion.Alike
import AddressExpansion.Proofs.InStep
import AddressExpansion.Proofs.Task.VisitInduction

/-! # Tasks that run alike

Two tasks are alike if they have come equally far and what they unfold to is alike. They are visited
in step, each in its own environment (`visit_inStep`), so whatever of an environment cannot be seen
in an expansion makes no difference to a run.
-/

namespace AddressExpansion.Task

open Expansion (inScope ofHost)

/-- Whether two tasks, each in its own environment, look the same to a run. -/
inductive Alike (env env' : Environment) : Task → Task → Prop
  | fresh {scope scope' term term'}
      (alike : Expansion.Alike env env' (inScope env scope term) (inScope env' scope' term')) :
      Alike env env' (.fresh scope term) (.fresh scope' term')
  | lookup {scope scope' name stage}
      (alike : Expansion.Alike env env' (ofHost env scope name) (ofHost env' scope' name)) :
      Alike env env' (.lookup scope name stage) (.lookup scope' name stage)
  | gather {scope scope' gathering body body'} (inside : Alike env env' body body') :
      Alike env env' (.gather scope gathering body) (.gather scope' gathering body')
  | join {parts parts'} (inside : List.Forall₂ (Alike env env') parts parts') :
      Alike env env' (.join parts) (.join parts')
  | crowd {roster parts parts'} (inside : List.Forall₂ (Alike env env') parts parts') :
      Alike env env' (.crowd roster parts) (.crowd roster parts')
  | ended {outcome} : Alike env env' (.ended outcome) (.ended outcome)

variable {env env' : Environment} {scope scope' : Scope} {task task' : Task}
  {parts parts' : List Task}

theorem Alike.refl (task : Task) : Alike env env task task := by
  induction task using Task.induct with
  | fresh => exact .fresh (.refl fun _ _ => rfl)
  | lookup => exact .lookup (.refl fun _ _ => rfl)
  | gather _ _ _ ih => exact .gather ih
  | join _ ih => exact .join (List.forall₂_same.mpr ih)
  | crowd _ _ ih => exact .crowd (List.forall₂_same.mpr ih)
  | ended => exact .ended

theorem forall₂_alike_refl (env : Environment) (parts : List Task) :
    List.Forall₂ (Alike env env) parts parts :=
  List.forall₂_same.mpr fun part _ => .refl part

/-! ## What can be seen of a task -/

theorem Alike.outcome?_eq (alike : Alike env env' task task') : task.outcome? = task'.outcome? := by
  cases alike <;> rfl

theorem Alike.failure?_eq (alike : Alike env env' task task') : task.failure? = task'.failure? := by
  cases alike <;> rfl

theorem Alike.isOver_eq (alike : Alike env env' task task') : task.isOver = task'.isOver := by
  rw [isOver, isOver, alike.outcome?_eq]

theorem outcomeInOrder?_alike (alike : List.Forall₂ (Alike env env') parts parts') :
    outcomeInOrder? parts = outcomeInOrder? parts' := by
  induction alike with
  | nil => rfl
  | cons here _ ih =>
      cases here with
      | @ended outcome =>
          cases outcome with
          | ok => rw [outcomeInOrder?, outcomeInOrder?, ih]
          | error => rfl
      | fresh | lookup | gather | join | crowd => rfl

theorem outcomeTogether?_alike (alike : List.Forall₂ (Alike env env') parts parts') :
    outcomeTogether? parts = outcomeTogether? parts' := by
  have first : parts.findSome? failure? = parts'.findSome? failure? := by
    induction alike with
    | nil => rfl
    | cons here _ ih => rw [List.findSome?_cons, List.findSome?_cons, ih, here.failure?_eq]
  rw [outcomeTogether?, outcomeTogether?, first, outcomeInOrder?_alike alike]

theorem Alike.alarms_eq (alike : Alike env env' task task') (bell : Bell) :
    task.alarms bell = task'.alarms bell := by
  induction task using Task.induct generalizing task' bell with
  | fresh | lookup | ended => cases alike; rfl
  | gather _ _ _ ih =>
      cases alike with
      | gather inside => exact ih inside bell
  | join parts ih =>
      cases alike with
      | join inside =>
          rw [alarms, alarms]
          induction inside with
          | nil => rfl
          | cons here _ ihParts =>
              rw [List.forall_mem_cons] at ih
              rw [alarmsOfJoin, alarmsOfJoin, ih.1 here bell, ihParts ih.2]
  | crowd roster parts ih =>
      cases alike with
      | crowd inside =>
          rw [alarms, alarms]
          generalize 0 = index
          induction inside generalizing index with
          | nil => rfl
          | cons here _ ihParts =>
              rw [List.forall_mem_cons] at ih
              rw [alarmsOfCrowd, alarmsOfCrowd, ih.1 here _, ihParts ih.2]

theorem inStep_giveUpAll_of (each : ∀ part ∈ parts, ∀ {part'}, Alike env env' part part' →
      InStep Eq part.giveUp part'.giveUp) (alike : List.Forall₂ (Alike env env') parts parts') :
    InStep Eq (giveUpAll parts) (giveUpAll parts') := by
  induction alike with
  | nil => exact .pure rfl
  | cons here _ ih =>
      rw [List.forall_mem_cons] at each
      exact (each.1 here).bind_eq fun _ => ih each.2

theorem Alike.inStep_giveUp (alike : Alike env env' task task') :
    InStep Eq task.giveUp task'.giveUp := by
  induction task using Task.induct generalizing task' with
  | fresh | ended => cases alike; exact .pure rfl
  | lookup =>
      cases alike with
      | lookup => exact .giveUp _
  | gather _ _ _ ih =>
      cases alike with
      | gather inside =>
          rw [giveUp, giveUp]
          exact ih inside
  | join parts ih =>
      cases alike with
      | join inside => exact inStep_giveUpAll_of ih inside
  | crowd roster parts ih =>
      cases alike with
      | crowd inside =>
          exact (Crowd.inStep_dismiss roster).bind_eq fun _ => inStep_giveUpAll_of ih inside

theorem inStep_giveUpAll (alike : List.Forall₂ (Alike env env') parts parts') :
    InStep Eq (giveUpAll parts) (giveUpAll parts') :=
  inStep_giveUpAll_of (fun _ _ => Alike.inStep_giveUp) alike

/-! ## What is opened -/

section Opened

variable {name name' : String} {e e' : Expansion}

private theorem Uses.alike {use use' : Task → Task} (uses : Uses env use e task)
    (uses' : Uses env' use' e' task') (alike : Expansion.Alike env env' e e')
    (used : ∀ {task task'}, Alike env env' task task' → Alike env env' (use task) (use' task')) :
    Alike env env' task task' := by
  have kinds := alike.kind_eq
  cases uses with
  | refused =>
      cases uses' with
      | refused =>
          cases alike
          exact .ended
      | inside => exact absurd kinds.symm (Expansion.kind_ne_fault _ _ _)
  | inside =>
      cases uses' with
      | refused => exact absurd kinds (Expansion.kind_ne_fault _ _ _)
      | inside => exact used (.fresh alike)

private theorem Opens.alike (opens : Opens env scope name e task)
    (opens' : Opens env' scope' name' e' task') (alike : Expansion.Alike env env' e e') :
    Alike env env' task task' := by
  -- What the name means can be seen from the kind of what it unfolds to.
  have kinds := alike.kind_eq
  cases opens with
  | literal =>
      cases opens' with
      | literal =>
          cases alike
          exact .ended
      | group | var => cases kinds
      | host => cases kinds.trans (Expansion.kind_ofHost ..)
  | group uses =>
      cases opens' with
      | group uses' =>
          cases alike with
          | group inside => exact uses.alike uses' inside .gather
      | literal | var => cases kinds
      | host => cases kinds.trans (Expansion.kind_ofHost ..)
  | var uses =>
      cases opens' with
      | var uses' =>
          cases alike with
          | var inside => exact uses.alike uses' inside id
      | literal | group => cases kinds
      | host => cases kinds.trans (Expansion.kind_ofHost ..)
  | host =>
      rw [Expansion.kind_ofHost] at kinds
      cases opens' with
      | host =>
          obtain rfl := Expansion.Kind.lookup.inj (kinds.trans (Expansion.kind_ofHost ..))
          exact .lookup alike
      | literal | group | var => cases kinds

private theorem Answers.alike (answers : Answers env scope name e task)
    (answers' : Answers env' scope' name e' task') (alike : Expansion.Alike env env' e e') :
    Alike env env' task task' := by
  cases answers with
  | found | lost =>
      cases alike
      cases answers'
      exact .ended
  | rescued _ _ uses =>
      cases alike with
      | rescue _ inside =>
          cases answers' with
          | rescued _ _ uses' => exact uses.alike uses' inside .gather

end Opened

theorem alike_opened {token token' : String} (alike : Expansion.Alike env env'
      (inScope env scope (.literal token)) (inScope env' scope' (.literal token'))) :
    Alike env env' (opened env scope token) (opened env' scope' token') :=
  (opens_token env scope token).alike (opens_token env' scope' token') alike

theorem alike_answered {name : String}
    (alike : Expansion.Alike env env' (ofHost env scope name) (ofHost env' scope' name)) :
    Alike env env' (answered env scope name) (answered env' scope' name) :=
  (answers_host env scope name).alike (answers_host env' scope' name) alike

/-! ## Visits -/

/-- Whether two tasks are alike, and visits that go down so many levels reach everything in them. -/
structure AlikeWithin (env env' : Environment) (levels levels' : Nat) (task task' : Task) :
    Prop where
  alike : Alike env env' task task'
  fits : task.Fits env levels
  fits' : task'.Fits env' levels'

/-- Whether visits to tasks that are alike are in step. -/
def VisitsInStep (env env' : Environment) (levels levels' : Nat) : Prop :=
  ∀ bell task task', AlikeWithin env env' levels levels' task task' →
    InStep (AlikeWithin env env' levels levels') (visit env levels bell task)
      (visit env' levels' bell task')

variable {levels levels' : Nat}

theorem inStep_gathered {gathering : Gathering} (alike : Alike env env' task task') :
    InStep (Alike env env') (gathered scope gathering task) (gathered scope' gathering task') := by
  unfold gathered
  rw [alike.outcome?_eq]
  cases task'.outcome? with
  | none => exact .pure (.gather alike)
  | some outcome =>
      cases outcome with
      | error => exact .pure .ended
      | ok atoms =>
          refine InStep.bind_eq ?_ fun _ => .pure .ended
          intro p q same
          rw [gathering.run_finish, gathering.run_finish]
          exact ⟨rfl,
            ((Progress.Alike.sayAll _ _).trans same).trans (Progress.Alike.sayAll _ _).symm⟩

theorem inStep_gather {gathering : Gathering} (inStep : VisitsInStep env env' levels levels')
    (bell : Bell) (alike : AlikeWithin env env' levels levels' task task') :
    InStep (Alike env env')
      (visitWith env (visit env levels) bell (.gather scope gathering task))
      (visitWith env' (visit env' levels') bell (.gather scope' gathering task')) :=
  (inStep bell _ _ alike).bind fun _ _ visited => inStep_gathered visited.alike

theorem inStep_goOn (inStep : VisitsInStep env env' levels levels') (bell : Bell)
    (ready : Ready env levels task) (ready' : Ready env' levels' task')
    (alike : Alike env env' task task') :
    InStep (Alike env env') (goOn env (visit env levels) bell task)
      (goOn env' (visit env' levels') bell task') := by
  cases ready with
  | finished =>
      cases alike
      exact .pure .ended
  | inside fits =>
      cases ready' with
      | inside fits' =>
          exact (inStep bell _ _ ⟨alike, fits_fresh.mpr fits, fits_fresh.mpr fits'⟩).imp
            AlikeWithin.alike
      | finished | gather => cases alike
  | gather fits =>
      cases ready' with
      | gather fits' =>
          cases alike with
          | gather inside =>
              exact inStep_gather inStep bell ⟨inside, fits_fresh.mpr fits, fits_fresh.mpr fits'⟩
      | finished | inside => cases alike

theorem inStep_visitLookup (inStep : VisitsInStep env env' levels levels') (bell : Bell)
    {name : String} {stage : Stage} (alike : AlikeWithin env env' (levels + 1) (levels' + 1)
      (.lookup scope name stage) (.lookup scope' name stage)) :
    InStep (Alike env env') (visitLookup env (visit env levels) bell scope name stage)
      (visitLookup env' (visit env' levels') bell scope' name stage) := by
  obtain ⟨same, fits, fits'⟩ := alike
  cases same with
  | lookup unfolds =>
      unfold visitLookup
      rw [unfolds.wait_eq (Expansion.kind_ofHost env scope name)]
      refine (InStep.visit name _ bell stage).bind_eq fun stage? => ?_
      cases stage? with
      | some stage' => exact .pure (.lookup unfolds)
      | none =>
          have goOn := inStep_goOn inStep bell (ready_answered fits) (ready_answered fits')
            (alike_answered unfolds)
          refine InStep.of_said goOn ?_ ?_ <;>
          exact fun p => ⟨_, Progress.Alike.say p _, run_afterLookup name⟩

theorem inStep_visitToken (inStep : VisitsInStep env env' levels levels') (bell : Bell)
    {token token' : String} (alike : AlikeWithin env env' (levels + 1) (levels' + 1)
      (.fresh scope (.literal token)) (.fresh scope' (.literal token'))) :
    InStep (Alike env env') (visitToken env (visit env levels) bell scope token)
      (visitToken env' (visit env' levels') bell scope' token') := by
  have said : ∀ {env : Environment} {levels scope token} (p : Progress), ∃ p' : Progress,
      p'.Alike p ∧ (visitToken env (visit env levels) bell scope token).run p =
        (goOn env (visit env levels) bell (opened env scope token)).run p' := by
    intro env levels scope token p
    obtain ⟨messages, -, run⟩ := run_visitToken env (visit env levels) bell scope token p
    exact ⟨_, Progress.Alike.sayAll p messages, run⟩
  refine InStep.of_said ?_ said said
  obtain ⟨same, fits, fits'⟩ := alike
  cases same with
  | fresh unfolds =>
      have opens := alike_opened unfolds
      have ready := ready_opened fits
      have ready' := ready_opened fits'
      generalize opened env scope token = task, opened env' scope' token' = task' at *
      rcases ready with ready | ⟨name, rfl, inside⟩ <;>
      rcases ready' with ready' | ⟨name', rfl, inside'⟩
      · exact inStep_goOn inStep bell ready ready' opens
      · cases opens
        cases ready
      · cases opens
        cases ready'
      · cases opens with
        | lookup unfolds => exact inStep_visitLookup inStep bell ⟨.lookup unfolds, inside, inside'⟩

/-- Parts are visited in step, up to the first that fails. -/
theorem inStep_visitEach (inStep : VisitsInStep env env' levels levels') (bell : Bell)
    (each : List.Forall₂ (AlikeWithin env env' levels levels') parts parts') :
    InStep (List.Forall₂ (Alike env env')) (visitEach (visit env levels bell) parts)
      (visitEach (visit env' levels' bell) parts') := by
  induction each with
  | nil => exact .pure .nil
  | cons here rest ih =>
      unfold visitEach
      refine (inStep bell _ _ here).bind fun part part' visited => ?_
      rw [visited.alike.failure?_eq]
      refine .ite (.pure (.cons visited.alike (rest.imp fun _ _ => AlikeWithin.alike))) ?_
      exact ih.bind fun _ _ others => .pure (.cons visited.alike others)

theorem inStep_visitJoin (inStep : VisitsInStep env env' levels levels') (bell : Bell)
    (each : List.Forall₂ (AlikeWithin env env' levels levels') parts parts') :
    InStep (Alike env env') (visitJoin (visit env levels) bell parts)
      (visitJoin (visit env' levels') bell parts') := by
  unfold visitJoin
  refine (inStep_visitEach inStep bell each).bind fun others others' alike => ?_
  rw [outcomeTogether?_alike alike]
  cases outcomeTogether? others' with
  | none => exact .pure (.join alike)
  | some => exact (inStep_giveUpAll alike).bind_eq fun _ => .pure .ended

private theorem alike_crowdOf (inStep : VisitsInStep env env' levels levels') (bell : Bell)
    (roster : Nat) : Crowd.Alike (AlikeWithin env env' levels levels')
      (crowdOf (visit env levels) bell roster) (crowdOf (visit env' levels') bell roster) where
  id := rfl
  bell := rfl
  isOver here := here.alike.isOver_eq
  isSettled each := congrArg Option.isSome
    (outcomeInOrder?_alike (each.imp fun _ _ => AlikeWithin.alike))
  visit bell here := inStep bell _ _ here

theorem inStep_visitCrowd (inStep : VisitsInStep env env' levels levels') (bell : Bell)
    (roster : Nat) (each : List.Forall₂ (AlikeWithin env env' levels levels') parts parts') :
    InStep (Alike env env') (visitCrowd (visit env levels) bell roster parts)
      (visitCrowd (visit env' levels') bell roster parts') := by
  unfold visitCrowd
  refine ((alike_crowdOf inStep bell roster).inStep_attend each).bind fun others others' each => ?_
  have alike := each.imp fun _ _ => AlikeWithin.alike
  rw [outcomeInOrder?_alike alike]
  cases outcomeInOrder? others' with
  | none => exact .pure (.crowd alike)
  | some =>
      refine (Crowd.inStep_dismiss roster).bind_eq fun _ => ?_
      exact (inStep_giveUpAll alike).bind_eq fun _ => .pure .ended

theorem inStep_ofParts (each : List.Forall₂ (Alike env env') parts parts') :
    InStep (Alike env env') (ofParts parts) (ofParts parts') := by
  unfold ofParts
  rw [each.length_eq]
  refine .ite (.pure (.join each)) ?_
  exact (Crowd.inStep_enroll _).bind_eq fun roster => .pure (.crowd each)

private theorem forall₂_within (each : List.Forall₂ (Alike env env') parts parts')
    (fits : ∀ part ∈ parts, part.Fits env levels)
    (fits' : ∀ part ∈ parts', part.Fits env' levels') :
    List.Forall₂ (AlikeWithin env env' levels levels') parts parts' := by
  induction each with
  | nil => exact .nil
  | cons here _ ih =>
      rw [List.forall_mem_cons] at fits fits'
      exact .cons ⟨here, fits.1, fits'.1⟩ (ih fits.2 fits'.2)

private theorem inStep_list (inStep : VisitsInStep env env' levels levels') (bell : Bell)
    {items items' : List Term}
    (inside : List.Forall₂ (fun item item' =>
      Expansion.Alike env env' (inScope env scope item) (inScope env' scope' item')) items items')
    (fits : (fresh scope (.list items)).Fits env (levels + 1))
    (fits' : (fresh scope' (.list items')).Fits env' (levels' + 1)) :
    InStep (Alike env env')
      (do visit env levels bell (← ofParts (items.map (.fresh scope))) : Work Task)
      (do visit env' levels' bell (← ofParts (items'.map (.fresh scope'))) : Work Task) := by
  have parts : List.Forall₂ (Alike env env') (items.map (.fresh scope))
      (items'.map (.fresh scope')) :=
    List.forall₂_map_left_iff.mpr (List.forall₂_map_right_iff.mpr (inside.imp fun _ _ => .fresh))
  have opens : InStep (AlikeWithin env env' levels levels')
      (ofParts (items.map (.fresh scope))) (ofParts (items'.map (.fresh scope'))) := by
    intro p q same
    obtain ⟨opens, same⟩ := inStep_ofParts parts p q same
    exact ⟨⟨opens, fits_ofParts fits p, fits_ofParts fits' q⟩, same⟩
  exact opens.bind fun _ _ opens => (inStep bell _ _ opens).imp AlikeWithin.alike

private theorem inStep_visitWith (inStep : VisitsInStep env env' levels levels') (bell : Bell)
    (alike : AlikeWithin env env' (levels + 1) (levels' + 1) task task') :
    InStep (Alike env env') (visitWith env (visit env levels) bell task)
      (visitWith env' (visit env' levels') bell task') := by
  obtain ⟨same, fits, fits'⟩ := id alike
  cases same with
  | ended => exact .pure .ended
  | lookup => exact inStep_visitLookup inStep bell alike
  | gather inside =>
      exact inStep_gather inStep bell ⟨inside, fits_gather.mp fits, fits_gather.mp fits'⟩
  | join each =>
      exact inStep_visitJoin inStep bell
        (forall₂_within each (fits_join.mp fits) (fits_join.mp fits'))
  | crowd each =>
      exact inStep_visitCrowd inStep bell _
        (forall₂_within each (fits_crowd.mp fits) (fits_crowd.mp fits'))
  | fresh unfolds =>
      cases unfolds.terms with
      | literal =>
          rw [visitWith, visitWith]
          exact inStep_visitToken inStep bell alike
      | record inside =>
          rw [fits_fresh, Expansion.inScope_record] at fits fits'
          exact inStep_gather inStep bell ⟨.fresh inside, fits_fresh.mpr fits, fits_fresh.mpr fits'⟩
      | list inside =>
          rw [visitWith, visitWith]
          exact inStep_list inStep bell inside fits fits'

theorem fits_visit (fits : task.Fits env levels) (bell : Bell) (p : Progress) :
    ((visit env levels bell task).run p).1.Fits env levels :=
  (steps_visit env levels bell task p).keeps (P := fun task _ => task.Fits env levels)
    (fun step => step.fits) fits

/-- Tasks that are alike are visited in step, whatever the levels are that the visits may go down,
    as long as they are enough. -/
theorem visit_inStep (env env' : Environment) (levels levels' : Nat) :
    VisitsInStep env env' levels levels' := by
  have finished : ∀ {env : Environment} {levels outcome} (bell : Bell),
      visit env levels bell (.ended outcome) = pure (.ended outcome) := by
    intro env levels outcome bell
    cases levels <;> rfl
  suffices inStep : ∀ bell task task', AlikeWithin env env' levels levels' task task' →
      InStep (Alike env env') (visit env levels bell task) (visit env' levels' bell task') by
    intro bell task task' alike p q same
    obtain ⟨visited, same⟩ := inStep bell task task' alike p q same
    exact ⟨⟨visited, fits_visit alike.fits bell p, fits_visit alike.fits' bell q⟩, same⟩
  induction levels generalizing levels' with
  | zero =>
      rintro bell task task' ⟨same, fits, -⟩
      obtain ⟨outcome, rfl⟩ := fits.of_zero
      cases same
      rw [finished, finished]
      exact .pure .ended
  | succ levels ih =>
      rintro bell task task' ⟨same, fits, fits'⟩
      cases levels' with
      | zero =>
          obtain ⟨outcome, rfl⟩ := fits'.of_zero
          cases same
          rw [finished, finished]
          exact .pure .ended
      | succ levels' =>
          refine inStep_visitWith ?_ bell ⟨same, fits, fits'⟩
          intro bell task task' alike p q same
          obtain ⟨visited, same⟩ := ih levels' bell task task' alike p q same
          exact ⟨⟨visited, fits_visit alike.fits bell p, fits_visit alike.fits' bell q⟩, same⟩

end AddressExpansion.Task
