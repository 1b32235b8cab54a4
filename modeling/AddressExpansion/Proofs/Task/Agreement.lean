import AddressExpansion.Proofs.Task.Alike
import AddressExpansion.Proofs.Task.Survey
import AddressExpansion.Proofs.Text

/-! # Agreement on names

What counts of a name is its first definition: a group, a variable, the answer to its lookup, or its
override if the lookup fails. Main statement: a survey in one environment is followed by visits in
another that agrees on each name that the survey meets (`follows_survey`). So what a visit comes to
depends on nothing else in its environment.
-/

namespace AddressExpansion

/-- Whether two environments agree on a name: on the first definition that counts, and where it has
    none on the answer to its lookup, and then on its override if the lookup fails. -/
structure Environment.AgreesOn (env env' : Environment) (name : String) : Prop where
  group : Address.classify name = none → env.inventory.group? name = env'.inventory.group? name
  var : Address.classify name = none → env.inventory.group? name = none →
    env.inventory.var? name = env'.inventory.var? name
  answer : env.meaning name = .host → env.answer name = env'.answer name
  override : env.meaning name = .host → (env.outcome name).isOk = false →
    env.override? name = env'.override? name

namespace Environment.AgreesOn

variable {env env' : Environment} {name : String} (agrees : env.AgreesOn env' name)
include agrees

omit agrees in
theorem of_literal {address : Address} (literal : Address.classify name = some address) :
    env.AgreesOn env' name := by
  have meaning : env.meaning name = .literal address := by rw [Environment.meaning, literal]
  refine ⟨fun other => ?_, fun other => ?_, fun host => ?_, fun host => ?_⟩
  · rw [literal] at other
    cases other
  · rw [literal] at other
    cases other
  · rw [meaning] at host
    cases host
  · rw [meaning] at host
    cases host

omit agrees in
/-- Nothing else counts under the name of a group. -/
theorem of_group {members : List String} (group : env.inventory.group? name = some members)
    (group' : env'.inventory.group? name = some members) : env.AgreesOn env' name := by
  have other : env.meaning name ≠ .host := by
    rw [Environment.meaning, group]
    cases Address.classify name <;> exact nofun
  refine ⟨fun _ => group.trans group'.symm, fun _ none => ?_, fun host => absurd host other,
    fun host => absurd host other⟩
  rw [group] at none
  cases none

theorem meaning_eq : env.meaning name = env'.meaning name := by
  unfold meaning
  cases token : Address.classify name with
  | some => rfl
  | none =>
      rw [← agrees.group token]
      cases group : env.inventory.group? name with
      | some => rfl
      | none => rw [← agrees.var token group]

theorem outcome_eq (timeout : env.timeout = env'.timeout) (host : env.meaning name = .host) :
    env.outcome name = env'.outcome name := by
  rw [outcome, outcome, agrees.answer host, timeout]

theorem wait?_eq (timeout : env.timeout = env'.timeout) (host : env.meaning name = .host) :
    env.wait? name = env'.wait? name := by
  rw [wait?, wait?, agrees.answer host, timeout]

end Environment.AgreesOn

namespace Task

open Work

variable {env env' : Environment} {scope : Scope} {bell : Bell} {task task' : Task}
  {p p' : Progress} {levels levels' : Nat}

theorem opened_eq {token : String} (agrees : env.AgreesOn env' (Text.trim token)) :
    opened env scope token = opened env' scope token := by
  unfold opened
  dsimp only
  rw [agrees.meaning_eq]

theorem answered_eq {name : String} (timeout : env.timeout = env'.timeout)
    (host : env.meaning name = .host) (agrees : env.AgreesOn env' name) :
    answered env scope name = answered env' scope name := by
  unfold answered
  rw [← agrees.outcome_eq timeout host]
  cases failed : env.outcome name with
  | ok => rfl
  | error => rw [← agrees.override host (by rw [failed]; rfl)]

/-! ## Hosts -/

/-- Whether the lookups in a task are of names that mean hosts, without blanks around them. -/
inductive Hosts (env : Environment) : Task → Prop
  | fresh {scope term} : Hosts env (.fresh scope term)
  | lookup {scope name stage} (trimmed : Text.trim name = name) (host : env.meaning name = .host) :
      Hosts env (.lookup scope name stage)
  | gather {scope gathering body} (inside : Hosts env body) :
      Hosts env (.gather scope gathering body)
  | join {parts} (inside : ∀ part ∈ parts, Hosts env part) : Hosts env (.join parts)
  | crowd {roster parts} (inside : ∀ part ∈ parts, Hosts env part) :
      Hosts env (.crowd roster parts)
  | ended {outcome} : Hosts env (.ended outcome)

section Opened

variable {name : String} {e : Expansion} {task : Task}

theorem Uses.hosts {use : Task → Task} (uses : Uses env use e task)
    (used : ∀ within term, Hosts env (use (.fresh within term))) : Hosts env task := by
  cases uses with
  | refused => exact .ended
  | inside => exact used _ _

theorem Opens.hosts (opens : Opens env scope name e task) (trimmed : Text.trim name = name) :
    Hosts env task := by
  cases opens with
  | literal => exact .ended
  | group uses => exact uses.hosts fun _ _ => .gather .fresh
  | var uses => exact uses.hosts fun _ _ => .fresh
  | host meaning => exact .lookup trimmed meaning

theorem hosts_opened (env : Environment) (scope : Scope) (token : String) :
    Hosts env (opened env scope token) :=
  (opens_token env scope token).hosts (Text.trim_trim token)

theorem Opens.name_eq {name' : String} {stage : Stage}
    (opens : Opens env scope name e (.lookup scope name' stage)) : name' = name := by
  generalize same : Task.lookup scope name' stage = task at opens
  cases opens with
  | literal => cases same
  | group uses | var uses => cases uses <;> cases same
  | host => exact (Task.lookup.inj same).2.1

theorem Answers.hosts (answers : Answers env scope name e task) : Hosts env task := by
  cases answers with
  | found | lost => exact .ended
  | rescued _ _ uses => exact uses.hosts fun _ _ => .gather .fresh

end Opened

theorem hosts_freshAll (scope : Scope) (items : List Term) :
    ∀ part ∈ items.map (Task.fresh scope), Hosts env part := by
  intro part member
  obtain ⟨item, -, rfl⟩ := List.mem_map.mp member
  exact .fresh

theorem Act.hosts (act : Act env bell task p task' p') (hosts : Hosts env task) :
    Hosts env task' := by
  cases act with
  | trace | spend | putOff | roster | ring => exact hosts
  | draw | take | claim | setAlarm =>
      cases hosts with
      | lookup trimmed host => exact .lookup trimmed host
  | token => exact hosts_opened env _ _
  | hangUp => exact (answers_host ..).hosts
  | record => exact .gather .fresh
  | openJoin => exact .join (hosts_freshAll _ _)
  | openCrowd => exact .crowd (hosts_freshAll _ _)
  | finish | fail | settleJoin | settleCrowd => exact .ended

theorem Step.hosts (step : Step env bell task p task' p') (hosts : Hosts env task) :
    Hosts env task' := by
  induction step with
  | act act => exact act.hosts hosts
  | inGather _ ih =>
      cases hosts with
      | gather inside => exact .gather (ih inside)
  | inJoin _ ih =>
      cases hosts with
      | join inside => exact .join (forall_mem_exchange inside (ih (inside _ (by simp))))
  | inCrowd _ ih =>
      cases hosts with
      | crowd inside => exact .crowd (forall_mem_exchange inside (ih (inside _ (by simp))))

theorem hosts_ofParts {parts : List Task} (inside : ∀ part ∈ parts, Hosts env part) (p : Progress) :
    Hosts env ((ofParts parts).run p).1 := by
  unfold ofParts
  split
  · exact .join inside
  · exact .crowd inside

/-! ## Following a survey -/

theorem inStep_gathered_self (scope : Scope) (gathering : Gathering) (body : Task) :
    InStep Eq (gathered scope gathering body) (gathered scope gathering body) := by
  unfold gathered
  split
  · refine InStep.bind_eq ?_ fun _ => .pure rfl
    intro p q same
    rw [gathering.run_finish, gathering.run_finish]
    exact ⟨rfl, ((Progress.Alike.sayAll _ _).trans same).trans (Progress.Alike.sayAll _ _).symm⟩
  · exact .pure rfl
  · exact .pure rfl

theorem inStep_ofParts_self (parts : List Task) : InStep Eq (ofParts parts) (ofParts parts) := by
  unfold ofParts
  exact .ite (.pure rfl) ((Crowd.inStep_enroll _).bind_eq fun _ => .pure rfl)

/-- What is to be agreed on: names that tokens may have. -/
def Agreed (env env' : Environment) (name : String) : Prop :=
  Text.trim name = name → env.AgreesOn env' name

/-- What is kept of a task that is surveyed in one environment and visited in another. -/
structure Shared (env env' : Environment) (levels levels' : Nat) (task : Task) : Prop where
  fits : task.Fits env levels
  fits' : task.Fits env' levels'
  hosts : Hosts env task

/-- Whether surveys in one environment are followed by visits in another. -/
def SurveysFollowed (env env' : Environment) (levels levels' : Nat) : Prop :=
  ∀ bell task, Shared env env' levels levels' task →
    Follows (Agreed env env') (Shared env env' levels levels') (survey env levels bell task)
      (visit env' levels' bell task)

section Following

variable (followed : SurveysFollowed env env' levels levels')
include followed

theorem follows_gather {gathering : Gathering} (shared : Shared env env' levels levels' task) :
    Follows (Agreed env env') (fun _ => True)
      (visitWith env (survey env levels) bell (.gather scope gathering task))
      (visitWith env' (visit env' levels') bell (.gather scope gathering task)) := by
  refine .bind (followed bell task shared) (growing_survey env levels bell task)
    (growing_gathered scope gathering) fun body _ => ?_
  exact .of_inStep (inStep_gathered_self scope gathering body) fun _ => trivial

theorem follows_goOn (ready : Ready env levels task) (ready' : Ready env' levels' task) :
    Follows (Agreed env env') (fun _ => True) (goOn env (survey env levels) bell task)
      (goOn env' (visit env' levels') bell task) := by
  cases ready with
  | finished => exact .pure trivial
  | inside fits =>
      cases ready' with
      | inside fits' =>
          exact (followed bell _ ⟨fits_fresh.mpr fits, fits_fresh.mpr fits', .fresh⟩).imp
            fun _ => trivial
  | gather fits =>
      cases ready' with
      | gather fits' =>
          exact follows_gather followed ⟨fits_fresh.mpr fits, fits_fresh.mpr fits', .fresh⟩

theorem follows_visitLookup {name : String} {stage : Stage} (timeout : env.timeout = env'.timeout)
    (host : env.meaning name = .host) (agrees : env.AgreesOn env' name)
    (fits : (lookup scope name stage).Fits env (levels + 1))
    (fits' : (lookup scope name stage).Fits env' (levels' + 1)) :
    Follows (Agreed env env') (fun _ => True)
      (visitLookup env (survey env levels) bell scope name stage)
      (visitLookup env' (visit env' levels') bell scope name stage) := by
  intro p q tracing alike only
  rw [run_visitLookup] at only ⊢
  rw [run_visitLookup, ← agrees.wait?_eq timeout host]
  obtain ⟨same, alike⟩ := InStep.visit name (env.wait? name) bell stage p q alike
  cases visited : (stage.visit name (env.wait? name) bell).run p with
  | mk stage? p' =>
      cases visited' : (stage.visit name (env.wait? name) bell).run q with
      | mk stage?' q' =>
          rw [visited] at only same alike
          rw [visited'] at same alike
          obtain rfl : stage? = stage?' := same
          cases stage? with
          | some stage' => exact ⟨rfl, trivial, alike⟩
          | none =>
              have answer : answered env scope name = answered env' scope name :=
                answered_eq timeout host agrees
              have steps : Steps env bell (.lookup scope name stage, p)
                  (answered env scope name, p'.say (answerRemark env scope name)) :=
                steps_answered visited
              have ready' := ready_answered fits'
              rw [← answer] at ready' ⊢
              exact follows_goOn followed (ready_answered fits) ready' _ _
                (steps.grown.tracing.trans tracing) (((Progress.Alike.say p' _).trans alike).trans
                  (Progress.Alike.say q' _).symm) only

theorem follows_visitToken {token : String} (timeout : env.timeout = env'.timeout)
    (agrees : env.AgreesOn env' (Text.trim token))
    (fits : (fresh scope (.literal token)).Fits env (levels + 1))
    (fits' : (fresh scope (.literal token)).Fits env' (levels' + 1)) :
    Follows (Agreed env env') (fun _ => True)
      (visitToken env (survey env levels) bell scope token)
      (visitToken env' (visit env' levels') bell scope token) := by
  have said : ∀ {env : Environment} {inner : Visit} (p : Progress), ∃ messages,
      (visitToken env inner bell scope token).run p =
        (goOn env inner bell (opened env scope token)).run (p.sayAll messages) := by
    intro env inner p
    obtain ⟨messages, -, run⟩ := run_visitToken env inner bell scope token p
    exact ⟨messages, run⟩
  refine .of_said ?_ said said
  have hosts := hosts_opened env scope token
  have ready := ready_opened fits
  have ready' := ready_opened fits'
  rw [← opened_eq agrees] at ready' ⊢
  rcases ready with ready | ⟨name, opens, inside⟩
  · rcases ready' with ready' | ⟨name, opens, -⟩
    · exact follows_goOn followed ready ready'
    · rw [opens] at ready
      cases ready
  · rw [opens] at hosts ready' ⊢
    obtain rfl := (opens ▸ opens_token env scope token).name_eq
    rcases ready' with ready' | ⟨name, same, inside'⟩
    · cases ready'
    · obtain rfl := (Task.lookup.inj same).2.1
      cases hosts with
      | lookup _ host => exact follows_visitLookup followed timeout host agrees inside inside'

theorem follows_visitEach {parts : List Task}
    (shared : ∀ part ∈ parts, Shared env env' levels levels' part) :
    Follows (Agreed env env') (fun _ => True) (visitEach (survey env levels bell) parts)
      (visitEach (visit env' levels' bell) parts) := by
  induction parts with
  | nil => exact .pure trivial
  | cons part parts ih =>
      rw [List.forall_mem_cons] at shared
      have rest := growing_visitEach env levels bell parts
      unfold visitEach
      refine .bind (followed bell part shared.1) (growing_survey env levels bell part)
        (fun _ => .ite (.pure _) (rest.bind fun _ => .pure _)) fun part _ => ?_
      refine .ite (.pure trivial) ?_
      exact .bind (ih shared.2) rest (fun _ => .pure _) fun _ _ => .pure trivial

theorem follows_visitJoin {parts : List Task}
    (shared : ∀ part ∈ parts, Shared env env' levels levels' part) :
    Follows (Agreed env env') (fun _ => True) (visitJoin (survey env levels) bell parts)
      (visitJoin (visit env' levels') bell parts) := by
  unfold visitJoin
  refine .bind (follows_visitEach followed shared) (growing_visitEach env levels bell parts)
    (fun parts => ?_) fun parts _ => ?_
  · cases outcomeTogether? parts with
    | none => exact .pure _
    | some => exact (growing_giveUpAll parts).bind fun _ => .pure _
  · cases outcomeTogether? parts with
    | none => exact .pure trivial
    | some =>
        have givesUp := inStep_giveUpAll (forall₂_alike_refl env parts)
        exact .of_inStep (givesUp.bind_eq fun _ => .pure rfl) fun _ => trivial

theorem follows_visitCrowd {roster : Nat} {parts : List Task}
    (shared : ∀ part ∈ parts, Shared env env' levels levels' part) :
    Follows (Agreed env env') (fun _ => True) (visitCrowd (survey env levels) bell roster parts)
      (visitCrowd (visit env' levels') bell roster parts) := by
  have visits (bell' : Bell) (part : Task) (shared : Shared env env' levels levels' part) :
      Follows (Agreed env env') (Shared env env' levels levels')
        ((crowdOf (survey env levels) bell roster).visit bell' part)
        (visit env' levels' bell' part) := followed bell' part shared
  have surveys (bell' : Bell) (part : Task) :
      Growing ((crowdOf (survey env levels) bell roster).visit bell' part) :=
    growing_survey env levels bell' part
  have attends := Crowd.follows_attend visits surveys shared
  have grows := Crowd.growing_attendUpTo surveys (parts.length + 1) parts
  have dismisses : Growing (Crowd.dismiss roster) := .onRota _
  unfold visitCrowd
  refine .bind attends grows (fun parts => ?_) fun parts _ => ?_
  · cases outcomeInOrder? parts with
    | none => exact .pure _
    | some => exact dismisses.bind fun _ => (growing_giveUpAll parts).bind fun _ => .pure _
  · cases outcomeInOrder? parts with
    | none => exact .pure trivial
    | some =>
        have givesUp := inStep_giveUpAll (forall₂_alike_refl env parts)
        exact .of_inStep ((Crowd.inStep_dismiss roster).bind_eq fun _ =>
          givesUp.bind_eq fun _ => .pure rfl) fun _ => trivial

theorem follows_list {items : List Term}
    (fits : (fresh scope (.list items)).Fits env (levels + 1))
    (fits' : (fresh scope (.list items)).Fits env' (levels' + 1)) :
    Follows (Agreed env env') (fun _ => True)
      (visitWith env (survey env levels) bell (.fresh scope (.list items)))
      (visitWith env' (visit env' levels') bell (.fresh scope (.list items))) := by
  rw [visitWith, visitWith]
  have opens : Follows (Agreed env env') (Shared env env' levels levels')
      (ofParts (items.map (.fresh scope))) (ofParts (items.map (.fresh scope))) := by
    exact .of_inStep (inStep_ofParts_self _) fun p =>
      ⟨fits_ofParts fits p, fits_ofParts fits' p, hosts_ofParts (hosts_freshAll scope items) p⟩
  refine .bind opens (growing_ofParts _) (growing_survey env _ bell) fun task shared => ?_
  exact (followed bell task shared).imp fun _ => trivial

private theorem follows_visitWith (timeout : env.timeout = env'.timeout)
    (shared : Shared env env' (levels + 1) (levels' + 1) task) :
    Follows (Agreed env env') (fun _ => True) (survey env (levels + 1) bell task)
      (visit env' (levels' + 1) bell task) := by
  obtain ⟨fits, fits', hosts⟩ := shared
  have growing := growing_visitWith env levels bell task
  cases task with
  | ended outcome =>
      rw [survey_of_unmet rfl]
      exact .pure trivial
  | lookup scope name stage =>
      cases hosts with
      | lookup trimmed host =>
          -- The name is told of again, so that nothing has to be kept about earlier visits.
          rw [survey_of_met rfl]
          exact .of_sought growing fun agreed =>
            follows_visitLookup followed timeout host (agreed trimmed) fits fits'
  | gather scope gathering body =>
      rw [survey_of_unmet rfl]
      cases hosts with
      | gather inside =>
          exact follows_gather followed ⟨fits_gather.mp fits, fits_gather.mp fits', inside⟩
  | join parts =>
      rw [survey_of_unmet rfl]
      cases hosts with
      | join inside =>
          exact follows_visitJoin followed fun part member =>
            ⟨fits_join.mp fits part member, fits_join.mp fits' part member, inside part member⟩
  | crowd roster parts =>
      rw [survey_of_unmet rfl]
      cases hosts with
      | crowd inside =>
          exact follows_visitCrowd followed fun part member =>
            ⟨fits_crowd.mp fits part member, fits_crowd.mp fits' part member, inside part member⟩
  | fresh scope term =>
      cases term with
      | list items =>
          rw [survey_of_unmet rfl]
          exact follows_list followed fits fits'
      | record ip comment =>
          rw [survey_of_unmet rfl]
          rw [fits_fresh, Expansion.inScope_record] at fits fits'
          exact follows_gather followed ⟨fits_fresh.mpr fits, fits_fresh.mpr fits', .fresh⟩
      | literal token =>
          cases found : Address.classify (Text.trim token) with
          | some address =>
              rw [survey_of_unmet (met?_of_literal found), visit, visitWith, visitWith]
              exact follows_visitToken followed timeout (.of_literal found) fits fits'
          | none =>
              rw [visitWith] at growing
              rw [survey_of_met (met?_of_token found), visit, visitWith, visitWith]
              exact .of_sought growing fun agreed =>
                follows_visitToken followed timeout (agreed (Text.trim_trim token)) fits fits'

end Following

/-- Neither surveys nor visits take a task deeper, or to a lookup of anything but a host. -/
private theorem surveysFollowed_of
    (follows : ∀ {bell task}, Shared env env' levels levels' task →
      Follows (Agreed env env') (fun _ => True) (survey env levels bell task)
        (visit env' levels' bell task)) : SurveysFollowed env env' levels levels' := by
  intro bell task shared p q tracing alike only
  obtain ⟨same, -, alike⟩ := follows shared p q tracing alike only
  have steps := steps_survey env levels bell task p
  refine ⟨same, ⟨?_, ?_, ?_⟩, alike⟩
  · exact steps.keeps (P := fun task _ => task.Fits env levels) (fun step => step.fits) shared.fits
  · exact same ▸ fits_visit shared.fits' bell q
  · exact steps.keeps (P := fun task _ => Hosts env task) (fun step => step.hosts) shared.hosts

/-- A survey in one environment is followed by visits in another, whatever the levels are that both
    may go down, as long as they are enough. -/
theorem follows_survey (timeout : env.timeout = env'.timeout) (levels levels' : Nat) :
    SurveysFollowed env env' levels levels' := by
  have finished {levels outcome} (bell : Bell) :
      survey env levels bell (.ended outcome) = pure (.ended outcome) := by
    cases levels with
    | zero => rfl
    | succ => exact survey_of_unmet rfl
  have finished' {levels outcome} (bell : Bell) :
      visit env' levels bell (.ended outcome) = pure (.ended outcome) := by
    cases levels <;> rfl
  -- What fits no level is over; so the two visits go down a level together.
  induction levels generalizing levels' with
  | zero =>
      refine surveysFollowed_of fun {bell task} shared => ?_
      obtain ⟨outcome, rfl⟩ := shared.fits.of_zero
      rw [finished, finished']
      exact .pure trivial
  | succ levels ih =>
      refine surveysFollowed_of fun {bell task} shared => ?_
      cases levels' with
      | zero =>
          obtain ⟨outcome, rfl⟩ := shared.fits'.of_zero
          rw [finished, finished']
          exact .pure trivial
      | succ levels' => exact follows_visitWith (ih levels') timeout shared

end Task

end AddressExpansion
