import AddressExpansion.Proofs.Journal
import AddressExpansion.Proofs.Rounds

/-! # The history of a task

Lookups in a task ask for lines, and the journal of their requests goes along with the task. What
a step does to the switchboard is a sequence of deals about requests, and so is every move of the
clock. Main statement: at every moment of its course a task has a journal (`exists_history`).
-/

namespace AddressExpansion

namespace Task

variable {env : Environment} {lost : Prop} {front old new back : List Site} {task task' : Task}
  {p p' : Progress} {journal : List Request}

/-! ## Time stands still in a step -/

theorem Change.now_eq (change : Change env old p new p') : p'.board.now = p.board.now := by
  cases change with
  | remark => rw [Progress.sayAll_board]
  | hangUp => exact (Switchboard.startsNone_hangUp _).now
  | spend | unfold | openCrowd | putOff | draw | take | claim | setAlarm | roster | ring => rfl

theorem now_abandon (site : Site) (p : Progress) : (site.abandon p).board.now = p.board.now := by
  match site with
  | .fresh .. | .crowd .. | .lookup _ _ _ .idle => rfl
  | .lookup _ _ _ (.queued number) => exact (Switchboard.startsNone_discard _ number).now
  | .lookup _ _ _ (.underway ..) => exact (Switchboard.startsNone_hangUp _).now

theorem Step.now_eq {bell : Bell} {task task' : Task} (step : Step env bell task p task' p') :
    p'.board.now = p.board.now :=
  step.keepsSites (I := fun _ q => q.board.now = p.board.now)
    (fun change same => change.now_eq.trans same)
    (fun {_ site _ q} same => (now_abandon site q).trans same) [] [] rfl

/-! ## Steps are deals -/

theorem deals_abandon {site : Site} (allowed : site.roster?.isSome ∨ lost)
    (tells : Tells env.toEngine journal (front ++ site :: back)) :
    ∃ journal', Deals env.toEngine lost (journal, p.board) (journal', (site.abandon p).board) ∧
      Tells env.toEngine journal' (front ++ back) := by
  rw [← List.singleton_append, ← List.append_assoc] at tells
  have empty : front ++ back = front ++ [] ++ back := by simp
  rw [empty]
  match site with
  | .fresh .. | .lookup _ _ _ .idle | .crowd .. =>
      exact ⟨journal, .refl, tells.congr_unstarted (by simp [Site.standing?]) nofun⟩
  | .lookup bell scope name (.queued number) =>
      obtain ⟨before, request, after, rfl, stands, write⟩ := tells.settle rfl
      obtain ⟨asked, rfl⟩ := Request.exists_of_waiting stands
      have allowed := allowed.resolve_left (by simp [Site.roster?])
      exact ⟨_, .single (.discard allowed), write _ _ rfl⟩
  | .lookup bell scope name (.underway ends alarm) =>
      obtain ⟨before, request, after, rfl, stands, write⟩ := tells.settle rfl
      obtain ⟨asked, ticket, start, rfl, -⟩ := Request.exists_of_calling stands
      have allowed := allowed.resolve_left (by simp [Site.roster?])
      exact ⟨_, .single (.cut allowed), write _ _ rfl⟩

/-- What a step does to the switchboard is a sequence of deals. Lookups are given up only in a task
    that will fail, and at once if it is prompt. -/
theorem Step.deals {bell : Bell} {task task' : Task} (step : Step env bell task p task' p')
    (hopeless : Hopeless env task task' → lost)
    (tells : Tells env.toEngine journal (task.sites bell)) :
    ∃ journal', Deals env.toEngine lost (journal, p.board) (journal', p'.board) ∧
      Tells env.toEngine journal' (task'.sites bell) := by
  rcases step.altered with ⟨front, old, new, back, same, same', change⟩ |
    ⟨front, held, back, same, same', rfl, empty⟩
  · rw [same] at tells
    rw [same']
    exact change.deals tells
  · rw [same] at tells
    rw [same']
    have allowed : ∀ site ∈ held, site.roster?.isSome ∨ lost :=
      fun site member => empty.imp (fun rosters => rosters site member) hopeless
    clear same same' empty step
    induction held generalizing p journal with
    | nil => exact ⟨journal, .refl, by simpa using tells⟩
    | cons site held ih =>
        rw [List.append_assoc, List.cons_append] at tells
        obtain ⟨between, first, tells⟩ :=
          deals_abandon (p := p) (allowed site List.mem_cons_self) tells
        rw [← List.append_assoc] at tells
        obtain ⟨journal', rest, tells⟩ := ih (p := site.abandon p) tells
          fun site member => allowed site (List.mem_cons_of_mem _ member)
        exact ⟨journal', first.trans rest, tells⟩

/-! ## Moves of the clock are deals -/

namespace Rested

variable {engine : Engine} {levels lines time : Nat} {task : Task}
  (rested : Rested env levels lines task p) (silent : p.rota.rang = false)
  (tells : Tells engine journal (task.sites .main))
include rested silent tells

theorem calling_spec {request : Request} (member : request ∈ journal) {start : Nat}
    (calling : request.fate = .calling start) :
    p.board.now < start + engine.duration request.name ∧
      ∃ alarm ∈ task.alarms .main, alarm.time = start + engine.duration request.name := by
  obtain ⟨bell, scope, alarm, there⟩ := tells.site_of_calling member calling
  obtain ⟨later, number, rfl⟩ := rested.alarmed silent there
  exact ⟨later, ⟨_, number, bell⟩, mem_alarms.mpr ⟨scope, request.name, there⟩, rfl⟩

theorem busy_of_waiting {request : Request} (member : request ∈ journal) {ticket : Ticket}
    (queued : request.queued? = some ticket) : p.board.inFlight = lines := by
  obtain ⟨scope, there⟩ := tells.site_of_waiting member queued
  exact rested.lines_busy silent there

/-- When the clock moves, no line is left unused, and no call is past its end. -/
theorem deal_wait (next : Alarm.nextTime? (task.alarms .main) = some time) :
    Deal engine lost (journal, p.board) (journal, p.board.atTime time) := by
  obtain ⟨first, least⟩ := List.min?_eq_some_iff.mp next
  obtain ⟨alarm, set, rfl⟩ := List.mem_map.mp first
  obtain ⟨scope, name, there⟩ := mem_alarms.mp set
  obtain ⟨later, -⟩ := rested.alarmed silent there
  refine .wait (rested.unserved silent) later ?_ fun request member start calling => ?_
  · obtain ⟨asked, ticket, start, member, -⟩ := tells.exists_calling there
    exact ⟨_, member, rfl⟩
  · obtain ⟨-, alarm', set', same⟩ := rested.calling_spec silent tells member calling
    exact same ▸ least _ (List.mem_map_of_mem set')

end Rested

/-! ## Histories -/

/-- If nothing is forgotten while nothing can go on, a journal in good order is in order. -/
theorem inOrder_of_rested {α : Type} {engine : Engine} {levels lines : Nat} {task : Task}
    {m : Activity.Moment α} (conducted : Conducted engine lines journal m.board)
    (tells : Tells engine journal (task.sites .main))
    (rested : m.Silent → Rested env levels lines task m.progress)
    (givenUp : (∃ request ∈ journal, ∃ start, request.fate = .givenUp start) → lost) :
    m.InOrder engine lines lost journal where
  lawful := conducted.lawful
  busy := by
    rintro silent ⟨request, member, waits⟩
    obtain ⟨ticket, queued⟩ := conducted.exists_queued member waits
    exact (rested silent).busy_of_waiting silent.2 tells member queued
  awaited := by
    intro silent request member start calling
    exact ((rested silent).calling_spec silent.2 tells member calling).1
  givenUp := givenUp

/-- What holds of a task between turns; a task without any items has nothing to wait for. -/
def AtRest (env : Environment) (levels lines : Nat) (task : Task) (p : Progress) : Prop :=
  Rested env levels lines task p ∨ task = .join [] ∧ p.rota.rang = true ∧ levels ≠ 0

abbrev Course (env : Environment) (levels : Nat) :
    Activity.Moment Task → Activity.Moment Task → Prop :=
  Activity.Course (activity env levels) fun x y => Step env .main x.1 x.2 y.1 y.2

theorem now_round (env : Environment) (levels : Nat) (task : Task) (p : Progress) :
    ((activity env levels).round task p).2.board.now = p.board.now :=
  Steps.keeps (P := fun _ q => q.board.now = p.board.now)
    (fun step same => step.now_eq.trans same) (steps_round env levels task p) rfl

/-- Whether lookups may have been given up by some moment: the task will fail, and with the round
    that is going on if no failure has to wait. -/
def Lost (env : Environment) (levels : Nat) (first m : Activity.Moment Task) : Prop :=
  worth env first.state = none ∧ (Prompt env first.state → m.IsLast (activity env levels))

/-- The journals that a task may have at a moment of its course. -/
abbrev History (env : Environment) (levels : Nat) (first : Activity.Moment Task) :
    Activity.Moment Task → List Request → Prop :=
  Activity.History (activity env levels) (fun x y => Step env .main x.1 x.2 y.1 y.2) (sites .main)
    env.toEngine (Lost env levels first) first

section Histories

variable {levels lines : Nat} {first m m' : Activity.Moment Task}

theorem AtRest.round (atRest : AtRest env levels lines task p) :
    ((activity env levels).round task p).1.Unsettled ∧
      ((activity env levels).isOver ((activity env levels).round task p).1 = false →
        AtRest env levels lines ((activity env levels).round task p).1
          (((activity env levels).round task p).2.onRota Rota.ringLater)) := by
  rcases atRest with rested | ⟨rfl, -, some_level⟩
  · refine ⟨unsettled_visit rested.fits rested.unsettled.parts, fun going => ?_⟩
    have going : (Task.round env levels task p).1.outcome? = none := by
      have open' : ((Task.round env levels task p).1.outcome?).isSome = false := going
      simpa using open'
    exact .inl (rested.visited going)
  · obtain ⟨level, rfl⟩ := Nat.exists_eq_succ_of_ne_zero some_level
    exact ⟨.ended, nofun⟩

/-- What holds of a task at every moment of its course. -/
structure Proper (env : Environment) (levels lines : Nat) (first m : Activity.Moment Task) : Prop
    where
  atRest : m.Keeps (activity env levels) (AtRest env levels lines)
  unsettled : ∀ goal, m.goal = some goal → goal.1.Unsettled
  worth_eq : worth env m.state = worth env first.state
  prompt : Prompt env first.state → Prompt env m.state

theorem Proper.next (next : Activity.Next (activity env levels)
      (fun x y => Step env .main x.1 x.2 y.1 y.2) m m')
    (proper : Proper env levels lines first m) : Proper env levels lines first m' := by
  obtain ⟨atRest, unsettled, worth_eq, prompt⟩ := proper
  cases next with
  | @begin task p =>
      have atRest : AtRest env levels lines task p := atRest
      refine ⟨atRest.round.2, ?_, worth_eq, prompt⟩
      rintro _ ⟨⟩
      exact atRest.round.1
  | step here =>
      exact ⟨atRest, unsettled, here.worth_eq.trans worth_eq, fun first => here.prompt (prompt first)⟩
  | rest going => exact ⟨atRest going, nofun, worth_eq, prompt⟩
  | @clock task p time silent next =>
      have atRest : AtRest env levels lines task p := atRest
      refine ⟨?_, nofun, worth_eq, prompt⟩
      rcases atRest with rested | ⟨-, rang, -⟩
      · exact .inl (rested.advanced silent next).1
      · rw [rang] at silent
        cases silent

theorem Course.worth_eq (course : Course env levels m m') :
    worth env m'.state = worth env m.state := by
  refine course.keeps (I := fun m' => worth env m'.state = worth env m.state) ?_ rfl
  intro m' m'' next same
  cases next with
  | begin | rest | clock => exact same
  | step here => exact here.worth_eq.trans same

theorem Lost.next (next : Activity.Next (activity env levels)
      (fun x y => Step env .main x.1 x.2 y.1 y.2) m m')
    (lost : Lost env levels first m) : Lost env levels first m' :=
  ⟨lost.1, fun prompt => next.isLast (lost.2 prompt)⟩

/-- A prompt task that gives up a lookup is over with the round that is going on. -/
theorem Proper.lost_of_hopeless {q : Progress} {goal : Task × Progress}
    (proper : Proper env levels lines first ⟨task, p, some goal⟩)
    (ahead : Steps env .main (task', q) goal) (hopeless : Hopeless env task task') :
    Lost env levels first ⟨task', q, some goal⟩ := by
  refine ⟨proper.worth_eq.symm.trans hopeless.worth_eq, fun prompt => ⟨goal, rfl, ?_⟩⟩
  have failing : Failing goal.1 := ahead.keeps (P := fun task _ => Failing task)
    (fun step failing => step.failing failing) (hopeless.failing (proper.prompt prompt))
  obtain ⟨failure, same⟩ := failing.isOver (proper.unsettled goal rfl)
  change goal.1.isOver = true
  rw [same]
  rfl

theorem Proper.deals_of_next (next : Activity.Next (activity env levels)
      (fun x y => Step env .main x.1 x.2 y.1 y.2) m m')
    (proper : Proper env levels lines first m)
    (tells : Tells env.toEngine journal (m.state.sites .main)) :
    ∃ journal', Deals env.toEngine (Lost env levels first m') (journal, m.board)
        (journal', m'.board) ∧ Tells env.toEngine journal' (m'.state.sites .main) := by
  cases next with
  | begin | rest => exact ⟨journal, .refl, tells⟩
  | step here ahead => exact here.deals (proper.lost_of_hopeless ahead) tells
  | clock silent next =>
      rcases proper.atRest with rested | ⟨-, rang, -⟩
      · exact ⟨journal, .single (rested.deal_wait silent tells next), tells⟩
      · rw [rang] at silent
        cases silent

theorem exists_history (start : Proper env levels lines first first)
    (open' : Tells env.toEngine [] (first.state.sites .main))
    (history : History env levels first m journal) (course : Course env levels m m') :
    ∃ journal', History env levels first m' journal' ∧
      Deals env.toEngine True (journal, m.board) (journal', m'.board) :=
  Activity.exists_history (I := Proper env levels lines first) Proper.next
    (fun next proper tells => proper.deals_of_next next tells) start open' history course

end Histories

end Task

end AddressExpansion
