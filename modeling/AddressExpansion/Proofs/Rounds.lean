import AddressExpansion.Proofs.Course
import AddressExpansion.Proofs.Task.Calm
import AddressExpansion.Proofs.Task.Restless

/-! # Rounds come to an end

Between rounds nothing is forgotten: whatever can go on has rung. So while anything is left to be
done, the main bell rang or an alarm is set (`exists_alarm`). Each turn lowers what is left to be
done, or makes the rosters calmer, or moves the clock to where something can go on. So with enough
turns an activity ends, or is cancelled (`drive_halts`).
-/

namespace AddressExpansion

open Site

variable {lines : Nat} {sites : List Site} {p p' : Progress}

/-! ## Many rings -/

theorem ringAll_spec {plan : Nat → Bell} (bells : List Bell) (wired : Wired plan sites p.rota)
    (placed : ∀ bell ∈ bells, bell.Placed plan p.rota.rosters.size) :
    Wired plan sites (p.ringAll bells).rota ∧ Frame sites p (p.ringAll bells) ∧
      (p.ringAll bells).rota.later = p.rota.later ∧
        ∀ bell ∈ bells, (p.ringAll bells).rota.HasRung bell := by
  have rung : ∀ (bells : List Bell) {rota : Rota} {bell : Bell}, rota.HasRung bell →
      (bells.foldl Rota.ring rota).HasRung bell := by
    intro bells
    induction bells with
    | nil => exact id
    | cons _ _ ih => exact fun rung => ih rung.ring
  induction bells generalizing p with
  | nil => exact ⟨wired, .refl, rfl, nofun⟩
  | cons bell bells ih =>
      have here := placed bell List.mem_cons_self
      have others : ∀ other ∈ bells,
          other.Placed plan (p.onRota (·.ring bell)).rota.rosters.size := fun other member => by
        simpa using placed other (List.mem_cons_of_mem _ member)
      obtain ⟨wired', frame, later, heard⟩ := ih (wired.ring bell) others
      have first : Frame sites p (p.onRota (·.ring bell)) := .ring wired (fun _ => id) here
      refine ⟨wired', first.trans frame, later.trans (by simp), fun other member => ?_⟩
      rcases List.mem_cons.mp member with rfl | member
      · exact rung bells (Rota.hasRung_ring here)
      · exact heard other member

namespace Task

/-- What holds of a task between rounds while it is not over. -/
structure Rested (env : Environment) (levels lines : Nat) (task : Task) (p : Progress) : Prop where
  orderly : Orderly lines (task.sites .main) p
  calm : Calm .main task p
  later : p.rota.later = []
  unsettled : task.Unsettled
  going : task.outcome? = none
  fits : task.Fits env levels

variable {env : Environment} {levels lines : Nat} {task task' : Task} {p p' : Progress}

theorem rang_of_hasRung (calm : Calm .main task p) {site : Site} (member : site ∈ task.sites .main)
    (rung : p.rota.HasRung site.bell) : p.rota.rang := by
  generalize same : site.bell = bell at rung
  induction bell generalizing site with
  | main => exact rung
  | part id index outer ih =>
      rcases (bell_of_mem_sites member).2 with top | ⟨id', index', outer', stands, around⟩
      · rw [same] at top
        cases top
      · obtain ⟨rfl, rfl, rfl⟩ := Bell.part.inj (same.symm.trans stands)
        rcases (calm _ around).rests outer id rfl with ⟨r, found, quiet, -⟩ | rang
        · obtain ⟨r', found', rung⟩ := Rota.isRung_iff.mp rung
          obtain rfl := Option.some.inj (found.symm.trans found')
          rw [quiet] at rung
          cases rung
        · exact ih around rfl rang

namespace Rested

variable (rested : Rested env levels lines task p)
include rested

/-- Where something can go on, the main bell rang. -/
theorem rang_of_canGoOn {site : Site} (member : site ∈ task.sites .main)
    (canGoOn : site.CanGoOn p) : p.rota.rang := by
  rcases (rested.calm site member).noted canGoOn with rung | later
  · exact rang_of_hasRung rested.calm member rung
  · rw [rested.later] at later
    cases later

theorem stuck (silent : p.rota.rang = false) {site : Site} (member : site ∈ task.sites .main) :
    ¬ site.CanGoOn p := by
  intro canGoOn
  rw [rested.rang_of_canGoOn member canGoOn] at silent
  cases silent

/-- While nothing can go on, every ticket that got a line has used it. -/
theorem unserved (silent : p.rota.rang = false) : p.board.served = [] := by
  refine List.eq_nil_iff_forall_not_mem.mpr fun number served => ?_
  have drawn := rested.orderly.ledger.tickets.mem_iff.mp (List.mem_append_right _ served)
  obtain ⟨ticket, queued, rfl⟩ := List.mem_map.mp drawn
  obtain ⟨site, there, same⟩ := List.mem_filterMap.mp queued
  match site with
  | .lookup _ _ _ (.queued _) =>
      obtain rfl := Option.some.inj same
      exact rested.stuck silent there (.served served)

/-- While nothing can go on, a lookup waits for a line only if every line is in use. -/
theorem lines_busy (silent : p.rota.rang = false) {bell : Bell} {scope : Scope} {name : String}
    {number : Nat} (member : .lookup bell scope name (.queued number) ∈ task.sites .main) :
    p.board.inFlight = lines := by
  have ledger := rested.orderly.ledger
  have unserved := rested.unserved silent
  have queued : (⟨number, bell⟩ : Ticket) ∈ queueOf (task.sites .main) :=
    List.mem_filterMap.mpr ⟨_, member, rfl⟩
  have waits : (⟨number, bell⟩ : Ticket) ∈ p.board.waiting := by
    refine (ledger.mem_waiting_or_served queued).resolve_right fun served => ?_
    rw [unserved] at served
    cases served
  have busy : p.board.free = 0 := by
    by_contra free
    rw [ledger.noIdle free] at waits
    cases waits
  have counts := ledger.lines_eq
  rwa [busy, unserved, List.length_nil, Nat.zero_add] at counts

/-- While nothing can go on, the end of every call that is under way is waited for. -/
theorem alarmed (silent : p.rota.rang = false) {bell : Bell} {scope : Scope} {name : String}
    {ends : Nat} {alarm : Option Nat}
    (member : .lookup bell scope name (.underway ends alarm) ∈ task.sites .main) :
    p.board.now < ends ∧ ∃ number, alarm = some number := by
  constructor
  · exact Nat.lt_of_not_le fun due => rested.stuck silent member (.due due)
  · cases alarm with
    | none => exact absurd .unset (rested.stuck silent member)
    | some number => exact ⟨number, rfl⟩

private theorem exists_underway (some_line : 0 < lines) (silent : p.rota.rang = false) :
    ∃ bell scope name ends number,
      .lookup bell scope name (.underway ends (some number)) ∈ task.sites .main := by
  have alarmed : ∀ {bell scope name ends alarm},
      .lookup bell scope name (.underway ends alarm) ∈ task.sites .main →
        ∃ bell scope name ends number,
          .lookup bell scope name (.underway ends (some number)) ∈ task.sites .main := by
    intro bell scope name ends alarm member
    obtain ⟨-, number, rfl⟩ := rested.alarmed silent member
    exact ⟨_, _, _, _, _, member⟩
  obtain ⟨site, member, leaf⟩ := rested.unsettled.exists_site rested.going .main
  match site with
  | .crowd .. => cases leaf
  | .fresh .. => exact absurd .fresh (rested.stuck silent member)
  | .lookup _ _ _ .idle => exact absurd .idle (rested.stuck silent member)
  | .lookup _ _ _ (.underway ..) => exact alarmed member
  | .lookup bell scope name (.queued number) =>
      have calls := rested.orderly.ledger.inFlight_eq
      rw [rested.lines_busy silent member] at calls
      have some_call : 0 < underwayOf (task.sites .main) := calls ▸ some_line
      obtain ⟨site, there, calls⟩ := List.countP_pos_iff.mp some_call
      match site with
      | .lookup _ _ _ (.underway ..) => exact alarmed there

theorem exists_alarm (some_line : 0 < lines) (silent : p.rota.rang = false) :
    ∃ time, Alarm.nextTime? (task.alarms .main) = some time := by
  obtain ⟨bell, scope, name, ends, number, member⟩ := rested.exists_underway some_line silent
  have set : (⟨ends, number, bell⟩ : Alarm) ∈ task.alarms .main := by
    rw [alarms_eq_flatMap]
    exact List.mem_flatMap.mpr ⟨_, member, List.mem_singleton_self _⟩
  unfold Alarm.nextTime?
  refine Option.ne_none_iff_exists'.mp fun none => ?_
  rw [List.min?_eq_none_iff, List.map_eq_nil_iff] at none
  rw [none] at set
  cases set

end Rested

/-! ## Turns -/

theorem situated_alone :
    Situated lines [] [] .main task p ↔ Orderly lines (task.sites .main) p := by
  constructor
  · intro situated
    simpa using situated.orderly
  · intro orderly
    exact ⟨by simpa using orderly, nofun⟩

theorem mem_alarms {bell : Bell} {alarm : Alarm} :
    alarm ∈ task.alarms bell ↔ ∃ scope name,
      .lookup alarm.bell scope name (.underway alarm.time (some alarm.number)) ∈
        task.sites bell := by
  rw [alarms_eq_flatMap, List.mem_flatMap]
  constructor
  · rintro ⟨site, member, set⟩
    match site with
    | .lookup bell scope name (.underway ends (some number)) =>
        obtain rfl := List.mem_singleton.mp set
        exact ⟨scope, name, member⟩
  · rintro ⟨scope, name, member⟩
    exact ⟨_, member, List.mem_singleton_self _⟩

/-- What a round does to a task if nothing is forgotten in it, and whatever can be done is done. -/
structure Passes (env : Environment) (lines : Nat) (task : Task) (p : Progress) (task' : Task)
    (q : Progress) : Prop where
  steps : Steps env .main (task, p.begun) (task', q)
  calms : Calms lines .main task p.begun task' q
  advances : Advances env lines .main task p.begun task' q

/-- What a round of visits takes a task to. -/
def round (env : Environment) (levels : Nat) (task : Task) (p : Progress) : Task × Progress :=
  (visit env levels .main task).run p.begun

namespace Rested

theorem begun (rested : Rested env levels lines task p) :
    Situated lines [] [] .main task p.begun ∧ Alert .main task p.begun := by
  obtain ⟨ledger, plan, wired⟩ := rested.orderly
  refine ⟨situated_alone.mpr ⟨ledger, plan, wired.placed, wired.later, wired.crowds, wired.nodup,
    wired.rosters⟩, fun site member => ?_⟩
  obtain ⟨noted, rests⟩ := rested.calm site member
  by_cases main : site.bell = .main
  · exact .inl main
  · have kept : p.rota.HasRung site.bell → p.begun.rota.HasRung site.bell := by
      cases bell : site.bell with
      | main => exact absurd bell main
      | part => exact id
    refine .inr ⟨fun canGoOn => ?_, ?_⟩
    · exact (noted (canGoOn.congr rfl)).imp_left kept
    · rintro bell id rfl
      exact (rests bell id rfl).imp_right kept

theorem passed (rested : Rested env levels lines task p) {q : Progress}
    (passes : Passes env lines task p task' q) (unsettled : task'.Unsettled)
    (going : task'.outcome? = none) : Rested env levels lines task' (q.onRota Rota.ringLater) := by
  obtain ⟨situated, alert⟩ := rested.begun
  obtain ⟨steps, calms, -⟩ := passes
  have calm := calms _ _ situated alert
  have orderly := situated_alone.mp (situated.steps (x := (task, p.begun)) (y := (task', q)) steps).1
  have fits : task'.Fits env levels :=
    steps.keeps (P := fun task _ => task.Fits env levels) (fun step => step.fits) rested.fits
  obtain ⟨ledger, plan, wired⟩ := orderly
  have emptied : Wired plan (task'.sites .main) (q.onRota ({ · with later := [] })).rota :=
    ⟨wired.placed, nofun, wired.crowds, wired.nodup, wired.rosters⟩
  obtain ⟨wired', frame, later, heard⟩ := ringAll_spec q.rota.later emptied wired.later
  have same : q.onRota Rota.ringLater =
      (q.onRota ({ · with later := [] })).ringAll q.rota.later := rfl
  rw [same]
  refine ⟨⟨ledger, plan, wired'⟩, fun site member => ?_, later, unsettled, going, fits⟩
  have kept : q.rota.HasRung site.bell →
      ((q.onRota ({ · with later := [] })).ringAll q.rota.later).rota.HasRung site.bell := by
    intro rung
    refine frame.rung site member ?_
    cases bell : site.bell <;> rw [bell] at rung <;> exact rung
  obtain ⟨noted, rests⟩ := calm site member
  refine ⟨fun canGoOn => .inl ?_, ?_⟩
  · exact (noted (canGoOn.congr rfl)).elim kept (heard _)
  · rintro bell id rfl
    rcases rests bell id rfl with ⟨r, found, quiet, armed⟩ | rung
    · refine (frame.passed bell id member ⟨r, found, armed⟩).imp_left fun same => ?_
      exact ⟨r, same.trans found, quiet, armed⟩
    · exact .inr (kept rung)

/-- In a round of visits nothing is forgotten. -/
theorem passes_round (rested : Rested env levels lines task p) :
    Passes env lines task p (round env levels task p).1 (round env levels task p).2 where
  steps := steps_visit env levels .main task p.begun
  calms := calm_visit rested.fits
  advances := advance_visit rested.fits

theorem visited (rested : Rested env levels lines task p)
    (going : (round env levels task p).1.outcome? = none) :
    Rested env levels lines (round env levels task p).1
      ((round env levels task p).2.onRota Rota.ringLater) :=
  rested.passed rested.passes_round (unsettled_visit rested.fits rested.unsettled.parts) going

/-- When nothing can go on, the clock moves to where something can. -/
theorem advanced (rested : Rested env levels lines task p) (silent : p.rota.rang = false)
    {time : Nat} (next : Alarm.nextTime? (task.alarms .main) = some time) :
    Rested env levels lines task (p.advancedTo time (task.alarms .main)) ∧
      ∃ site ∈ task.sites .main, site.CanGoOn (p.advancedTo time (task.alarms .main)) := by
  obtain ⟨ledger, plan, wired⟩ := rested.orderly
  have wired : Wired plan (task.sites .main) (p.onBoard (·.atTime time)).rota := wired
  obtain ⟨wired', frame, later, heard⟩ := ringAll_spec
    ((Alarm.dueAt time (task.alarms .main)).map Alarm.bell) wired fun bell member => by
      obtain ⟨alarm, due, rfl⟩ := List.mem_map.mp member
      obtain ⟨scope, name, there⟩ := mem_alarms.mp (Alarm.mem_dueAt.mp due).1
      exact wired.placed _ there
  constructor
  · refine ⟨⟨ledger.atTime time, plan, wired'⟩, fun site member => ⟨fun canGoOn => .inl ?_, ?_⟩,
      later.trans rested.later, rested.unsettled, rested.going, rested.fits⟩
    · cases canGoOn with
      | fresh => exact absurd .fresh (rested.stuck silent member)
      | idle => exact absurd .idle (rested.stuck silent member)
      | served served => exact absurd (.served served) (rested.stuck silent member)
      | unset => exact absurd .unset (rested.stuck silent member)
      | @due bell scope name ends alarm due =>
          cases alarm with
          | none => exact absurd .unset (rested.stuck silent member)
          | some number =>
              have set : (⟨ends, number, bell⟩ : Alarm) ∈ task.alarms .main :=
                mem_alarms.mpr ⟨scope, name, member⟩
              exact heard bell (List.mem_map_of_mem (f := Alarm.bell)
                (Alarm.mem_dueAt.mpr ⟨set, due⟩))
    · rintro bell id rfl
      rcases (rested.calm _ member).rests bell id rfl with ⟨r, found, quiet, armed⟩ | rung
      · refine (frame.passed bell id member ⟨r, found, armed⟩).imp_left fun same => ?_
        exact ⟨r, same.trans found, quiet, armed⟩
      · exact .inr (frame.rung _ member rung)
  · obtain ⟨alarm, set, same⟩ := List.mem_map.mp (List.min?_mem next)
    obtain ⟨scope, name, member⟩ := mem_alarms.mp set
    exact ⟨_, member, .due (Nat.le_of_eq same)⟩

end Rested

/-! ## Runs of turns -/

/-- How many turns may pass before less is left to be done, given how restless a task can be. -/
inductive Patience (bound : Nat) (task : Task) (p : Progress) : Nat → Prop
  /-- Something can go on, and will be visited. -/
  | due {site turns} (member : site ∈ task.sites .main) (canGoOn : site.CanGoOn p)
      (calmer : restlessness p.rota task ≤ turns) : Patience bound task p turns
  /-- The clock moves next. -/
  | silent (silent : p.rota.rang = false) : Patience bound task p (bound + 1)
  | restless {turns} (calmer : restlessness p.rota task ≤ turns) :
      Patience bound task p (bound + 2 + turns)

theorem Rested.restlessness_le (rested : Rested env levels lines task p) :
    restlessness p.rota task ≤ 2 ^ levels * loadOf env (task.sites .main) := by
  obtain ⟨plan, wired⟩ := rested.orderly.wired
  have nodup : ∀ id, (p.rota.rungOn id).Nodup := by
    intro id
    unfold Rota.rungOn
    split
    · exact List.nodup_nil
    · next r found => exact wired.rosters r (Array.mem_of_getElem? found)
  have bounded := Task.restlessness_le .main rested.fits rested.unsettled nodup
  omega

/-- What happens between visits: the clock moves, bells ring, and the allowance is whole again. -/
structure Between (p p' : Progress) : Prop where
  board : ∃ time, p'.board = p.board.atTime time
  log : p'.log = p.log

/-- Steps of a task, and what happens between visits. -/
def Turns (env : Environment) : Task × Progress → Task × Progress → Prop :=
  Relation.ReflTransGen fun x y => Step env .main x.1 x.2 y.1 y.2 ∨ y.1 = x.1 ∧ Between x.2 y.2

variable {x y : Task × Progress}

theorem Turns.of_steps (steps : Steps env .main x y) : Turns env x y :=
  Relation.ReflTransGen.mono (fun _ _ => .inl) _ _ steps

theorem Turns.of_between (between : Between p p') : Turns env (task, p) (task, p') :=
  Relation.ReflTransGen.single (.inr ⟨rfl, between⟩)

/-- What every step keeps, and what does not depend on the clock, is kept by turns. -/
theorem Turns.keeps {P : Task → Progress → Prop} (turns : Turns env x y)
    (step : ∀ {task task' p p'}, Step env .main task p task' p' → P task p → P task' p')
    (between : ∀ {task p p'}, Between p p' → P task p → P task p') (start : P x.1 x.2) :
    P y.1 y.2 := by
  induction turns with
  | refl => exact start
  | tail _ last ih =>
      rcases last with last | ⟨same, last⟩
      · exact step last ih
      · exact same ▸ between last ih

theorem steps_round (env : Environment) (levels : Nat) (task : Task) (p : Progress) :
    Relation.ReflTransGen (fun x y => Step env .main x.1 x.2 y.1 y.2) (task, p.begun)
      ((activity env levels).round task p) :=
  steps_visit env levels .main task p.begun

theorem Turns.of_next {m m' : Activity.Moment Task}
    (next : Activity.Next (activity env levels) (fun x y => Step env .main x.1 x.2 y.1 y.2) m m') :
    Turns env (m.state, m.progress) (m'.state, m'.progress) := by
  cases next with
  | @begin _ p => exact .of_between ⟨⟨p.board.now, rfl⟩, rfl⟩
  | step here => exact .of_steps (.single here)
  | @rest _ p => exact .of_between ⟨⟨p.board.now, rfl⟩, rfl⟩
  | @clock _ _ time => exact .of_between ⟨⟨time, rfl⟩, rfl⟩

theorem turns_drive (env : Environment) (levels : Nat) (cancelAt : Option Nat) (turns : Nat)
    (task : Task) (p : Progress) :
    Turns env (task, p) ((((activity env levels).drive cancelAt turns task).run p).1.2,
      (((activity env levels).drive cancelAt turns task).run p).2) := by
  obtain ⟨goal, course⟩ := Activity.course_drive (steps_round env levels) cancelAt turns task p
  exact Relation.ReflTransGen.lift' (fun m : Activity.Moment Task => (m.state, m.progress))
    (fun _ _ => Turns.of_next) _ _ course

/-- A round lowers what is left to be done, or uses up some patience. -/
private theorem Rested.patience {bound patience : Nat} {q : Progress}
    (rested : Rested env levels lines task p) (rings : p.rota.rang = true)
    (passes : Passes env lines task p task' q)
    (rested' : Rested env levels lines task' (q.onRota Rota.ringLater))
    (patient : Patience bound task p patience) :
    loadOf env (task'.sites .main) < loadOf env (task.sites .main) ∨
      task' = task ∧ ∃ left, left < patience ∧
        Patience bound task (q.onRota Rota.ringLater) left := by
  obtain ⟨situated, -⟩ := rested.begun
  refine (passes.advances.2 _ _ situated rested.unsettled (Nat.succ_ne_zero _)).imp_right ?_
  rintro ⟨rfl, board, -, rang, stirred, calmer⟩
  refine ⟨rfl, ?_⟩
  change q.board = p.board at board
  change Rota.Agree _ _ q.rota at stirred
  have quiet : q.rota.later = [] := by
    rw [stirred.later]
    split
    · exact (Rota.later_ring).trans rested.later
    · exact rested.later
  have rota : (q.onRota Rota.ringLater).rota = q.rota := by
    simp only [Progress.onRota_rota, Rota.ringLater, quiet, List.foldl_nil]
    rw [← quiet]
  have started : restlessness p.begun.rota task' = restlessness p.rota task' :=
    restlessness_congr .main fun _ _ => rfl
  have rang_eq : q.rota.rang = rang := by
    rw [stirred.rang]
    cases rang <;> rfl
  rw [started, ← rota] at calmer
  rw [← rota] at rang_eq
  cases patient with
  | @due site _ member canGoOn soon =>
      have canGoOn' : site.CanGoOn (q.onRota Rota.ringLater) := canGoOn.congr board
      rw [rested'.rang_of_canGoOn member canGoOn'] at rang_eq
      subst rang_eq
      simp only [Bool.toNat_true] at calmer
      exact ⟨_, by omega, .due member canGoOn' (Nat.le_refl _)⟩
  | silent silent =>
      rw [silent] at rings
      cases rings
  | restless soon =>
      cases rang with
      | false => exact ⟨_, by omega, .silent rang_eq⟩
      | true =>
          simp only [Bool.toNat_true] at calmer
          exact ⟨_, by omega, .restless (Nat.le_refl _)⟩

end Task

/-! ## Activities that go on as tasks do -/

namespace Activity

open AddressExpansion.Task (Rested Passes Patience loadOf sites)

variable {α : Type} {env : Environment} {levels : Nat} {cancelAt : Option Nat} {turns : Nat}

/-- Whether turns have come to an end that they should come to. -/
def Halts (activity : Activity α) (cancelAt : Option Nat) (result : (Halt × α) × Progress) : Prop :=
  (result.1.1 = .ended ∧ activity.isOver result.1.2) ∨
    ∃ time, cancelAt = some time ∧ result.1.1 = .cancelled time

/-- Whether an activity is pictured by tasks: what `Rests` between its turns is pictured by a rested
    task, and stays so. -/
structure Pictured (env : Environment) (levels lines : Nat) (activity : Activity α)
    (picture : α → Task) (Rests : α → Progress → Prop) : Prop where
  rested : ∀ {x p}, Rests x p → Rested env levels lines (picture x) p
  alarms : ∀ x, activity.alarms x = (picture x).alarms .main
  passes : ∀ {x p}, Rests x p → activity.isOver (activity.round x p).1 = false →
    Passes env lines (picture x) p (picture (activity.round x p).1) (activity.round x p).2
  visited : ∀ {x p}, Rests x p → activity.isOver (activity.round x p).1 = false →
    Rests (activity.round x p).1 ((activity.round x p).2.onRota Rota.ringLater)
  advanced : ∀ {x p time}, Rests x p → p.rota.rang = false →
    Alarm.nextTime? (activity.alarms x) = some time →
      Rests x (p.advancedTo time (activity.alarms x))

theorem pictured_task (env : Environment) (levels lines : Nat) :
    Pictured env levels lines (Task.activity env levels) id (Rested env levels lines) where
  rested := id
  alarms := fun _ => rfl
  passes := fun rested _ => rested.passes_round
  visited := fun {task p} rested going => rested.visited <| by
    have going : ((Task.round env levels task p).1.outcome?).isSome = false := going
    simpa using going
  advanced := fun rested silent next => (rested.advanced silent next).1

/-- With enough turns an activity ends or is cancelled. -/
theorem Pictured.drive_halts {activity : Activity α} {picture : α → Task}
    {Rests : α → Progress → Prop} (pictured : Pictured env levels lines activity picture Rests)
    {bound patience : Nat} {x : α} {p : Progress} (some_line : 0 < lines) (rests : Rests x p)
    (bounded : 2 ^ levels * loadOf env ((picture x).sites .main) ≤ bound)
    (patient : Patience bound (picture x) p patience)
    (enough : loadOf env ((picture x).sites .main) * (2 * bound + 3) + patience < turns) :
    activity.Halts cancelAt ((activity.drive cancelAt turns x).run p) := by
  induction turns generalizing x p patience with
  | zero => cases enough
  | succ turns ih =>
      have rested := pictured.rested rests
      rw [run_drive]
      by_cases rang : p.rota.rang
      · rw [if_pos rang]
        by_cases finished : activity.isOver (activity.round x p).1
        · rw [if_pos finished]
          exact .inl ⟨rfl, finished⟩
        · rw [if_neg finished]
          have going : activity.isOver (activity.round x p).1 = false := by simpa using finished
          have rests' := pictured.visited rests going
          have rested' := pictured.rested rests'
          rcases rested.patience rang (pictured.passes rests going) rested' patient with
            less | ⟨same, left, fewer, patient'⟩
          · have low := Nat.mul_le_mul_left (2 ^ levels) (Nat.le_of_lt less)
            have lower := Nat.mul_le_mul_right (2 * bound + 3) (Nat.succ_le_of_lt less)
            rw [Nat.succ_mul] at lower
            have bounded' := Nat.le_trans low bounded
            exact ih rests' bounded' (.restless (Nat.le_trans rested'.restlessness_le bounded'))
              (by omega)
          · rw [← same] at bounded patient' enough
            exact ih rests' bounded patient' (by omega)
      · rw [if_neg rang]
        have silent : p.rota.rang = false := by simpa using rang
        obtain ⟨time, next⟩ := rested.exists_alarm some_line silent
        rw [← pictured.alarms] at next
        rw [next]
        cases cancelled : cancelledBy? cancelAt time with
        | some cancelTime =>
            simp only [cancelled]
            exact .inr ⟨cancelTime, (Option.filter_eq_some_iff.mp cancelled).1, rfl⟩
        | none =>
            simp only [cancelled]
            have rests' := pictured.advanced rests silent next
            have rested' := pictured.rested rests'
            rw [pictured.alarms] at next
            obtain ⟨-, site, member, canGoOn⟩ := rested.advanced silent next
            rw [← pictured.alarms] at canGoOn
            refine ih rests' bounded (.due member canGoOn rested'.restlessness_le) ?_
            cases patient with
            | due member canGoOn => exact absurd (rested.rang_of_canGoOn member canGoOn) rang
            | silent => omega
            | restless => omega

end Activity

end AddressExpansion
