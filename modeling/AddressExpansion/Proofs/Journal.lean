import AddressExpansion.Proofs.Course
import AddressExpansion.Proofs.Requests
import AddressExpansion.Proofs.Task.Orderly

/-! # Journals of activities

A journal goes along with an activity in which lookups ask for lines. It tells of every lookup that
stands open, and from one moment to the next it changes by deals. Main statements: if whatever comes
next is deals, then there is a journal at every moment (`Activity.exists_history`), and a journal is
in order (`Activity.History.inOrder`).
-/

namespace AddressExpansion

/-- How a lookup that asked for a line and has not ended stands. -/
inductive Standing where
  | waiting (name : String) (ticket : Ticket)
  | calling (name : String) (ends : Nat)

/-- How a request stands that is not settled. -/
def Request.standing? (engine : Engine) (request : Request) : Option Standing :=
  match request.fate with
  | .waiting => request.ticket.map (.waiting request.name)
  | .calling start => some (.calling request.name (start + engine.duration request.name))
  | _ => none

/-- How the lookup at a site stands, if it asked for a line. -/
def Site.standing? : Site → Option Standing
  | .lookup bell _ name (.queued number) => some (.waiting name ⟨number, bell⟩)
  | .lookup _ _ name (.underway ends _) => some (.calling name ends)
  | _ => none

/-- Whether a journal tells of all that stands open at some sites, and of nothing else. -/
def Tells (engine : Engine) (journal : List Request) (sites : List Site) : Prop :=
  (journal.filterMap (Request.standing? engine)).Perm (sites.filterMap Site.standing?)

namespace Request

variable {engine : Engine} {request : Request} {name : String}

theorem exists_of_waiting {ticket : Ticket}
    (stands : request.standing? engine = some (.waiting name ticket)) :
    ∃ asked, request = ⟨name, asked, some ticket, .waiting⟩ := by
  obtain ⟨name', asked, ticket', fate⟩ := request
  cases fate with
  | waiting =>
      obtain ⟨ticket'', rfl, same⟩ := Option.map_eq_some_iff.mp stands
      obtain ⟨rfl, rfl⟩ := Standing.waiting.inj same
      exact ⟨asked, rfl⟩
  | calling start => cases Option.some.inj stands
  | ended | givenUp => cases stands

theorem exists_of_calling {ends : Nat}
    (stands : request.standing? engine = some (.calling name ends)) :
    ∃ asked ticket start, request = ⟨name, asked, ticket, .calling start⟩ ∧
      start + engine.duration name = ends := by
  obtain ⟨name', asked, ticket, fate⟩ := request
  cases fate with
  | waiting =>
      obtain ⟨_, -, same⟩ := Option.map_eq_some_iff.mp stands
      cases same
  | calling start =>
      obtain ⟨rfl, rfl⟩ := Standing.calling.inj (Option.some.inj stands)
      exact ⟨asked, ticket, start, rfl, rfl⟩
  | ended | givenUp => cases stands

end Request

theorem Site.exists_of_waiting {site : Site} {name : String} {ticket : Ticket}
    (stands : site.standing? = some (.waiting name ticket)) :
    ∃ scope, site = .lookup ticket.bell scope name (.queued ticket.number) := by
  match site with
  | lookup bell scope name (.queued number) =>
      obtain ⟨rfl, rfl⟩ := Standing.waiting.inj (Option.some.inj stands)
      exact ⟨scope, rfl⟩
  | lookup _ _ _ (.underway ..) => cases Option.some.inj stands
  | fresh .. | crowd .. | lookup _ _ _ .idle => cases stands

theorem Site.exists_of_calling {site : Site} {name : String} {ends : Nat}
    (stands : site.standing? = some (.calling name ends)) :
    ∃ bell scope alarm, site = .lookup bell scope name (.underway ends alarm) := by
  match site with
  | lookup bell scope name (.underway ends alarm) =>
      obtain ⟨rfl, rfl⟩ := Standing.calling.inj (Option.some.inj stands)
      exact ⟨bell, scope, alarm, rfl⟩
  | lookup _ _ _ (.queued _) => cases Option.some.inj stands
  | fresh .. | crowd .. | lookup _ _ _ .idle => cases stands

theorem Site.Unstarted.standing?_eq {bell : Bell} {site : Site} (unstarted : site.Unstarted bell) :
    site.standing? = none := by
  match site with
  | fresh .. | crowd .. | lookup _ _ _ .idle => rfl
  | lookup _ _ _ (.queued _) | lookup _ _ _ (.underway ..) => exact unstarted.elim

namespace Tells

variable {engine : Engine} {journal : List Request} {front old new back : List Site} {site : Site}
  {standing : Standing}

theorem congr_sites (tells : Tells engine journal (front ++ old ++ back))
    (same : old.filterMap Site.standing? = new.filterMap Site.standing?) :
    Tells engine journal (front ++ new ++ back) := by
  unfold Tells at tells ⊢
  simpa only [List.filterMap_append, same] using tells

theorem congr_unstarted (tells : Tells engine journal (front ++ old ++ back))
    (before : ∀ site ∈ old, site.standing? = none) (after : ∀ site ∈ new, site.standing? = none) :
    Tells engine journal (front ++ new ++ back) :=
  tells.congr_sites (by
    rw [List.filterMap_eq_nil_iff.mpr before, List.filterMap_eq_nil_iff.mpr after])

theorem ask {site' : Site} {request : Request}
    (tells : Tells engine journal (front ++ [site] ++ back))
    (before : site.standing? = none) (stands : request.standing? engine = some standing)
    (after : site'.standing? = some standing) :
    Tells engine (journal ++ [request]) (front ++ [site'] ++ back) := by
  unfold Tells at tells ⊢
  simp only [List.filterMap_append, List.filterMap_cons, List.filterMap_nil, before, stands, after,
    List.append_nil] at tells ⊢
  rw [List.append_assoc, List.singleton_append]
  exact ((List.perm_append_singleton _ _).trans (tells.cons _)).trans List.perm_middle.symm

/-- What stands open at a site is in the journal, and what became of it may be written there. -/
theorem settle (tells : Tells engine journal (front ++ [site] ++ back))
    (stands : site.standing? = some standing) :
    ∃ before request after, journal = before ++ request :: after ∧
      request.standing? engine = some standing ∧
      ∀ (request' : Request) (new : List Site),
        (request'.standing? engine).toList = new.filterMap Site.standing? →
          Tells engine (before ++ request' :: after) (front ++ new ++ back) := by
  unfold Tells at tells
  simp only [List.filterMap_append, List.filterMap_cons, List.filterMap_nil, stands] at tells
  have member : standing ∈ journal.filterMap (Request.standing? engine) :=
    tells.mem_iff.mpr (by simp)
  obtain ⟨request, member, same⟩ := List.mem_filterMap.mp member
  obtain ⟨before, after, rfl⟩ := List.append_of_mem member
  refine ⟨before, request, after, rfl, same, fun request' new open' => ?_⟩
  simp only [List.filterMap_append, List.filterMap_cons, same] at tells
  -- What stands open elsewhere is the same on both sides, though in another order.
  have others : (before.filterMap (Request.standing? engine) ++
      after.filterMap (Request.standing? engine)).Perm
        (front.filterMap Site.standing? ++ back.filterMap Site.standing?) := by
    rw [List.append_assoc, List.singleton_append] at tells
    exact ((List.perm_middle.symm.trans tells).trans List.perm_middle).cons_inv
  have written : ((before ++ request' :: after).filterMap (Request.standing? engine)).Perm
      ((request'.standing? engine).toList ++ (before.filterMap (Request.standing? engine) ++
        after.filterMap (Request.standing? engine))) := by
    refine (List.perm_middle.filterMap _).trans (.of_eq ?_)
    cases open' : request'.standing? engine <;> simp [open', List.filterMap_append]
  refine written.trans ((others.append_left _).trans ?_)
  rw [open', List.filterMap_append, List.filterMap_append, ← List.append_assoc]
  exact List.perm_append_comm.append_right _

section Among

variable {sites : List Site} (tells : Tells engine journal sites) {request : Request} {bell : Bell}
  {scope : Scope} {name : String} {ends : Nat} {alarm : Option Nat}
include tells

theorem site_of_calling (member : request ∈ journal) {start : Nat}
    (calling : request.fate = .calling start) :
    ∃ bell scope alarm, .lookup bell scope request.name
      (.underway (start + engine.duration request.name) alarm) ∈ sites := by
  have stands : request.standing? engine =
      some (.calling request.name (start + engine.duration request.name)) := by
    unfold Request.standing?
    rw [calling]
  obtain ⟨site, there, same⟩ :=
    List.mem_filterMap.mp (tells.mem_iff.mp (List.mem_filterMap.mpr ⟨request, member, stands⟩))
  obtain ⟨bell, scope, alarm, rfl⟩ := Site.exists_of_calling same
  exact ⟨bell, scope, alarm, there⟩

theorem site_of_waiting (member : request ∈ journal) {ticket : Ticket}
    (queued : request.queued? = some ticket) :
    ∃ scope, .lookup ticket.bell scope request.name (.queued ticket.number) ∈ sites := by
  obtain ⟨waits, drawn⟩ := Request.fate_of_queued? queued
  have stands : request.standing? engine = some (.waiting request.name ticket) := by
    unfold Request.standing?
    rw [waits, drawn]
    rfl
  obtain ⟨site, there, same⟩ :=
    List.mem_filterMap.mp (tells.mem_iff.mp (List.mem_filterMap.mpr ⟨request, member, stands⟩))
  obtain ⟨scope, rfl⟩ := Site.exists_of_waiting same
  exact ⟨scope, there⟩

theorem exists_calling (there : .lookup bell scope name (.underway ends alarm) ∈ sites) :
    ∃ asked ticket start, ⟨name, asked, ticket, .calling start⟩ ∈ journal ∧
      start + engine.duration name = ends := by
  obtain ⟨request, member, stands⟩ :=
    List.mem_filterMap.mp (tells.mem_iff.mpr (List.mem_filterMap.mpr ⟨_, there, rfl⟩))
  obtain ⟨asked, ticket, start, rfl, same⟩ := Request.exists_of_calling stands
  exact ⟨asked, ticket, start, member, same⟩

end Among

end Tells

namespace Task

variable {env : Environment} {lost : Prop} {front old new back : List Site} {p p' : Progress}
  {journal : List Request}

/-- What a change of some sites does to the switchboard is a sequence of deals. -/
theorem Change.deals (change : Change env old p new p')
    (tells : Tells env.toEngine journal (front ++ old ++ back)) :
    ∃ journal', Deals env.toEngine lost (journal, p.board) (journal', p'.board) ∧
      Tells env.toEngine journal' (front ++ new ++ back) := by
  have idle : ∀ {bell : Bell} {task : Task},
      (∀ site ∈ task.sites bell, site.Unstarted bell) →
        ∀ site ∈ task.sites bell, site.standing? = none :=
    fun unstarted site member => (unstarted site member).standing?_eq
  cases change with
  | remark messages => exact ⟨journal, by rw [Progress.sayAll_board]; exact .refl, tells⟩
  | spend | putOff | roster | ring => exact ⟨journal, .refl, tells⟩
  | unfold unfolds =>
      exact ⟨journal, .refl,
        tells.congr_unstarted (by simp [Site.standing?]) (idle unfolds.unstarted)⟩
  | openCrowd many =>
      refine ⟨journal, .refl, tells.congr_unstarted (by simp [Site.standing?]) fun site member => ?_⟩
      rcases List.mem_cons.mp member with rfl | member
      · rfl
      · obtain ⟨i, item, -, rfl⟩ := Wired.mem_fresh_sitesOfCrowd member
        rfl
  | @draw bell scope name _ busy => exact ⟨_, .single (.draw name bell busy), tells.ask rfl rfl rfl⟩
  | @take bell scope name _ free => exact ⟨_, .single (.take name free), tells.ask rfl rfl rfl⟩
  | setAlarm early => exact ⟨journal, .single (.setAlarm _), tells.congr_sites rfl⟩
  | claim served =>
      obtain ⟨before, request, after, rfl, stands, write⟩ := tells.settle rfl
      obtain ⟨asked, rfl⟩ := Request.exists_of_waiting stands
      exact ⟨_, .single (.claim served), write _ _ rfl⟩
  | @hangUp bell scope name ends alarm _ due =>
      obtain ⟨before, request, after, rfl, stands, write⟩ := tells.settle rfl
      obtain ⟨asked, ticket, start, rfl, rfl⟩ := Request.exists_of_calling stands
      refine ⟨_, .single (.hangUp due), write _ _ ?_⟩
      exact (List.filterMap_eq_nil_iff.mpr (idle answered_unstarted)).symm

end Task

/-! ## Histories -/

namespace Activity

variable {α : Type} {activity : Activity α} {step : α × Progress → α × Progress → Prop}
  {sites : α → List Site} {engine : Engine} {lost : Moment α → Prop} {lines : Nat}
  {first m m' : Moment α} {journal : List Request}

/-- The journals that an activity may have at a moment of its course: from one moment to the next
    there are deals, and what stands open in the journal is what stands open at the sites. Requests
    that have not ended are given up only on the way to a moment at which all is `lost`. -/
inductive History (activity : Activity α) (step : α × Progress → α × Progress → Prop)
    (sites : α → List Site) (engine : Engine) (lost : Moment α → Prop) (first : Moment α) :
    Moment α → List Request → Prop
  | start : History activity step sites engine lost first first []
  | next {m m' journal journal'} (history : History activity step sites engine lost first m journal)
      (next : Next activity step m m')
      (deals : Deals engine (lost m') (journal, m.board) (journal', m'.board))
      (tells : Tells engine journal' (sites m'.state)) :
      History activity step sites engine lost first m' journal'

/-- What holds of the requests that were made by some moment. While nothing can go on, a request
    waits only if every line is in use, and calls are waited for that have not ended. -/
structure Moment.InOrder (m : Moment α) (engine : Engine) (lines : Nat) (lost : Prop)
    (requests : List Request) : Prop where
  lawful : Lawful engine lines requests m.board
  busy : m.Silent → (∃ request ∈ requests, request.fate = .waiting) → m.board.inFlight = lines
  awaited : m.Silent → ∀ request ∈ requests, ∀ start, request.fate = .calling start →
    m.board.now < start + engine.duration request.name
  givenUp : (∃ request ∈ requests, ∃ start, request.fate = .givenUp start) → lost

theorem Moment.InOrder.imp {lost lost' : Prop} (inOrder : m.InOrder engine lines lost journal)
    (imp : lost → lost') : m.InOrder engine lines lost' journal :=
  ⟨inOrder.lawful, inOrder.busy, inOrder.awaited, imp ∘ inOrder.givenUp⟩

namespace History

variable (history : History activity step sites engine lost first m journal)
include history

theorem course : Course activity step first m := by
  induction history with
  | start => exact .refl
  | next _ next _ _ ih => exact .tail ih next

theorem tells (start : Tells engine [] (sites first.state)) :
    Tells engine journal (sites m.state) := by
  cases history with
  | start => exact start
  | next _ _ _ tells => exact tells

theorem deals : Deals engine True ([], first.board) (journal, m.board) := by
  induction history with
  | start => exact .refl
  | next _ _ deals _ ih => exact ih.trans (deals.imp fun _ => trivial)

/-- Requests are given up only if all is lost, if what is lost remains so. -/
theorem lost_of_givenUp
    (remains : ∀ {m m' : Moment α}, Next activity step m m' → lost m → lost m')
    (givenUp : ∃ request ∈ journal, ∃ start, request.fate = .givenUp start) : lost m := by
  obtain ⟨request, member, start, fate⟩ := givenUp
  by_contra spared
  have kept : ∀ request ∈ journal, ∀ start, request.fate ≠ .givenUp start := by
    clear member
    induction history with
    | start => exact nofun
    | next _ next deals _ ih => exact deals.spares spared (ih fun lost => spared (remains next lost))
  exact kept request member start fate

end History

/-- If whatever comes next is deals, then there is a journal at every moment of the course. -/
theorem exists_history {I : Moment α → Prop}
    (keeps : ∀ {m m'}, Next activity step m m' → I m → I m')
    (dealing : ∀ {m m' journal}, Next activity step m m' → I m →
      Tells engine journal (sites m.state) →
      ∃ journal', Deals engine (lost m') (journal, m.board) (journal', m'.board) ∧
        Tells engine journal' (sites m'.state))
    (start : I first) (open' : Tells engine [] (sites first.state))
    (history : History activity step sites engine lost first m journal)
    (course : Course activity step m m') :
    ∃ journal', History activity step sites engine lost first m' journal' ∧
      Deals engine True (journal, m.board) (journal', m'.board) := by
  induction course with
  | refl => exact ⟨journal, history, .refl⟩
  | tail _ next ih =>
      obtain ⟨between, history, before⟩ := ih
      obtain ⟨journal', deals, tells⟩ :=
        dealing next (history.course.keeps keeps start) (history.tells open')
      exact ⟨journal', .next history next deals tells,
        before.trans (deals.imp fun _ => trivial)⟩

end Activity

end AddressExpansion
