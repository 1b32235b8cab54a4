import Mathlib.Algebra.Order.BigOperators.Group.List
import Mathlib.Algebra.Order.Group.Nat
import Mathlib.Algebra.Ring.Nat
import Mathlib.Logic.Relation
import AddressExpansion.Environment
import AddressExpansion.Proofs.Switchboard

/-! # Requests for lines

The history of a switchboard, as those see it who ask for lines. A journal lists all requests in
the order in which they were made, with what became of them. What the journal and the switchboard
go through together is a sequence of deals. Main statement: deals keep a journal in good order
(`Deals.conducted`), and then lines are conserved, calls are in time, and who asked first calls
first (`Conducted.lawful`). Nothing that was called is forgotten (`Deals.extends`), and time passes
only while a call is under way (`Deals.covered`).
-/

namespace AddressExpansion

def Engine.duration (engine : Engine) (name : String) : Nat :=
  (engine.answer name).duration engine.timeout

def Engine.outcome (engine : Engine) (name : String) : Except Reason (List Ip) :=
  (engine.answer name).outcome engine.timeout

/-- What became of a request for a line. -/
inductive Fate where
  | waiting
  | calling (start : Nat)
  | ended (start ends : Nat) (outcome : Except Reason (List Ip))
  /-- Given up, perhaps after the call had started. -/
  | givenUp (start : Option Nat)

structure Request where
  name : String
  /-- When the line was asked for. -/
  asked : Nat
  /-- The ticket that was drawn if no line was free. -/
  ticket : Option Ticket
  fate : Fate

namespace Request

def start? (request : Request) : Option Nat :=
  match request.fate with
  | .waiting => none
  | .calling start => some start
  | .ended start _ _ => some start
  | .givenUp start => start

def call? (request : Request) : Option Call :=
  request.start?.map (⟨request.name, ·⟩)

def isCalling (request : Request) : Bool :=
  match request.fate with
  | .calling _ => true
  | _ => false

/-- The ticket with which a request waits. -/
def queued? (request : Request) : Option Ticket :=
  match request.fate with
  | .waiting => request.ticket
  | _ => none

/-- Whether the times of a request are right: its call ends exactly when it has to, with the outcome
    that the name and the time limit call for. -/
def Timely (engine : Engine) (now : Nat) (request : Request) : Prop :=
  request.asked ≤ now ∧
    match request.fate with
    | .waiting => True
    | .calling start =>
      request.asked ≤ start ∧ start ≤ now ∧ now ≤ start + engine.duration request.name
    | .ended start ends outcome =>
      request.asked ≤ start ∧ ends = start + engine.duration request.name ∧ ends ≤ now ∧
        outcome = engine.outcome request.name
    | .givenUp start => ∀ time, start = some time → request.asked ≤ time ∧ time ≤ now

/-- Whether an earlier request was not passed by a later one: if the later one has called, the
    earlier one called no later, or was given up, or is calling at the same time. -/
def Precedes (now : Nat) (earlier later : Request) : Prop :=
  ∀ time, later.start? = some time →
    (∃ time' ≤ time, earlier.start? = some time') ∨ earlier.fate = .givenUp none ∨
      earlier.fate = .waiting ∧ time = now

/-- Whether lines go to an earlier request first: while it waits without one, a later request has
    none, and had none. -/
def Outranks (board : Switchboard) (earlier later : Request) : Prop :=
  ∀ ticket, earlier.queued? = some ticket → ticket.number ∉ board.served →
    later.start? = none ∧ ∀ ticket', later.queued? = some ticket' → ticket'.number ∉ board.served

end Request

/-- What holds of requests, in the order in which they were made, and the switchboard. -/
structure Lawful (engine : Engine) (lines : Nat) (requests : List Request) (board : Switchboard) :
    Prop where
  lines_eq : board.free + board.served.length + board.inFlight = lines
  inFlight_eq : board.inFlight = requests.countP Request.isCalling
  peak_le : board.inFlight ≤ board.peak ∧ board.peak ≤ lines
  calls : (requests.filterMap Request.call?).Perm board.calls.toList
  chronological : board.calls.toList.Pairwise fun first second => first.start ≤ second.start
  timely : ∀ request ∈ requests, request.Timely engine board.now
  granted : requests.Pairwise (Request.Outranks board)
  fair : requests.Pairwise (Request.Precedes board.now)

/-- What happens to requests and the switchboard. Requests that have not ended are given up only if
    all is `lost`. -/
inductive Deal (engine : Engine) (lost : Prop) :
    List Request × Switchboard → List Request × Switchboard → Prop
  | draw {journal board} (name : String) (bell : Bell) (busy : board.free = 0) :
      Deal engine lost (journal, board)
        (journal ++ [⟨name, board.now, some ⟨board.drawn, bell⟩, .waiting⟩], board.draw bell)
  | take {journal board} (name : String) (idle : board.free ≠ 0) :
      Deal engine lost (journal, board)
        (journal ++ [⟨name, board.now, none, .calling board.now⟩], board.take.call name)
  | claim {front back board name asked ticket} (served : ticket.number ∈ board.served) :
      Deal engine lost (front ++ ⟨name, asked, some ticket, .waiting⟩ :: back, board)
        (front ++ ⟨name, asked, some ticket, .calling board.now⟩ :: back,
          (board.claim ticket.number).call name)
  | setAlarm {journal board} (number : Nat) :
      Deal engine lost (journal, board) (journal, { board with alarms := number })
  | hangUp {front back board name asked ticket start}
      (due : start + engine.duration name ≤ board.now) :
      Deal engine lost (front ++ ⟨name, asked, ticket, .calling start⟩ :: back, board)
        (front ++ ⟨name, asked, ticket, .ended start board.now (engine.outcome name)⟩ :: back,
          board.hangUp.2)
  | cut {front back board name asked ticket start} (allowed : lost) :
      Deal engine lost (front ++ ⟨name, asked, ticket, .calling start⟩ :: back, board)
        (front ++ ⟨name, asked, ticket, .givenUp (some start)⟩ :: back, board.hangUp.2)
  | discard {front back board name asked ticket} (allowed : lost) :
      Deal engine lost (front ++ ⟨name, asked, some ticket, .waiting⟩ :: back, board)
        (front ++ ⟨name, asked, some ticket, .givenUp none⟩ :: back,
          (board.discard ticket.number).2)
  /-- The clock moves. No line is left unused, and no call is past its end. -/
  | wait {journal board time} (unserved : board.served = []) (later : board.now < time)
      (busy : ∃ request ∈ journal, request.isCalling)
      (soon : ∀ request ∈ journal, ∀ start, request.fate = .calling start →
        time ≤ start + engine.duration request.name) :
      Deal engine lost (journal, board) (journal, board.atTime time)

def Deals (engine : Engine) (lost : Prop) :
    List Request × Switchboard → List Request × Switchboard → Prop :=
  Relation.ReflTransGen (Deal engine lost)

/-! ## Journals in good order -/

namespace Request

variable {engine : Engine} {board : Switchboard} {now : Nat} {request earlier later : Request}

/-- Whether an earlier request was not passed by a later one, given who has a line. -/
def NotPassed (board : Switchboard) (earlier later : Request) : Prop :=
  ∀ time, later.start? = some time →
    (∃ time' ≤ time, earlier.start? = some time') ∨ earlier.fate = .givenUp none ∨
      (∃ ticket, earlier.queued? = some ticket ∧ ticket.number ∈ board.served) ∧ time = board.now

def queueOf (journal : List Request) : List Ticket :=
  journal.filterMap queued?

def callingOf (journal : List Request) : Nat :=
  journal.countP isCalling

theorem Timely.start (timely : request.Timely engine now) {start : Nat}
    (started : request.start? = some start) : request.asked ≤ start ∧ start ≤ now := by
  obtain ⟨name, asked, ticket, fate⟩ := request
  cases fate with
  | waiting => cases started
  | calling =>
      obtain rfl := Option.some.inj started
      exact ⟨timely.2.1, timely.2.2.1⟩
  | ended =>
      obtain rfl := Option.some.inj started
      exact ⟨timely.2.1, by have := timely.2.2; omega⟩
  | givenUp => exact timely.2 start started

theorem fate_of_queued? {ticket : Ticket} (queued : request.queued? = some ticket) :
    request.fate = .waiting ∧ request.ticket = some ticket := by
  obtain ⟨name, asked, ticket', fate⟩ := request
  cases fate with
  | waiting => exact ⟨rfl, queued⟩
  | calling | ended | givenUp => cases queued

theorem Timely.mono (timely : request.Timely engine now) {now' : Nat} (le : now ≤ now')
    (soon : ∀ start, request.fate = .calling start →
      now' ≤ start + engine.duration request.name) : request.Timely engine now' := by
  obtain ⟨name, asked, ticket, fate⟩ := request
  obtain ⟨known, timely⟩ := timely
  refine ⟨Nat.le_trans known le, ?_⟩
  cases fate with
  | waiting => trivial
  | calling start => exact ⟨timely.1, Nat.le_trans timely.2.1 le, soon start rfl⟩
  | ended => exact ⟨timely.1, timely.2.1, Nat.le_trans timely.2.2.1 le, timely.2.2.2⟩
  | givenUp =>
      exact fun time started => ⟨(timely time started).1, Nat.le_trans (timely time started).2 le⟩

/-- Every request that has a line, or had one, comes before a call that starts now. -/
theorem notPassed_now (timely : earlier.Timely engine board.now)
    (ticketed : earlier.fate = .waiting → ∃ ticket, earlier.ticket = some ticket)
    (served : ∀ ticket, earlier.queued? = some ticket → ticket.number ∈ board.served)
    (starts : later.start? = some board.now) : earlier.NotPassed board later := by
  intro time started
  obtain rfl := Option.some.inj (starts.symm.trans started)
  cases start : earlier.start? with
  | some time' => exact .inl ⟨time', (timely.start start).2, rfl⟩
  | none =>
      obtain ⟨name, asked, ticket, fate⟩ := earlier
      cases fate with
      | waiting =>
          obtain ⟨ticket, rfl⟩ := ticketed rfl
          exact .inr (.inr ⟨⟨ticket, rfl, served ticket rfl⟩, rfl⟩)
      | calling | ended => cases start
      | givenUp => exact .inr (.inl (congrArg Fate.givenUp start))

theorem NotPassed.congr {board' : Switchboard} (notPassed : earlier.NotPassed board later)
    (now : board'.now = board.now)
    (served : ∀ ticket, earlier.queued? = some ticket → ticket.number ∈ board.served →
      ticket.number ∈ board'.served) : earlier.NotPassed board' later := by
  intro time started
  refine (notPassed time started).imp_right (Or.imp_right ?_)
  rintro ⟨⟨ticket, queued, serves⟩, same⟩
  exact ⟨⟨ticket, queued, served ticket queued serves⟩, same.trans now.symm⟩

theorem forall_ask {P : Request → Prop} {journal : List Request}
    (all : ∀ a ∈ journal, P a) (last : P request) : ∀ a ∈ journal ++ [request], P a :=
  List.forall_mem_append.mpr ⟨all, List.forall_mem_singleton.mpr last⟩

theorem forall_replace {P : Request → Prop} {front back : List Request} {request' : Request}
    (all : ∀ a ∈ front ++ request :: back, P a) (here : P request') :
    ∀ a ∈ front ++ request' :: back, P a := by
  rw [List.forall_mem_append, List.forall_mem_cons] at all ⊢
  exact ⟨all.1, here, all.2.2⟩

theorem pairwise_ask {R : Request → Request → Prop} {journal : List Request}
    (pairs : journal.Pairwise R) (last : ∀ a ∈ journal, R a request) :
    (journal ++ [request]).Pairwise R :=
  List.pairwise_append.mpr ⟨pairs, List.pairwise_singleton ..,
    fun a member => List.forall_mem_singleton.mpr (last a member)⟩

theorem pairwise_replace {R S : Request → Request → Prop} {front back : List Request}
    {request' : Request} (pairs : (front ++ request :: back).Pairwise R)
    (others : ∀ a ∈ front ++ back, ∀ b, R a b → S a b)
    (before : ∀ a ∈ front, R a request → S a request')
    (after : ∀ b ∈ back, R request b → S request' b) :
    (front ++ request' :: back).Pairwise S := by
  obtain ⟨inFront, inBack, across⟩ := List.pairwise_append.mp pairs
  obtain ⟨first, inBack⟩ := List.pairwise_cons.mp inBack
  refine List.pairwise_append.mpr ⟨?_, List.pairwise_cons.mpr ⟨?_, ?_⟩, ?_⟩
  · exact inFront.imp_of_mem fun here _ => others _ (List.mem_append_left _ here) _
  · exact fun b member => after b member (first b member)
  · exact inBack.imp_of_mem fun here _ => others _ (List.mem_append_right _ here) _
  · intro a here b there
    rcases List.mem_cons.mp there with rfl | there
    · exact before a here (across a here request List.mem_cons_self)
    · exact others a (List.mem_append_left _ here) b (across a here b (List.mem_cons_of_mem _ there))

end Request

open Request

/-- What deals keep. -/
structure Conducted (engine : Engine) (lines : Nat) (journal : List Request)
    (board : Switchboard) : Prop where
  ledger : Switchboard.Ledger lines (queueOf journal) (callingOf journal) board
  inTurn : board.InTurn
  tickets : journal.Pairwise fun earlier later => ∀ ticket ticket',
    earlier.queued? = some ticket → later.queued? = some ticket' → ticket.number < ticket'.number
  ticketed : ∀ request ∈ journal, request.fate = .waiting → ∃ ticket, request.ticket = some ticket
  peak_le : board.inFlight ≤ board.peak ∧ board.peak ≤ lines
  calls : (journal.filterMap call?).Perm board.calls.toList
  chronological : board.calls.toList.Pairwise fun first second => first.start ≤ second.start
  timely : ∀ request ∈ journal, request.Timely engine board.now
  notPassed : journal.Pairwise (NotPassed board)

namespace Conducted

variable {engine : Engine} {lines : Nat} {journal front back : List Request} {board : Switchboard}
  {request request' : Request}

theorem initial (engine : Engine) (lines : Nat) : Conducted engine lines [] { free := lines } where
  ledger := .initial lines
  inTurn := ⟨.nil, nofun⟩
  tickets := .nil
  ticketed := nofun
  peak_le := ⟨Nat.le_refl _, Nat.zero_le _⟩
  calls := .nil
  chronological := .nil
  timely := nofun
  notPassed := .nil

/-! ### What follows -/

theorem start_le (conducted : Conducted engine lines journal board) {call : Call}
    (member : call ∈ board.calls.toList) : call.start ≤ board.now := by
  obtain ⟨request, asked, same⟩ := List.mem_filterMap.mp (conducted.calls.mem_iff.mpr member)
  obtain ⟨start, started, rfl⟩ := Option.map_eq_some_iff.mp same
  exact ((conducted.timely request asked).start started).2

theorem exists_queued (conducted : Conducted engine lines journal board)
    (member : request ∈ journal) (waits : request.fate = .waiting) :
    ∃ ticket, request.queued? = some ticket := by
  obtain ⟨ticket, drawn⟩ := conducted.ticketed request member waits
  refine ⟨ticket, ?_⟩
  unfold queued?
  rw [waits]
  exact drawn

theorem granted (conducted : Conducted engine lines journal board) :
    journal.Pairwise (Outranks board) := by
  refine (conducted.notPassed.and conducted.tickets).imp_of_mem ?_
  rintro earlier later here - ⟨notPassed, tickets⟩ ticket queued unserved
  obtain ⟨waits, -⟩ := fate_of_queued? queued
  constructor
  · cases started : later.start? with
    | none => rfl
    | some time =>
        rcases notPassed time started with ⟨time', -, start⟩ | lost | ⟨⟨other, same, served⟩, -⟩
        · rw [start?, waits] at start
          cases start
        · rw [waits] at lost
          cases lost
        · obtain rfl := Option.some.inj (queued.symm.trans same)
          exact absurd served unserved
  · intro ticket' queued' served
    have member : ticket ∈ queueOf journal := List.mem_filterMap.mpr ⟨earlier, here, queued⟩
    have waits := (conducted.ledger.mem_waiting_or_served member).resolve_right unserved
    have := conducted.inTurn.first _ served ticket waits
    have := tickets ticket ticket' queued queued'
    omega

theorem lawful (conducted : Conducted engine lines journal board) :
    Lawful engine lines journal board where
  lines_eq := conducted.ledger.lines_eq
  inFlight_eq := conducted.ledger.inFlight_eq
  peak_le := conducted.peak_le
  calls := conducted.calls
  chronological := conducted.chronological
  timely := conducted.timely
  granted := conducted.granted
  fair := by
    refine conducted.notPassed.imp ?_
    rintro earlier later notPassed time started
    refine (notPassed time started).imp_right (Or.imp_right ?_)
    rintro ⟨⟨ticket, queued, -⟩, same⟩
    exact ⟨(fate_of_queued? queued).1, same⟩

/-! ### Deals -/

private theorem ledger_among :
    Switchboard.Ledger lines (queueOf (front ++ request :: back))
        (callingOf (front ++ request :: back)) board ↔
      Switchboard.Ledger lines (request.queued?.toList ++ queueOf (front ++ back))
        (callingOf (front ++ back) + request.isCalling.toNat) board := by
  have tickets : (queueOf (front ++ request :: back)).Perm
      (request.queued?.toList ++ queueOf (front ++ back)) := by
    unfold queueOf
    refine (List.perm_middle.filterMap _).trans (.of_eq ?_)
    cases queued : request.queued? <;> simp [queued]
  have calls : callingOf (front ++ request :: back) =
      callingOf (front ++ back) + request.isCalling.toNat := by
    unfold callingOf
    cases calling : request.isCalling
    · simp [calling]
    · simp [calling]
      omega
  rw [calls]
  exact ⟨(·.congr_perm tickets), (·.congr_perm tickets.symm)⟩

theorem toList_calls_call (board : Switchboard) (name : String) :
    (board.call name).calls.toList = board.calls.toList ++ [⟨name, board.now⟩] :=
  Array.toList_push ..

private theorem chronological_call (name : String)
    (chronological : board.calls.toList.Pairwise fun first second => first.start ≤ second.start)
    (start_le : ∀ call ∈ board.calls.toList, call.start ≤ board.now) :
    (board.call name).calls.toList.Pairwise fun first second => first.start ≤ second.start := by
  rw [toList_calls_call]
  refine List.pairwise_append.mpr ⟨chronological, List.pairwise_singleton .., ?_⟩
  intro call member last here
  obtain rfl := List.mem_singleton.mp here
  exact start_le call member

private theorem peak_call {name : String} {queue : List Ticket} {underway : Nat}
    (peak_le : board.inFlight ≤ board.peak ∧ board.peak ≤ lines)
    (ledger : Switchboard.Ledger lines queue underway (board.call name)) :
    (board.call name).inFlight ≤ (board.call name).peak ∧ (board.call name).peak ≤ lines := by
  have lines_eq := ledger.lines_eq
  simp only [Switchboard.call] at lines_eq ⊢
  omega

theorem draw (conducted : Conducted engine lines journal board) (name : String) (bell : Bell)
    (busy : board.free = 0) :
    Conducted engine lines
      (journal ++ [⟨name, board.now, some ⟨board.drawn, bell⟩, .waiting⟩]) (board.draw bell) where
  ledger := by
    refine ledger_among.mpr ?_
    rw [List.append_nil]
    exact conducted.ledger.draw bell busy
  inTurn := conducted.inTurn.draw conducted.ledger bell
  tickets := by
    refine pairwise_ask conducted.tickets fun earlier here ticket ticket' queued queued' => ?_
    obtain rfl := Option.some.inj queued'
    exact conducted.ledger.drawn ticket (List.mem_filterMap.mpr ⟨earlier, here, queued⟩)
  ticketed := forall_ask conducted.ticketed fun _ => ⟨_, rfl⟩
  peak_le := conducted.peak_le
  calls := by
    rw [List.filterMap_append]
    exact (List.append_nil _).symm ▸ conducted.calls
  chronological := conducted.chronological
  timely := forall_ask conducted.timely ⟨Nat.le_refl _, trivial⟩
  notPassed := pairwise_ask conducted.notPassed fun _ _ _ started => nomatch started

theorem take (conducted : Conducted engine lines journal board) (name : String)
    (idle : board.free ≠ 0) :
    Conducted engine lines (journal ++ [⟨name, board.now, none, .calling board.now⟩])
      (board.take.call name) := by
  have ledger := conducted.ledger.take name idle
  -- No ticket waits while a line is free, so no earlier request is passed.
  have served : ∀ earlier ∈ journal, ∀ ticket, earlier.queued? = some ticket →
      ticket.number ∈ board.served := by
    intro earlier here ticket queued
    refine (conducted.ledger.mem_waiting_or_served
      (List.mem_filterMap.mpr ⟨earlier, here, queued⟩)).resolve_left fun waits => ?_
    rw [conducted.ledger.noIdle idle] at waits
    cases waits
  refine
    { ledger := ?_, inTurn := ⟨conducted.inTurn.sorted, conducted.inTurn.first⟩,
      tickets := pairwise_ask conducted.tickets (fun _ _ _ _ _ queued => nomatch queued),
      ticketed := forall_ask conducted.ticketed nofun,
      peak_le := peak_call conducted.peak_le ledger, calls := ?_,
      chronological := chronological_call name conducted.chronological fun _ => conducted.start_le,
      timely := forall_ask conducted.timely
        ⟨Nat.le_refl _, Nat.le_refl _, Nat.le_refl _, Nat.le_add_right ..⟩,
      notPassed := ?_ }
  · refine ledger_among.mpr ?_
    rw [List.append_nil]
    exact ledger
  · rw [List.filterMap_append, toList_calls_call]
    exact conducted.calls.append_right _
  · refine pairwise_ask conducted.notPassed fun earlier here => ?_
    have held : earlier.NotPassed board ⟨name, board.now, none, .calling board.now⟩ :=
      notPassed_now (conducted.timely earlier here) (conducted.ticketed earlier here)
        (served earlier here) rfl
    exact held

private theorem ticket_ne
    (conducted : Conducted engine lines (front ++ request :: back) board) {ticket : Ticket}
    (queued : request.queued? = some ticket) {other : Request} (member : other ∈ front ++ back)
    {ticket' : Ticket} (queued' : other.queued? = some ticket') :
    ticket'.number ≠ ticket.number := by
  obtain ⟨-, inBack, across⟩ := List.pairwise_append.mp conducted.tickets
  rcases List.mem_append.mp member with here | there
  · exact Nat.ne_of_lt (across other here request List.mem_cons_self _ _ queued' queued)
  · exact Nat.ne_of_gt ((List.pairwise_cons.mp inBack).1 other there _ _ queued queued')

theorem claim {name : String} {asked : Nat} {ticket : Ticket}
    (conducted :
      Conducted engine lines (front ++ ⟨name, asked, some ticket, .waiting⟩ :: back) board)
    (served : ticket.number ∈ board.served) :
    Conducted engine lines (front ++ ⟨name, asked, some ticket, .calling board.now⟩ :: back)
      ((board.claim ticket.number).call name) := by
  have ledger := Switchboard.Ledger.claim ticket (ledger_among.mp conducted.ledger) name served
  have here : (⟨name, asked, some ticket, .waiting⟩ : Request) ∈
      front ++ ⟨name, asked, some ticket, .waiting⟩ :: back := by simp
  have kept : ∀ other ∈ front ++ back, ∀ ticket', other.queued? = some ticket' →
      ticket'.number ∈ board.served → ticket'.number ∈ board.served.erase ticket.number :=
    fun other member ticket' queued serves =>
      (List.mem_erase_of_ne (conducted.ticket_ne rfl member queued)).mpr serves
  have known := (conducted.timely _ here).1
  have inTurn := conducted.inTurn.claim ticket.number
  refine
    { ledger := ledger_among.mpr ledger,
      inTurn := ⟨inTurn.sorted, inTurn.first⟩,
      tickets := ?_, ticketed := forall_replace conducted.ticketed nofun,
      peak_le := peak_call conducted.peak_le ledger, calls := ?_,
      chronological := chronological_call name conducted.chronological fun _ => conducted.start_le,
      timely := forall_replace conducted.timely
        ⟨known, known, Nat.le_refl _, Nat.le_add_right ..⟩,
      notPassed := ?_ }
  · exact pairwise_replace conducted.tickets (fun _ _ _ => id)
      (fun _ _ _ _ _ _ queued => by cases queued) (fun _ _ _ _ _ queued => by cases queued)
  · have calls := conducted.calls
    rw [List.filterMap_append, List.filterMap_cons_none rfl, ← List.filterMap_append] at calls
    have called : (⟨name, asked, some ticket, .calling board.now⟩ : Request).call? =
        some ⟨name, board.now⟩ := rfl
    rw [toList_calls_call, List.filterMap_append, List.filterMap_cons_some called]
    refine List.perm_middle.trans (.trans ?_ (List.perm_append_singleton _ _).symm)
    rw [← List.filterMap_append]
    exact calls.cons _
  · refine pairwise_replace conducted.notPassed ?_ ?_ ?_
    · exact fun a member b notPassed => notPassed.congr rfl (kept a member)
    · -- Every earlier request that waits has a line, since this one has.
      intro earlier member notPassed
      have whole : earlier ∈ front ++ ⟨name, asked, some ticket, .waiting⟩ :: back :=
        List.mem_append_left _ member
      have inTurn : ∀ ticket', earlier.queued? = some ticket' → ticket'.number ∈ board.served := by
        intro ticket' queued
        refine (conducted.ledger.mem_waiting_or_served
          (List.mem_filterMap.mpr ⟨earlier, whole, queued⟩)).resolve_left fun waits => ?_
        have late := conducted.inTurn.first _ served ticket' waits
        have early := (List.pairwise_append.mp conducted.tickets).2.2 earlier member _
          List.mem_cons_self ticket' ticket queued rfl
        omega
      have starts : earlier.NotPassed board ⟨name, asked, some ticket, .calling board.now⟩ :=
        notPassed_now (conducted.timely earlier whole) (conducted.ticketed earlier whole) inTurn rfl
      exact starts.congr rfl (kept earlier (List.mem_append_left _ member))
    · intro later member notPassed time started
      rcases notPassed time started with ⟨_, _, none⟩ | none | ⟨-, same⟩
      · cases none
      · cases none
      · exact .inl ⟨board.now, Nat.le_of_eq same.symm, rfl⟩

theorem setAlarm (conducted : Conducted engine lines journal board) (number : Nat) :
    Conducted engine lines journal { board with alarms := number } where
  ledger := conducted.ledger.setAlarm number
  inTurn := ⟨conducted.inTurn.sorted, conducted.inTurn.first⟩
  tickets := conducted.tickets
  ticketed := conducted.ticketed
  peak_le := conducted.peak_le
  calls := conducted.calls
  chronological := conducted.chronological
  timely := conducted.timely
  notPassed := conducted.notPassed

/-- A request that is settled, when its line or its ticket is given back. -/
private theorem settle (conducted : Conducted engine lines (front ++ request :: back) board)
    {board' : Switchboard} (startsNone : board.StartsNone board')
    (ledger : Switchboard.Ledger lines (queueOf (front ++ request' :: back))
      (callingOf (front ++ request' :: back)) board') (inTurn : board'.InTurn)
    (served : ∀ other ∈ front ++ back, ∀ ticket, other.queued? = some ticket →
      ticket.number ∈ board.served → ticket.number ∈ board'.served)
    (name : request'.name = request.name) (start : request'.start? = request.start?)
    (settled : request'.fate ≠ .waiting) (timely : request'.Timely engine board.now)
    (after : ∀ later, request.NotPassed board later → request'.NotPassed board' later) :
    Conducted engine lines (front ++ request' :: back) board' := by
  have quiet : request'.queued? = none := by
    cases queued : request'.queued? with
    | none => rfl
    | some => exact absurd (fate_of_queued? queued).1 settled
  refine
    { ledger, inTurn, tickets := ?_, ticketed := forall_replace conducted.ticketed (absurd · settled),
      peak_le := ?_, calls := ?_, chronological := ?_, timely := ?_, notPassed := ?_ }
  · refine pairwise_replace conducted.tickets (fun _ _ _ => id) ?_ ?_
    · intro _ _ _ _ _ _ queued
      rw [quiet] at queued
      cases queued
    · intro _ _ _ _ _ queued
      rw [quiet] at queued
      cases queued
  · rw [startsNone.peak]
    exact ⟨Nat.le_trans startsNone.inFlight conducted.peak_le.1, conducted.peak_le.2⟩
  · have call : request'.call? = request.call? := by
      unfold call?
      rw [name, start]
    have calls := conducted.calls
    rw [startsNone.calls]
    simp only [List.filterMap_append, List.filterMap_cons] at calls ⊢
    rwa [call]
  · rw [startsNone.calls]
    exact conducted.chronological
  · rw [startsNone.now]
    exact forall_replace conducted.timely timely
  · refine pairwise_replace conducted.notPassed ?_ ?_ fun later _ => after later
    · exact fun a member b notPassed => notPassed.congr startsNone.now (served a member)
    · intro earlier member notPassed
      have same : earlier.NotPassed board request' := by
        unfold NotPassed
        rw [start]
        exact notPassed
      exact same.congr startsNone.now (served earlier (List.mem_append_left _ member))

private theorem ends {name : String} {asked start : Nat} {ticket : Option Ticket} {fate : Fate}
    (conducted : Conducted engine lines
      (front ++ ⟨name, asked, ticket, .calling start⟩ :: back) board)
    (started : (⟨name, asked, ticket, fate⟩ : Request).start? = some start)
    (settled : fate ≠ .waiting)
    (notCalling : (⟨name, asked, ticket, fate⟩ : Request).isCalling = false)
    (timely : (⟨name, asked, ticket, fate⟩ : Request).Timely engine board.now) :
    Conducted engine lines (front ++ ⟨name, asked, ticket, fate⟩ :: back) board.hangUp.2 := by
  have quiet : (⟨name, asked, ticket, fate⟩ : Request).queued? = none := by
    cases fate with
    | waiting => exact absurd rfl settled
    | calling | ended | givenUp => rfl
  refine conducted.settle (Switchboard.startsNone_hangUp board) ?_ conducted.inTurn.hangUp
    (fun _ _ _ _ serves => Switchboard.served_hangUp board serves) rfl started settled timely ?_
  · have ledger := ledger_among.mp conducted.ledger
    refine ledger_among.mpr ?_
    rw [quiet, notCalling]
    exact Switchboard.Ledger.hangUp ledger
  · intro later notPassed time called
    rcases notPassed time called with ⟨time', le, same⟩ | lost | ⟨⟨_, queued, _⟩, _⟩
    · exact .inl ⟨time', le, started.trans same⟩
    · cases lost
    · cases queued

theorem hangUp {name : String} {asked start : Nat} {ticket : Option Ticket}
    (conducted : Conducted engine lines
      (front ++ ⟨name, asked, ticket, .calling start⟩ :: back) board)
    (due : start + engine.duration name ≤ board.now) :
    Conducted engine lines
      (front ++ ⟨name, asked, ticket, .ended start board.now (engine.outcome name)⟩ :: back)
      board.hangUp.2 := by
  obtain ⟨known, early, past, soon⟩ :=
    conducted.timely ⟨name, asked, ticket, .calling start⟩ (by simp)
  exact conducted.ends rfl nofun rfl ⟨known, early, Nat.le_antisymm soon due, Nat.le_refl _, rfl⟩

theorem cut {name : String} {asked start : Nat} {ticket : Option Ticket}
    (conducted : Conducted engine lines
      (front ++ ⟨name, asked, ticket, .calling start⟩ :: back) board) :
    Conducted engine lines (front ++ ⟨name, asked, ticket, .givenUp (some start)⟩ :: back)
      board.hangUp.2 := by
  obtain ⟨known, early, past, -⟩ := conducted.timely ⟨name, asked, ticket, .calling start⟩ (by simp)
  refine conducted.ends rfl nofun rfl ⟨known, ?_⟩
  rintro _ ⟨⟩
  exact ⟨early, past⟩

theorem discard {name : String} {asked : Nat} {ticket : Ticket}
    (conducted :
      Conducted engine lines (front ++ ⟨name, asked, some ticket, .waiting⟩ :: back) board) :
    Conducted engine lines (front ++ ⟨name, asked, some ticket, .givenUp none⟩ :: back)
      (board.discard ticket.number).2 := by
  obtain ⟨known, -⟩ := conducted.timely ⟨name, asked, some ticket, .waiting⟩ (by simp)
  refine conducted.settle (Switchboard.startsNone_discard board ticket.number) ?_
    (conducted.inTurn.discard _) ?_ rfl rfl nofun ⟨known, nofun⟩ fun later _ _ _ => .inr (.inl rfl)
  · exact ledger_among.mpr (Switchboard.Ledger.discard ticket (ledger_among.mp conducted.ledger))
  · intro other member ticket' queued serves
    exact Switchboard.served_discard serves (conducted.ticket_ne rfl member queued)

theorem wait (conducted : Conducted engine lines journal board) {time : Nat}
    (unserved : board.served = []) (later : board.now < time)
    (soon : ∀ request ∈ journal, ∀ start, request.fate = .calling start →
      time ≤ start + engine.duration request.name) :
    Conducted engine lines journal (board.atTime time) where
  ledger := conducted.ledger.atTime time
  inTurn := ⟨conducted.inTurn.sorted, conducted.inTurn.first⟩
  tickets := conducted.tickets
  ticketed := conducted.ticketed
  peak_le := conducted.peak_le
  calls := conducted.calls
  chronological := conducted.chronological
  timely := fun request member =>
    (conducted.timely request member).mono (Nat.le_of_lt later) (soon request member)
  notPassed := by
    refine conducted.notPassed.imp ?_
    rintro earlier later notPassed time started
    refine (notPassed time started).imp_right (Or.imp_right ?_)
    rintro ⟨⟨ticket, queued, served⟩, same⟩
    rw [unserved] at served
    cases served

end Conducted

variable {engine : Engine} {lost : Prop} {lines : Nat}
  {x y : List Request × Switchboard}

/-- A deal keeps a journal in good order. -/
theorem Deal.conducted (deal : Deal engine lost x y) (conducted : Conducted engine lines x.1 x.2) :
    Conducted engine lines y.1 y.2 := by
  cases deal with
  | draw name bell busy => exact conducted.draw name bell busy
  | take name idle => exact conducted.take name idle
  | claim served => exact conducted.claim served
  | setAlarm number => exact conducted.setAlarm number
  | hangUp due => exact conducted.hangUp due
  | cut => exact conducted.cut
  | discard => exact conducted.discard
  | wait unserved later _ soon => exact conducted.wait unserved later soon

theorem Deals.conducted (deals : Deals engine lost x y)
    (conducted : Conducted engine lines x.1 x.2) :
    Conducted engine lines y.1 y.2 := by
  induction deals with
  | refl => exact conducted
  | tail _ last ih => exact last.conducted ih

theorem Deal.spares (deal : Deal engine lost x y) (spared : ¬lost)
    (kept : ∀ request ∈ x.1, ∀ start, request.fate ≠ .givenUp start) :
    ∀ request ∈ y.1, ∀ start, request.fate ≠ .givenUp start := by
  cases deal with
  | draw | take => exact forall_ask kept nofun
  | claim | hangUp => exact forall_replace kept nofun
  | setAlarm | wait => exact kept
  | cut allowed | discard allowed => exact absurd allowed spared

theorem Deals.spares (deals : Deals engine lost x y) (spared : ¬lost)
    (kept : ∀ request ∈ x.1, ∀ start, request.fate ≠ .givenUp start) :
    ∀ request ∈ y.1, ∀ start, request.fate ≠ .givenUp start := by
  induction deals with
  | refl => exact kept
  | tail _ last ih => exact last.spares spared ih

theorem Deal.imp {lost' : Prop} (deal : Deal engine lost x y) (imp : lost → lost') :
    Deal engine lost' x y := by
  cases deal with
  | draw name bell busy => exact .draw name bell busy
  | take name idle => exact .take name idle
  | claim served => exact .claim served
  | setAlarm number => exact .setAlarm number
  | hangUp due => exact .hangUp due
  | cut allowed => exact .cut (imp allowed)
  | discard allowed => exact .discard (imp allowed)
  | wait unserved later busy soon => exact .wait unserved later busy soon

theorem Deals.imp {lost' : Prop} (deals : Deals engine lost x y) (imp : lost → lost') :
    Deals engine lost' x y :=
  Relation.ReflTransGen.mono (fun _ _ deal => deal.imp imp) _ _ deals

/-! ## What deals add -/

/-- Whether a switchboard is a later state of another: every call since then started since then. -/
structure Switchboard.Extends (board board' : Switchboard) : Prop where
  now_le : board.now ≤ board'.now
  calls : ∃ new, board'.calls.toList = board.calls.toList ++ new ∧
    ∀ call ∈ new, board.now ≤ call.start

namespace Switchboard.Extends

variable {board board' board'' : Switchboard}

theorem of_startsNone (startsNone : board.StartsNone board') : board.Extends board' where
  now_le := Nat.le_of_eq startsNone.now.symm
  calls := ⟨[], by rw [startsNone.calls, List.append_nil], nofun⟩

theorem call (board : Switchboard) (name : String) : board.Extends (board.call name) where
  now_le := Nat.le_refl _
  calls := by
    refine ⟨[⟨name, board.now⟩], Array.toList_push .., fun call here => ?_⟩
    rw [List.mem_singleton.mp here]

theorem trans (first : board.Extends board') (second : board'.Extends board'') :
    board.Extends board'' := by
  obtain ⟨new, calls, since⟩ := first.calls
  obtain ⟨new', calls', since'⟩ := second.calls
  refine ⟨Nat.le_trans first.now_le second.now_le, new ++ new', ?_, fun call member => ?_⟩
  · rw [calls', calls, List.append_assoc]
  · rcases List.mem_append.mp member with member | member
    · exact since call member
    · exact Nat.le_trans first.now_le (since' call member)

end Switchboard.Extends

theorem Deal.extends (deal : Deal engine lost x y) : x.2.Extends y.2 := by
  cases deal with
  | draw | setAlarm => exact .of_startsNone ⟨rfl, rfl, rfl, Nat.le_refl _⟩
  | @take _ board name => exact ⟨Nat.le_refl _, (Switchboard.Extends.call board.take name).calls⟩
  | @claim _ _ board name _ ticket =>
      exact ⟨Nat.le_refl _, (Switchboard.Extends.call (board.claim ticket.number) name).calls⟩
  | hangUp | cut => exact .of_startsNone (Switchboard.startsNone_hangUp _)
  | discard => exact .of_startsNone (Switchboard.startsNone_discard ..)
  | wait _ later => exact ⟨Nat.le_of_lt later, [], (List.append_nil _).symm, nofun⟩

theorem Deals.extends (deals : Deals engine lost x y) : x.2.Extends y.2 := by
  induction deals with
  | refl => exact .of_startsNone ⟨rfl, rfl, rfl, Nat.le_refl _⟩
  | tail _ last ih => exact ih.trans last.extends

def Call.span (engine : Engine) (now : Nat) (call : Call) : Nat :=
  min now (call.start + engine.duration call.name) - call.start

/-- Whether at any time until now some call was under way, so that the calls cover all the time. -/
def Switchboard.Covered (engine : Engine) (board : Switchboard) : Prop :=
  board.now ≤ (board.calls.toList.map (Call.span engine board.now)).sum

theorem Switchboard.Covered.now_le {board : Switchboard} (covered : board.Covered engine) :
    board.now ≤ (board.calls.toList.map fun call => engine.duration call.name).sum := by
  refine Nat.le_trans covered (List.sum_le_sum fun call _ => ?_)
  unfold Call.span
  omega

private theorem covered_call {board : Switchboard} (name : String) (covered : board.Covered engine) :
    (board.call name).Covered engine := by
  unfold Switchboard.Covered at covered ⊢
  rw [Conducted.toList_calls_call, List.map_append, List.sum_append]
  exact Nat.le_trans covered (Nat.le_add_right ..)

private theorem covered_wait {journal : List Request} {board : Switchboard} {time : Nat}
    (conducted : Conducted engine lines journal board) (later : board.now < time)
    (busy : ∃ request ∈ journal, request.isCalling)
    (soon : ∀ request ∈ journal, ∀ start, request.fate = .calling start →
      time ≤ start + engine.duration request.name)
    (covered : board.Covered engine) : (board.atTime time).Covered engine := by
  obtain ⟨⟨name, asked, ticket, fate⟩, member, calling⟩ := busy
  cases fate with
  | waiting | ended | givenUp => cases calling
  | calling start =>
      have started : (⟨name, asked, ticket, .calling start⟩ : Request).start? = some start := rfl
      have past := ((conducted.timely _ member).start started).2
      have soon := soon _ member start rfl
      have called : ⟨name, start⟩ ∈ board.calls.toList :=
        conducted.calls.mem_iff.mp (List.mem_filterMap.mpr ⟨_, member, rfl⟩)
      obtain ⟨front, back, split⟩ := List.append_of_mem called
      have longer : ∀ calls : List Call, (calls.map (Call.span engine board.now)).sum ≤
          (calls.map (Call.span engine time)).sum := by
        refine fun calls => List.sum_le_sum fun call _ => ?_
        unfold Call.span
        omega
      have here : Call.span engine board.now ⟨name, start⟩ + (time - board.now) ≤
          Call.span engine time ⟨name, start⟩ := by
        unfold Call.span
        dsimp only at soon ⊢
        omega
      -- This call was under way while the time passed, and no other became shorter.
      unfold Switchboard.Covered at covered ⊢
      change time ≤ (board.calls.toList.map (Call.span engine time)).sum
      rw [split, List.map_append, List.map_cons, List.sum_append, List.sum_cons] at covered ⊢
      have := longer front
      have := longer back
      omega

theorem Deal.covered (deal : Deal engine lost x y) (conducted : Conducted engine lines x.1 x.2)
    (covered : x.2.Covered engine) : y.2.Covered engine := by
  have quiet : ∀ {board board' : Switchboard}, board.StartsNone board' →
      board.Covered engine → board'.Covered engine := by
    intro board board' startsNone covered
    unfold Switchboard.Covered at covered ⊢
    rwa [startsNone.now, startsNone.calls]
  cases deal with
  | draw | setAlarm => exact covered
  | take name => exact covered_call name covered
  | claim => exact covered_call _ covered
  | hangUp | cut => exact quiet (Switchboard.startsNone_hangUp _) covered
  | discard => exact quiet (Switchboard.startsNone_discard ..) covered
  | wait _ later busy soon => exact covered_wait conducted later busy soon covered

/-- Time passes only while a call is under way. -/
theorem Deals.covered (deals : Deals engine lost x y) (conducted : Conducted engine lines x.1 x.2)
    (covered : x.2.Covered engine) : y.2.Covered engine := by
  induction deals with
  | refl => exact covered
  | tail deals last ih => exact last.covered (Deals.conducted deals conducted) ih

end AddressExpansion
