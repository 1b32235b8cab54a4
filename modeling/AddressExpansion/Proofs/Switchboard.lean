import Mathlib.Data.List.Nodup
import Mathlib.Data.List.Perm.Basic
import Mathlib.Tactic.Common
import AddressExpansion.Switchboard

/-! # The ledger of a switchboard

Every line is free, in the hands of a ticket, or in use, and no line is free while a ticket waits.
The tickets that were drawn and not used yet are those of the lookups in the queue. All changes of
a switchboard keep this.
-/

namespace AddressExpansion

namespace Switchboard

/-- The ledger of a switchboard with `lines` lines: the tickets in the hands of lookups are
    `queue`, and `underway` lookups have called. -/
structure Ledger (lines : Nat) (queue : List Ticket) (underway : Nat) (board : Switchboard) :
    Prop where
  lines_eq : board.free + board.served.length + board.inFlight = lines
  inFlight_eq : board.inFlight = underway
  tickets : (board.waiting.map Ticket.number ++ board.served).Perm (queue.map Ticket.number)
  nodup : (queue.map Ticket.number).Nodup
  drawn : ∀ ticket ∈ queue, ticket.number < board.drawn
  waiting : board.waiting ⊆ queue
  /-- A line is free only if no ticket waits for one. -/
  noIdle : board.free ≠ 0 → board.waiting = []

namespace Ledger

variable {lines underway : Nat} {front queue back : List Ticket} {board : Switchboard}
  {ticket : Ticket}

theorem initial (lines : Nat) : Ledger lines [] 0 { free := lines } where
  lines_eq := rfl
  inFlight_eq := rfl
  tickets := .nil
  nodup := .nil
  drawn := nofun
  waiting := List.nil_subset _
  noIdle := fun _ => rfl

theorem eq_of_number (ledger : Ledger lines queue underway board) {ticket other : Ticket}
    (here : ticket ∈ queue) (there : other ∈ queue) (same : ticket.number = other.number) :
    ticket = other :=
  List.inj_on_of_nodup_map ledger.nodup here there same

/-- A waiting ticket has no line. -/
theorem not_served (ledger : Ledger lines queue underway board) (waits : ticket ∈ board.waiting) :
    ticket.number ∉ board.served := by
  have nodup := ledger.tickets.nodup_iff.mpr ledger.nodup
  exact fun served =>
    List.disjoint_of_nodup_append nodup (List.mem_map_of_mem waits) served

theorem mem_waiting_or_served (ledger : Ledger lines queue underway board)
    (member : ticket ∈ queue) : ticket ∈ board.waiting ∨ ticket.number ∈ board.served := by
  rcases List.mem_append.mp (ledger.tickets.mem_iff.mpr (List.mem_map_of_mem member)) with
    waits | served
  · obtain ⟨other, waits, same⟩ := List.mem_map.mp waits
    exact .inl (ledger.eq_of_number (ledger.waiting waits) member same ▸ waits)
  · exact .inr served

/-- Only the members of the queue count, not their order. -/
theorem congr_perm {queue' : List Ticket} (ledger : Ledger lines queue underway board)
    (same : queue.Perm queue') : Ledger lines queue' underway board where
  lines_eq := ledger.lines_eq
  inFlight_eq := ledger.inFlight_eq
  tickets := ledger.tickets.trans (same.map _)
  nodup := (same.map _).nodup_iff.mp ledger.nodup
  drawn := fun ticket member => ledger.drawn ticket (same.mem_iff.mpr member)
  waiting := fun _ member => same.mem_iff.mp (ledger.waiting member)
  noIdle := ledger.noIdle

theorem draw (ledger : Ledger lines queue underway board) (bell : Bell) (busy : board.free = 0) :
    Ledger lines (⟨board.drawn, bell⟩ :: queue) underway (board.draw bell) where
  lines_eq := ledger.lines_eq
  inFlight_eq := ledger.inFlight_eq
  tickets := by
    simp only [Switchboard.draw, List.map_append, List.map_cons, List.map_nil, List.append_assoc,
      List.singleton_append]
    exact List.perm_middle.trans (ledger.tickets.cons _)
  nodup := by
    refine List.nodup_cons.mpr ⟨fun member => ?_, ledger.nodup⟩
    obtain ⟨ticket, member, same⟩ := List.mem_map.mp member
    exact absurd same (Nat.ne_of_lt (ledger.drawn ticket member))
  drawn := by
    intro ticket member
    rcases List.mem_cons.mp member with rfl | member
    · exact Nat.lt_succ_self _
    · exact Nat.lt_succ_of_lt (ledger.drawn ticket member)
  waiting := by
    intro ticket member
    rcases List.mem_append.mp member with member | member
    · exact List.mem_cons_of_mem _ (ledger.waiting member)
    · exact List.mem_singleton.mp member ▸ List.mem_cons_self
  noIdle := fun free => absurd busy free

theorem take (ledger : Ledger lines queue underway board) (name : String)
    (idle : board.free ≠ 0) :
    Ledger lines queue (underway + 1) (board.take.call name) where
  lines_eq := by
    have := ledger.lines_eq
    simp only [Switchboard.take, Switchboard.call]
    omega
  inFlight_eq := congrArg (· + 1) ledger.inFlight_eq
  tickets := ledger.tickets
  nodup := ledger.nodup
  drawn := ledger.drawn
  waiting := ledger.waiting
  noIdle := fun _ => ledger.noIdle idle

private theorem tickets_erase (ledger : Ledger lines (ticket :: queue) underway board)
    (served : ticket.number ∈ board.served) :
    (board.waiting.map Ticket.number ++ board.served.erase ticket.number).Perm
      (queue.map Ticket.number) := by
  have split := (List.perm_cons_erase served).append_left (board.waiting.map Ticket.number)
  exact ((List.perm_middle.symm.trans split.symm).trans ledger.tickets).cons_inv

private theorem waiting_of_served (ledger : Ledger lines (ticket :: queue) underway board)
    (served : ticket.number ∈ board.served) : board.waiting ⊆ queue := by
  intro other waits
  rcases List.mem_cons.mp (ledger.waiting waits) with rfl | member
  · exact absurd served (ledger.not_served waits)
  · exact member

private theorem length_served (served : ticket.number ∈ board.served) :
    (board.served.erase ticket.number).length + 1 = board.served.length :=
  (List.perm_cons_erase served).length_eq.symm

theorem claim (ticket : Ticket) (ledger : Ledger lines (ticket :: queue) underway board)
    (name : String) (served : ticket.number ∈ board.served) :
    Ledger lines queue (underway + 1) ((board.claim ticket.number).call name) where
  lines_eq := by
    have := ledger.lines_eq
    have := length_served served
    simp only [Switchboard.claim, Switchboard.call]
    omega
  inFlight_eq := congrArg (· + 1) ledger.inFlight_eq
  tickets := tickets_erase ledger served
  nodup := (List.nodup_cons.mp ledger.nodup).2
  drawn := fun ticket member => ledger.drawn ticket (List.mem_cons_of_mem _ member)
  waiting := by
    have others := waiting_of_served ledger served
    exact others
  noIdle := ledger.noIdle

/-- A line that is given back goes to the first ticket that waits, or falls free. -/
private theorem release {board : Switchboard}
    (lines_eq : board.free + board.served.length + board.inFlight + 1 = lines)
    (inFlight_eq : board.inFlight = underway)
    (tickets : (board.waiting.map Ticket.number ++ board.served).Perm (queue.map Ticket.number))
    (nodup : (queue.map Ticket.number).Nodup)
    (drawn : ∀ ticket ∈ queue, ticket.number < board.drawn)
    (waiting : board.waiting ⊆ queue) (noIdle : board.free ≠ 0 → board.waiting = []) :
    Ledger lines queue underway board.release.2 := by
  unfold Switchboard.release
  cases waits : board.waiting with
  | nil =>
      rw [waits] at tickets
      refine ⟨?_, inFlight_eq, tickets, nodup, drawn, List.nil_subset _, fun _ => rfl⟩
      simp only
      omega
  | cons first rest =>
      simp only [waits, List.map_cons, List.cons_append] at tickets
      refine ⟨?_, inFlight_eq, ?_, nodup, drawn, ?_, fun free => ?_⟩
      · simp only [List.length_cons]
        omega
      · exact List.perm_middle.trans tickets
      · exact fun ticket member => waiting (waits ▸ List.mem_cons_of_mem _ member)
      · simp [noIdle free] at waits

theorem hangUp (ledger : Ledger lines queue (underway + 1) board) :
    Ledger lines queue underway board.hangUp.2 := by
  have lines_eq := ledger.lines_eq
  have inFlight_eq := ledger.inFlight_eq
  refine release ?_ ?_ ledger.tickets ledger.nodup ledger.drawn ledger.waiting ledger.noIdle
  · simp only
    omega
  · simp only
    omega

theorem discard (ticket : Ticket) (ledger : Ledger lines (ticket :: queue) underway board) :
    Ledger lines queue underway (board.discard ticket.number).2 := by
  have drawn : ∀ other ∈ queue, other.number < board.drawn :=
    fun other member => ledger.drawn other (List.mem_cons_of_mem _ member)
  have nodup := List.nodup_cons.mp ledger.nodup
  unfold Switchboard.discard
  by_cases served : ticket.number ∈ board.served
  · rw [if_pos (by simpa [Switchboard.isServed] using served)]
    have lines_eq := ledger.lines_eq
    have length := length_served served
    have others := waiting_of_served ledger served
    refine release ?_ ledger.inFlight_eq (tickets_erase ledger served) nodup.2 drawn others
      ledger.noIdle
    simp only [Switchboard.claim]
    omega
  · rw [if_neg (by simpa [Switchboard.isServed] using served)]
    have waits : ticket ∈ board.waiting :=
      (ledger.mem_waiting_or_served List.mem_cons_self).resolve_right served
    have numbers : (board.waiting.map Ticket.number).Nodup :=
      (List.nodup_append.mp (ledger.tickets.nodup_iff.mpr ledger.nodup)).1
    have others : (board.waiting.filter (·.number ≠ ticket.number)).map Ticket.number =
        (board.waiting.map Ticket.number).erase ticket.number := by
      rw [numbers.erase_eq_filter, List.filter_map]
      congr 1
      apply List.filter_congr
      intro other _
      by_cases same : other.number = ticket.number <;> simp [same]
    refine ⟨ledger.lines_eq, ledger.inFlight_eq, ?_, nodup.2, drawn, ?_, fun free => ?_⟩
    · simp only [others]
      have split := (List.perm_cons_erase (List.mem_map_of_mem (f := Ticket.number) waits)).append_right
        board.served
      exact (split.symm.trans ledger.tickets).cons_inv
    · intro other member
      obtain ⟨member, other_ne⟩ := List.mem_filter.mp member
      rcases List.mem_cons.mp (ledger.waiting member) with rfl | member
      · simp at other_ne
      · exact member
    · simp [ledger.noIdle free]

theorem setAlarm (ledger : Ledger lines queue underway board) (number : Nat) :
    Ledger lines queue underway { board with alarms := number } :=
  ⟨ledger.lines_eq, ledger.inFlight_eq, ledger.tickets, ledger.nodup, ledger.drawn,
    ledger.waiting, ledger.noIdle⟩

theorem atTime (ledger : Ledger lines queue underway board) (time : Nat) :
    Ledger lines queue underway (board.atTime time) :=
  ⟨ledger.lines_eq, ledger.inFlight_eq, ledger.tickets, ledger.nodup, ledger.drawn,
    ledger.waiting, ledger.noIdle⟩

end Ledger

/-! ## Turns -/

/-- Lines go to tickets in the order in which these were drawn: those that wait stand in this
    order, after all that have a line. -/
structure InTurn (board : Switchboard) : Prop where
  sorted : board.waiting.Pairwise fun first second => first.number < second.number
  first : ∀ number ∈ board.served, ∀ ticket ∈ board.waiting, number < ticket.number

namespace InTurn

variable {board : Switchboard}

theorem draw {lines underway : Nat} {queue : List Ticket} (inTurn : board.InTurn)
    (ledger : Ledger lines queue underway board) (bell : Bell) : (board.draw bell).InTurn := by
  have drawn : ∀ number, number ∈ board.waiting.map Ticket.number ++ board.served →
      number < board.drawn := by
    intro number member
    obtain ⟨ticket, queued, rfl⟩ := List.mem_map.mp (ledger.tickets.mem_iff.mp member)
    exact ledger.drawn ticket queued
  refine ⟨List.pairwise_append.mpr ⟨inTurn.sorted, List.pairwise_singleton .., ?_⟩, ?_⟩
  · intro ticket waits last member
    obtain rfl := List.mem_singleton.mp member
    exact drawn _ (List.mem_append_left _ (List.mem_map_of_mem waits))
  · intro number served ticket member
    rcases List.mem_append.mp member with waits | member
    · exact inTurn.first number served ticket waits
    · obtain rfl := List.mem_singleton.mp member
      exact drawn _ (List.mem_append_right _ served)

theorem claim (inTurn : board.InTurn) (number : Nat) : (board.claim number).InTurn where
  sorted := inTurn.sorted
  first := fun other served => inTurn.first other (List.mem_of_mem_erase served)

private theorem release (inTurn : board.InTurn) : board.release.2.InTurn := by
  obtain ⟨sorted, first⟩ := inTurn
  unfold Switchboard.release
  cases waits : board.waiting with
  | nil => exact ⟨.nil, nofun⟩
  | cons ticket rest =>
      rw [waits] at sorted first
      obtain ⟨least, sorted⟩ := List.pairwise_cons.mp sorted
      refine ⟨sorted, fun number served other member => ?_⟩
      rcases List.mem_cons.mp served with rfl | served
      · exact least other member
      · exact first number served other (List.mem_cons_of_mem _ member)

theorem hangUp (inTurn : board.InTurn) : board.hangUp.2.InTurn :=
  have still : { board with inFlight := board.inFlight - 1 }.InTurn := ⟨inTurn.sorted, inTurn.first⟩
  still.release

theorem discard (inTurn : board.InTurn) (number : Nat) : (board.discard number).2.InTurn := by
  unfold Switchboard.discard
  split
  · exact (inTurn.claim number).release
  · exact ⟨inTurn.sorted.sublist List.filter_sublist,
      fun other served ticket member => inTurn.first other served ticket (List.mem_filter.mp member).1⟩

end InTurn

private theorem served_release (board : Switchboard) : board.served ⊆ board.release.2.served := by
  unfold release
  cases board.waiting with
  | nil => exact List.Subset.refl _
  | cons => exact List.subset_cons_self ..

theorem served_hangUp (board : Switchboard) : board.served ⊆ board.hangUp.2.served :=
  served_release { board with inFlight := board.inFlight - 1 }

theorem served_discard {board : Switchboard} {number other : Nat} (served : other ∈ board.served)
    (apart : other ≠ number) : other ∈ (board.discard number).2.served := by
  unfold discard
  split
  · exact served_release _ ((List.mem_erase_of_ne apart).mpr served)
  · exact served

/-- Whether a change starts no call. -/
structure StartsNone (board board' : Switchboard) : Prop where
  now : board'.now = board.now
  calls : board'.calls = board.calls
  peak : board'.peak = board.peak
  inFlight : board'.inFlight ≤ board.inFlight

private theorem startsNone_release (board : Switchboard) : board.StartsNone board.release.2 := by
  unfold release
  cases board.waiting <;> exact ⟨rfl, rfl, rfl, Nat.le_refl _⟩

theorem startsNone_hangUp (board : Switchboard) : board.StartsNone board.hangUp.2 :=
  have released := startsNone_release { board with inFlight := board.inFlight - 1 }
  ⟨released.now, released.calls, released.peak,
    Nat.le_trans released.inFlight (Nat.sub_le ..)⟩

theorem startsNone_discard (board : Switchboard) (number : Nat) :
    board.StartsNone (board.discard number).2 := by
  unfold discard
  split
  · have released := startsNone_release (board.claim number)
    exact ⟨released.now, released.calls, released.peak, released.inFlight⟩
  · exact ⟨rfl, rfl, rfl, Nat.le_refl _⟩

/-! ## Announcements -/

/-- Whether a change announces every line that a ticket gets by it, and nothing else. -/
structure Announced (board : Switchboard) (change : Option Bell × Switchboard) : Prop where
  now : change.2.now = board.now
  served : ∀ number ∈ change.2.served, number ∈ board.served ∨
    ∃ ticket ∈ board.waiting, ticket.number = number ∧ change.1 = some ticket.bell
  waiting : ∀ bell, change.1 = some bell → ∃ ticket ∈ board.waiting, ticket.bell = bell

theorem announced_release (board : Switchboard) : Announced board board.release := by
  unfold release
  cases waits : board.waiting with
  | nil => exact ⟨rfl, fun _ => .inl, nofun⟩
  | cons first rest =>
      refine ⟨rfl, fun number served => ?_, fun bell rings => ?_⟩
      · rcases List.mem_cons.mp served with rfl | served
        · exact .inr ⟨first, waits ▸ List.mem_cons_self, rfl, rfl⟩
        · exact .inl served
      · exact ⟨first, waits ▸ List.mem_cons_self, Option.some.inj rings⟩

theorem announced_hangUp (board : Switchboard) : Announced board board.hangUp :=
  have released := announced_release { board with inFlight := board.inFlight - 1 }
  ⟨released.now, released.served, released.waiting⟩

theorem announced_discard (board : Switchboard) (number : Nat) :
    Announced board (board.discard number) := by
  unfold discard
  split
  · have released := announced_release (board.claim number)
    exact ⟨released.now,
      fun other member => (released.served other member).imp_left List.mem_of_mem_erase,
      released.waiting⟩
  · exact ⟨rfl, fun _ => .inl, nofun⟩

end Switchboard

end AddressExpansion
