import Mathlib.Data.List.Perm.Basic
import AddressExpansion.Proofs.Switchboard
import AddressExpansion.Proofs.Task.Change

/-! # Order among sites

What holds of all sites together at any time: the lines and tickets of the switchboard are those of
the lookups, and bells and rosters are wired as the crowds are nested. Main statement: changes keep
this (`Change.orderly`).
-/

namespace AddressExpansion

namespace Site

/-- The ticket with which a site waits for a line, or has one. -/
def ticket? : Site → Option Ticket
  | lookup bell _ _ (.queued number) => some ⟨number, bell⟩
  | _ => none

def isUnderway : Site → Bool
  | lookup _ _ _ (.underway ..) => true
  | _ => false

/-- Whether a site has nothing that is to be given back. -/
def HoldsNothing (site : Site) : Prop :=
  site.ticket? = none ∧ site.isUnderway = false

theorem Unstarted.holdsNothing {bell : Bell} {site : Site} (unstarted : site.Unstarted bell) :
    site.HoldsNothing := by
  match site with
  | fresh .. | crowd .. | lookup _ _ _ .idle => exact ⟨rfl, rfl⟩
  | lookup _ _ _ (.queued _) | lookup _ _ _ (.underway ..) => exact unstarted.elim

theorem Unstarted.bell_eq {bell : Bell} {site : Site} (unstarted : site.Unstarted bell) :
    site.bell = bell := by
  match site with
  | fresh .. | lookup _ _ _ .idle => exact unstarted
  | crowd .. | lookup _ _ _ (.queued _) | lookup _ _ _ (.underway ..) => exact unstarted.elim

theorem Unstarted.roster?_eq {bell : Bell} {site : Site} (unstarted : site.Unstarted bell) :
    site.roster? = none := by
  match site with
  | fresh .. | lookup _ _ _ _ => rfl
  | crowd .. => exact unstarted.elim

def queueOf (sites : List Site) : List Ticket :=
  sites.filterMap ticket?

def underwayOf (sites : List Site) : Nat :=
  sites.countP isUnderway

def rostersOf (sites : List Site) : List Nat :=
  sites.filterMap roster?

@[simp] theorem queueOf_append (front back : List Site) :
    queueOf (front ++ back) = queueOf front ++ queueOf back :=
  List.filterMap_append

@[simp] theorem underwayOf_append (front back : List Site) :
    underwayOf (front ++ back) = underwayOf front + underwayOf back :=
  List.countP_append

@[simp] theorem rostersOf_append (front back : List Site) :
    rostersOf (front ++ back) = rostersOf front ++ rostersOf back :=
  List.filterMap_append

theorem queueOf_holdsNothing {sites : List Site} (free : ∀ site ∈ sites, site.HoldsNothing) :
    queueOf sites = [] :=
  List.filterMap_eq_nil_iff.mpr fun site member => (free site member).1

theorem underwayOf_holdsNothing {sites : List Site} (free : ∀ site ∈ sites, site.HoldsNothing) :
    underwayOf sites = 0 :=
  List.countP_eq_zero.mpr fun site member => by simp [(free site member).2]

theorem mem_rostersOf {sites : List Site} {id : Nat} :
    id ∈ rostersOf sites ↔ ∃ bell, .crowd bell id ∈ sites := by
  simp only [rostersOf, List.mem_filterMap]
  constructor
  · rintro ⟨site, member, same⟩
    cases site with
    | crowd bell id' =>
        obtain rfl := Option.some.inj same
        exact ⟨bell, member⟩
    | fresh | lookup => cases same
  · rintro ⟨bell, member⟩
    exact ⟨_, member, rfl⟩

end Site

open Site

/-- How bells and rosters are wired: every bell stands as the plan has it, and the bell of a crowd
    is the one that the plan gives to its roster. -/
structure Wired (plan : Nat → Bell) (sites : List Site) (rota : Rota) : Prop where
  placed : ∀ site ∈ sites, site.bell.Placed plan rota.rosters.size
  later : ∀ bell ∈ rota.later, bell.Placed plan rota.rosters.size
  crowds : ∀ bell id, .crowd bell id ∈ sites →
    id < rota.rosters.size ∧ bell = plan id ∧ bell.Placed plan id
  nodup : (rostersOf sites).Nodup
  rosters : ∀ roster ∈ rota.rosters, roster.rung.Nodup

namespace Wired

variable {plan : Nat → Bell} {sites front old new back : List Site} {rota : Rota}

/-- Only how many rosters there are, what is put off and what stands on the rosters counts. -/
private theorem congr (wired : Wired plan sites rota) {rota' : Rota}
    (size : rota'.rosters.size = rota.rosters.size) (later : rota'.later = rota.later)
    (rosters : ∀ roster ∈ rota'.rosters, roster.rung.Nodup) :
    Wired plan sites rota' where
  placed := size ▸ wired.placed
  later := by
    rw [later, size]
    exact wired.later
  crowds := size ▸ wired.crowds
  nodup := wired.nodup
  rosters := rosters

theorem ring (wired : Wired plan sites rota) (bell : Bell) : Wired plan sites (rota.ring bell) := by
  refine wired.congr (by simp) (by simp) (Rota.mem_rosters_ring ?_ wired.rosters)
  exact fun roster index nodup => Roster.nodup_rung_enter nodup index

theorem update (wired : Wired plan sites rota) (id : Nat) {f : Roster → Roster}
    (fewer : ∀ r, rota.rosters[id]? = some r → (f r).rung.Sublist r.rung) :
    Wired plan sites (rota.update id f) := by
  refine wired.congr (by simp) (by simp) fun roster member => ?_
  rcases Rota.mem_rosters_update member with same | ⟨before, here, rfl⟩
  · exact wired.rosters roster same
  · exact (wired.rosters before (Array.mem_of_getElem? here)).sublist (fewer before here)

theorem putOff (wired : Wired plan sites rota) {bell : Bell}
    (placed : bell.Placed plan rota.rosters.size) : Wired plan sites (rota.putOff bell) where
  placed := wired.placed
  later := by
    intro other member
    rcases List.mem_cons.mp member with rfl | member
    · exact placed
    · exact wired.later other member
  crowds := wired.crowds
  nodup := wired.nodup
  rosters := wired.rosters

/-- Sites may give way to others with the same bells that are no crowds. -/
theorem replace (wired : Wired plan (front ++ old ++ back) rota)
    (same : ∀ site ∈ new, (∃ before ∈ old, site.bell = before.bell) ∧ site.roster? = none) :
    Wired plan (front ++ new ++ back) rota := by
  have none : rostersOf new = [] :=
    List.filterMap_eq_nil_iff.mpr fun site member => (same site member).2
  refine ⟨?_, wired.later, ?_, ?_, wired.rosters⟩
  · intro site member
    rcases List.mem_append.mp member with member | after
    · rcases List.mem_append.mp member with before | here
      · exact wired.placed site (by simp [before])
      · obtain ⟨⟨instead, there, bell⟩, -⟩ := same site here
        rw [bell]
        exact wired.placed instead (by simp [there])
    · exact wired.placed site (by simp [after])
  · intro bell id member
    rcases List.mem_append.mp member with member | after
    · rcases List.mem_append.mp member with before | here
      · exact wired.crowds bell id (by simp [before])
      · exact absurd (same _ here).2 (by simp [roster?])
    · exact wired.crowds bell id (by simp [after])
  · have fewer : (rostersOf front ++ rostersOf back).Sublist
        (rostersOf front ++ rostersOf old ++ rostersOf back) :=
      (List.sublist_append_left _ _).append (List.Sublist.refl _)
    simpa [none] using (by simpa using wired.nodup : List.Nodup _).sublist fewer

theorem mem_fresh_sitesOfCrowd {roster index : Nat} {bell : Bell} {scope : Scope}
    {items : List Term} {site : Site}
    (member : site ∈ Task.sitesOfCrowd roster bell index (items.map (.fresh scope))) :
    ∃ i item, i < items.length ∧ site = .fresh (.part roster (index + i) bell) scope item := by
  obtain ⟨i, part, located, member⟩ := Task.mem_sitesOfCrowd.mp member
  rw [List.getElem?_map, Option.map_eq_some_iff] at located
  obtain ⟨item, located, rfl⟩ := located
  exact ⟨i, item, (List.getElem?_eq_some_iff.mp located).1, List.mem_singleton.mp member⟩

private theorem mem_opened {bell : Bell} {scope : Scope} {items : List Term} {roster : Nat}
    {site : Site}
    (member : site ∈ front ++ (.crowd bell roster ::
      Task.sitesOfCrowd roster bell 0 (items.map (.fresh scope))) ++ back) :
    (site ∈ front ∨ site ∈ back) ∨ site = .crowd bell roster ∨
      ∃ i item, site = .fresh (.part roster i bell) scope item := by
  rcases List.mem_append.mp member with member | after
  · rcases List.mem_append.mp member with before | member
    · exact .inl (.inl before)
    · rcases List.mem_cons.mp member with same | member
      · exact .inr (.inl same)
      · obtain ⟨i, item, -, same⟩ := mem_fresh_sitesOfCrowd member
        exact .inr (.inr ⟨_, item, same⟩)
  · exact .inl (.inr after)

private theorem rostersOf_opened (front back : List Site) (bell : Bell) (scope : Scope)
    (items : List Term) (roster : Nat) :
    rostersOf (front ++ (.crowd bell roster ::
        Task.sitesOfCrowd roster bell 0 (items.map (.fresh scope))) ++ back) =
      rostersOf front ++ roster :: rostersOf back := by
  have none : rostersOf (Task.sitesOfCrowd roster bell 0 (items.map (.fresh scope))) = [] := by
    refine List.filterMap_eq_nil_iff.mpr fun site member => ?_
    obtain ⟨i, item, -, rfl⟩ := mem_fresh_sitesOfCrowd member
    rfl
  have crowd : ∀ sites, rostersOf (.crowd bell roster :: sites) = roster :: rostersOf sites :=
    fun _ => rfl
  rw [rostersOf_append, rostersOf_append, crowd, none, List.append_assoc, List.singleton_append]

/-- A list that becomes a crowd gets a roster of its own. -/
theorem openCrowd {bell : Bell} {scope : Scope} {items : List Term}
    (wired : Wired plan (front ++ [.fresh bell scope (.list items)] ++ back) rota) :
    Wired (fun id => if id = rota.rosters.size then bell else plan id)
      (front ++ (.crowd bell rota.rosters.size ::
        Task.sitesOfCrowd rota.rosters.size bell 0 (items.map (.fresh scope))) ++ back)
      (rota.add (.ofParts items.length)) := by
  have size : (rota.add (.ofParts items.length)).rosters.size =
      rota.rosters.size + 1 := Array.size_push ..
  have keeps : ∀ {count : Nat} {other : Bell}, count ≤ rota.rosters.size →
      other.Placed plan count →
        other.Placed (fun id => if id = rota.rosters.size then bell else plan id) count :=
    fun low placed => placed.congr fun id lower => if_neg (by omega)
  have here : bell.Placed plan rota.rosters.size :=
    wired.placed (.fresh bell scope (.list items)) (by simp)
  have old : ∀ site, site ∈ front ∨ site ∈ back →
      site ∈ front ++ [.fresh bell scope (.list items)] ++ back := by
    rintro site (before | after) <;> simp [*]
  constructor
  case placed =>
    intro site member
    rw [size]
    rcases mem_opened member with other | rfl | ⟨i, item, rfl⟩
    · exact (keeps (Nat.le_refl _) (wired.placed site (old site other))).mono (Nat.le_succ _)
    · exact (keeps (Nat.le_refl _) here).mono (Nat.le_succ _)
    · exact ⟨Nat.lt_succ_self _, (if_pos rfl).symm, keeps (Nat.le_refl _) here⟩
  case later =>
    intro other member
    rw [size]
    exact (keeps (Nat.le_refl _) (wired.later other member)).mono (Nat.le_succ _)
  case crowds =>
    intro outer id member
    rw [size]
    rcases mem_opened member with other | same | ⟨i, item, same⟩
    · obtain ⟨low, planned, placed⟩ := wired.crowds outer id (old _ other)
      exact ⟨Nat.lt_succ_of_lt low, planned.trans (if_neg (by omega)).symm,
        keeps (Nat.le_of_lt low) placed⟩
    · obtain ⟨rfl, rfl⟩ := Site.crowd.inj same
      exact ⟨Nat.lt_succ_self _, (if_pos rfl).symm, keeps (Nat.le_refl _) here⟩
    · cases same
  case nodup =>
    have before : (rostersOf front ++ rostersOf back).Nodup := by
      have none : rostersOf [.fresh bell scope (.list items)] = [] := rfl
      simpa only [rostersOf_append, none, List.append_nil] using wired.nodup
    -- The rosters of crowds exist already, and the new one is the next.
    have fresh : rota.rosters.size ∉ rostersOf front ++ rostersOf back := by
      intro member
      obtain ⟨outer, member⟩ := mem_rostersOf.mp (rostersOf_append front back ▸ member)
      exact Nat.lt_irrefl _ (wired.crowds outer _ (old _ (List.mem_append.mp member))).1
    rw [rostersOf_opened, List.nodup_middle, List.nodup_cons]
    exact ⟨fresh, before⟩
  case rosters =>
    intro roster member
    rcases Array.mem_push.mp member with member | rfl
    · exact wired.rosters roster member
    · exact List.nodup_range

end Wired

/-- The order among all sites: the ledger of the switchboard is that of the sites, and they are
    wired by some plan. -/
structure Orderly (lines : Nat) (sites : List Site) (p : Progress) : Prop where
  ledger : Switchboard.Ledger lines (queueOf sites) (underwayOf sites) p.board
  wired : ∃ plan, Wired plan sites p.rota

theorem Orderly.drawn_not_served {lines : Nat} {sites : List Site} {p : Progress}
    (orderly : Orderly lines sites p) :
    p.board.drawn ∉ p.board.served := by
  intro served
  have member := orderly.ledger.tickets.mem_iff.mp (List.mem_append_right _ served)
  obtain ⟨ticket, drawn, same⟩ := List.mem_map.mp member
  exact absurd same (Nat.ne_of_lt (orderly.ledger.drawn ticket drawn))

namespace Task

variable {env : Environment} {lines : Nat} {front old new back : List Site} {p p' : Progress}

private theorem wired_hand {plan : Nat → Bell} {sites : List Site} {rota : Rota}
    (wired : Wired plan sites rota) (bell? : Option Bell) :
    Wired plan sites (bell?.elim rota rota.ring) := by
  cases bell? with
  | none => exact wired
  | some bell => exact wired.ring bell

private theorem ledger_around {held : List Site} {board : Switchboard} :
    Switchboard.Ledger lines (queueOf (front ++ held ++ back))
        (underwayOf (front ++ held ++ back)) board ↔
      Switchboard.Ledger lines (queueOf held ++ queueOf (front ++ back))
        (underwayOf (front ++ back) + underwayOf held) board := by
  have tickets : (queueOf (front ++ held ++ back)).Perm
      (queueOf held ++ queueOf (front ++ back)) := by
    simp only [queueOf_append]
    rw [← List.append_assoc]
    exact List.perm_append_comm.append_right _
  have calls : underwayOf (front ++ held ++ back) =
      underwayOf (front ++ back) + underwayOf held := by
    simp only [underwayOf_append]
    omega
  rw [calls]
  exact ⟨(·.congr_perm tickets), (·.congr_perm tickets.symm)⟩

private theorem ledger_holdsNothing {board : Switchboard}
    (ledger : Switchboard.Ledger lines (queueOf (front ++ old ++ back))
      (underwayOf (front ++ old ++ back)) board)
    (before : ∀ site ∈ old, site.HoldsNothing) (after : ∀ site ∈ new, site.HoldsNothing) :
    Switchboard.Ledger lines (queueOf (front ++ new ++ back))
      (underwayOf (front ++ new ++ back)) board := by
  simpa only [queueOf_append, underwayOf_append, queueOf_holdsNothing before,
    underwayOf_holdsNothing before, queueOf_holdsNothing after, underwayOf_holdsNothing after]
    using ledger

private theorem wired_lookup {plan : Nat → Bell} {rota : Rota} {bell : Bell} {scope : Scope}
    {name : String} {stage stage' : Stage}
    (wired : Wired plan (front ++ [.lookup bell scope name stage] ++ back) rota) :
    Wired plan (front ++ [.lookup bell scope name stage'] ++ back) rota := by
  refine wired.replace fun site member => ?_
  obtain rfl := List.mem_singleton.mp member
  exact ⟨⟨_, List.mem_singleton_self _, rfl⟩, rfl⟩

/-- A change keeps the order among all sites. -/
theorem Change.orderly (change : Change env old p new p')
    (orderly : Orderly lines (front ++ old ++ back) p) :
    Orderly lines (front ++ new ++ back) p' := by
  obtain ⟨ledger, plan, wired⟩ := orderly
  cases change with
  | remark messages => exact ⟨by simpa using ledger, plan, by simpa using wired⟩
  | spend => exact ⟨ledger, plan, wired⟩
  | unfold unfolds =>
      refine ⟨ledger_holdsNothing ledger ?_ ?_, plan, wired.replace ?_⟩
      · intro site member
        obtain rfl := List.mem_singleton.mp member
        exact ⟨rfl, rfl⟩
      · exact fun site member => (unfolds.unstarted site member).holdsNothing
      · intro site member
        have unstarted := unfolds.unstarted site member
        exact ⟨⟨_, List.mem_singleton_self _, unstarted.bell_eq⟩, unstarted.roster?_eq⟩
  | openCrowd many =>
      refine ⟨ledger_holdsNothing ledger ?_ ?_, _, wired.openCrowd⟩
      · intro site member
        obtain rfl := List.mem_singleton.mp member
        exact ⟨rfl, rfl⟩
      · intro site member
        rcases List.mem_cons.mp member with rfl | member
        · exact ⟨rfl, rfl⟩
        · obtain ⟨i, item, -, rfl⟩ := Wired.mem_fresh_sitesOfCrowd member
          exact ⟨rfl, rfl⟩
  | @putOff bell scope name stage =>
      exact ⟨ledger, plan, wired.putOff (wired.placed (.lookup bell scope name stage) (by simp))⟩
  | draw busy =>
      exact ⟨ledger_around.mpr ((ledger_around.mp ledger).draw _ busy), plan, wired_lookup wired⟩
  | take idle =>
      exact ⟨ledger_around.mpr ((ledger_around.mp ledger).take _ idle), plan, wired_lookup wired⟩
  | claim served =>
      rename_i bell scope name ticket
      have claimed := Switchboard.Ledger.claim ⟨ticket, bell⟩ (ledger_around.mp ledger) name served
      exact ⟨ledger_around.mpr claimed, plan, wired_lookup wired⟩
  | setAlarm early =>
      exact ⟨ledger_around.mpr ((ledger_around.mp ledger).setAlarm _), plan, wired_lookup wired⟩
  | hangUp due =>
      have ended : Switchboard.Ledger lines (queueOf (front ++ [] ++ back))
          (underwayOf (front ++ [] ++ back)) _ :=
        ledger_around.mpr (ledger_around.mp ledger).hangUp
      refine ⟨ledger_holdsNothing ended (by simp) ?_, plan, wired_hand (wired.replace ?_) _⟩
      · exact fun site member => (answered_unstarted site member).holdsNothing
      · intro site member
        have unstarted := answered_unstarted site member
        exact ⟨⟨_, List.mem_singleton_self _, unstarted.bell_eq⟩, unstarted.roster?_eq⟩
  | roster f fewer => exact ⟨ledger, plan, wired.update _ fewer⟩
  | ring => exact ⟨ledger, plan, wired.ring _⟩

theorem orderly_abandon {site : Site} (orderly : Orderly lines (front ++ site :: back) p) :
    Orderly lines (front ++ back) (site.abandon p) := by
  obtain ⟨ledger, plan, wired⟩ := orderly
  rw [← List.singleton_append, ← List.append_assoc] at ledger wired
  have fewer : ∀ {rota}, Wired plan (front ++ [site] ++ back) rota →
      Wired plan (front ++ back) rota := fun {rota} wired => by
    have without : Wired plan (front ++ [] ++ back) rota := wired.replace (by simp)
    simpa using without
  have empty : front ++ back = front ++ [] ++ back := by simp
  match site with
  | .fresh .. | .lookup _ _ _ .idle =>
      refine ⟨?_, plan, fewer wired⟩
      rw [empty]
      refine ledger_holdsNothing ledger ?_ (by simp)
      intro site member
      obtain rfl := List.mem_singleton.mp member
      exact ⟨rfl, rfl⟩
  | .crowd bell roster =>
      refine ⟨?_, plan, (fewer wired).update _ fun r _ => .refl _⟩
      rw [empty]
      refine ledger_holdsNothing ledger ?_ (by simp)
      intro site member
      obtain rfl := List.mem_singleton.mp member
      exact ⟨rfl, rfl⟩
  | .lookup bell scope name (.queued ticket) =>
      have discarded := Switchboard.Ledger.discard ⟨ticket, bell⟩ (ledger_around.mp ledger)
      exact ⟨discarded, plan, wired_hand (fewer wired) _⟩
  | .lookup _ _ _ (.underway ..) =>
      exact ⟨(ledger_around.mp ledger).hangUp, plan, wired_hand (fewer wired) _⟩

end Task

end AddressExpansion
