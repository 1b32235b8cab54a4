import AddressExpansion.Proofs.Task.Orderly

/-! # What a visit leaves alone

While a task is visited, the sites outside it stay as they are. Bells that rang there still ring, an
armed roster passes its next ring on, and a lookup that gets a line is told so. Main statement:
steps of a task that is one of several frame all sites outside it (`Situated.steps`).
-/

namespace AddressExpansion

open Site

/-- What sites have in common with a later progress while only others changed. -/
structure Frame (others : List Site) (p p' : Progress) : Prop where
  now : p'.board.now = p.board.now
  later : p.rota.later ⊆ p'.rota.later
  rung : ∀ site ∈ others, p.rota.HasRung site.bell → p'.rota.HasRung site.bell
  /-- A roster that was armed is as it was, or it passed a ring on. -/
  passed : ∀ bell id, .crowd bell id ∈ others → p.rota.IsArmed id →
    p'.rota.rosters[id]? = p.rota.rosters[id]? ∨ p'.rota.HasRung bell
  /-- The bell of a lookup that got a line rang. -/
  served : ∀ bell scope name number, .lookup bell scope name (.queued number) ∈ others →
    number ∈ p'.board.served → number ∈ p.board.served ∨ p'.rota.HasRung bell

namespace Frame

variable {others : List Site} {p p' p'' : Progress}

theorem of_same (board : p'.board = p.board) (rota : p'.rota = p.rota) : Frame others p p' where
  now := by rw [board]
  later := by rw [rota]; exact List.Subset.refl _
  rung := fun _ _ rung => rota ▸ rung
  passed := fun _ _ _ _ => .inl (by rw [rota])
  served := fun _ _ _ _ _ served => .inl (board ▸ served)

theorem refl : Frame others p p := of_same rfl rfl

theorem trans (first : Frame others p p') (second : Frame others p' p'') :
    Frame others p p'' where
  now := second.now.trans first.now
  later := List.Subset.trans first.later second.later
  rung := fun site member rung => second.rung site member (first.rung site member rung)
  passed := by
    intro bell id member armed
    rcases first.passed bell id member armed with same | rung
    · have armed' : p'.rota.IsArmed id := by
        unfold Rota.IsArmed
        rwa [same]
      exact (second.passed bell id member armed').imp_left (·.trans same)
    · exact .inr (second.rung _ member rung)
  served := by
    intro bell scope name number member served
    rcases second.served bell scope name number member served with served | rung
    · exact (first.served bell scope name number member served).imp_right
        (second.rung _ member)
    · exact .inr rung

theorem ring {plan : Nat → Bell} {sites : List Site} (wired : Wired plan sites p.rota)
    (subset : others ⊆ sites) {bell : Bell} (placed : bell.Placed plan p.rota.rosters.size) :
    Frame others p (p.onRota (·.ring bell)) where
  now := rfl
  later := by
    simp only [Progress.onRota_rota, Rota.later_ring]
    exact List.Subset.refl _
  rung := fun _ _ rung => rung.ring
  passed := by
    intro outer id member armed
    obtain ⟨-, rfl, -⟩ := wired.crowds outer id (subset member)
    exact Rota.ring_passed placed armed
  served := fun _ _ _ _ _ served => .inl served

/-- A roster that is not among some sites, and on which none of them stands, may change. -/
theorem update {id : Nat} {f : Roster → Roster}
    (apart : ∀ site ∈ others, site.bell.roster? ≠ some id ∧ site.roster? ≠ some id) :
    Frame others p (p.onRota (·.update id f)) where
  now := rfl
  later := List.Subset.refl _
  rung := fun site member rung => (Rota.hasRung_update_ne (apart site member).1).mpr rung
  passed := by
    intro bell id' member _
    have other : id ≠ id' := fun same => (apart _ member).2 (congrArg some same.symm)
    exact .inl (Rota.rosters_update_ne other)
  served := fun _ _ _ _ _ served => .inl served

theorem add {plan : Nat → Bell} {sites : List Site} (wired : Wired plan sites p.rota)
    (subset : others ⊆ sites) (roster : Roster) : Frame others p (p.onRota (·.add roster)) := by
  have older : ∀ id, id < p.rota.rosters.size →
      (p.rota.add roster).rosters[id]? = p.rota.rosters[id]? := fun id low => by
    simp only [Rota.add, Array.getElem?_push, if_neg (Nat.ne_of_lt low)]
  refine ⟨rfl, List.Subset.refl _, ?_, ?_, fun _ _ _ _ _ served => .inl served⟩
  · intro site member rung
    have placed := wired.placed site (subset member)
    cases bell : site.bell with
    | main =>
        rw [bell] at rung
        exact rung
    | part id index outer =>
        rw [bell] at rung placed
        change (p.rota.add roster).isRung id index
        rwa [Rota.isRung_congr (older id placed.1)]
  · intro bell id member _
    exact .inl (older id (wired.crowds bell id (subset member)).1)

/-- What is handed over frames everything in order, if it is announced. -/
theorem handOver {lines : Nat} {sites : List Site} (orderly : Orderly lines sites p)
    (subset : others ⊆ sites) {f : Switchboard → Option Bell × Switchboard}
    (announced : Switchboard.Announced p.board (f p.board)) : Frame others p (p.handOver f) := by
  obtain ⟨ledger, plan, wired⟩ := orderly
  have atSite : ∀ ticket ∈ p.board.waiting, ∃ site ∈ sites, site.ticket? = some ticket :=
    fun ticket waits => List.mem_filterMap.mp (ledger.waiting waits)
  have bell_eq : ∀ {site : Site} {ticket : Ticket}, site.ticket? = some ticket →
      site.bell = ticket.bell := by
    intro site ticket same
    match site with
    | .lookup bell _ _ (.queued number) =>
        obtain rfl := Option.some.inj same
        rfl
  -- Whatever rings is the bell of a ticket, and so of a site.
  have rings : Frame others p (p.onRota fun rota => (f p.board).1.elim rota rota.ring) := by
    cases rang : (f p.board).1 with
    | none => exact .refl
    | some bell =>
        obtain ⟨ticket, waits, rfl⟩ := announced.waiting bell rang
        obtain ⟨site, member, same⟩ := atSite ticket waits
        exact .ring wired subset (bell_eq same ▸ wired.placed site member)
  refine ⟨announced.now, rings.later, rings.rung, rings.passed, ?_⟩
  intro bell scope name number member served
  refine (announced.served number served).imp_right ?_
  rintro ⟨ticket, waits, rfl, rang⟩
  have here : (⟨ticket.number, bell⟩ : Ticket) ∈ queueOf sites :=
    List.mem_filterMap.mpr ⟨_, subset member, rfl⟩
  obtain rfl : ticket.bell = bell :=
    congrArg Ticket.bell (ledger.eq_of_number (ledger.waiting waits) here rfl)
  obtain ⟨site, there, same⟩ := atSite _ waits
  simp only [Progress.handOver_rota, rang, Option.elim_some]
  have placed : ticket.bell.Placed plan p.rota.rosters.size :=
    bell_eq same ▸ wired.placed site there
  exact Rota.hasRung_ring placed

end Frame

/-- Whether sites do not stand on the rosters among others. -/
def Apart (others sites : List Site) : Prop :=
  ∀ site ∈ others, ∀ id ∈ rostersOf sites, site.bell.roster? ≠ some id

namespace Task

variable {env : Environment} {lines : Nat} {before after others front old new back : List Site}
  {bell : Bell} {task task' : Task} {p p' : Progress}

private theorem ne_of_nodup {site : Site} {id : Nat} (nodup : (rostersOf (front ++ old ++ back)).Nodup)
    (other : site ∈ front ++ back) (member : id ∈ rostersOf old) : site.roster? ≠ some id := by
  intro same
  have elsewhere : id ∈ rostersOf front ++ rostersOf back := by
    rw [← rostersOf_append]
    exact List.mem_filterMap.mpr ⟨site, other, same⟩
  rw [rostersOf_append, rostersOf_append] at nodup
  have split := (List.perm_append_comm.append_right (rostersOf back)).nodup_iff.mp nodup
  rw [List.append_assoc] at split
  exact (List.nodup_append.mp split).2.2 id member id elsewhere rfl

/-- A change frames the sites around it that do not stand on its rosters. -/
theorem Change.frame (change : Change env old p new p')
    (orderly : Orderly lines (front ++ old ++ back) p) (around : others ⊆ front ++ back)
    (apart : Apart others old) : Frame others p p' := by
  have subset : others ⊆ front ++ old ++ back := by
    intro site member
    rcases List.mem_append.mp (around member) with member | member <;> simp [member]
  obtain ⟨plan, wired⟩ := orderly.wired
  cases change with
  | remark => exact .of_same (by simp) (by simp)
  | spend | unfold => exact .of_same rfl rfl
  | openCrowd => exact .add wired subset _
  | putOff =>
      exact ⟨rfl, List.subset_cons_self _ _, fun _ _ rung => rung, fun _ _ _ _ => .inl rfl,
        fun _ _ _ _ _ served => .inl served⟩
  | draw | take | setAlarm =>
      exact ⟨rfl, List.Subset.refl _, fun _ _ rung => rung, fun _ _ _ _ => .inl rfl,
        fun _ _ _ _ _ served => .inl served⟩
  | claim =>
      exact ⟨rfl, List.Subset.refl _, fun _ _ rung => rung, fun _ _ _ _ => .inl rfl,
        fun _ _ _ _ _ served => .inl (List.mem_of_mem_erase served)⟩
  | hangUp =>
      exact (Frame.handOver orderly subset (Switchboard.announced_hangUp _)).trans
        (.of_same rfl rfl)
  | @roster bell id =>
      have here : id ∈ rostersOf [.crowd bell id] := mem_rostersOf.mpr ⟨bell, by simp⟩
      exact .update fun site member =>
        ⟨apart site member id here, ne_of_nodup wired.nodup (around member) here⟩
  | @ring bell id =>
      exact .ring wired subset (wired.placed (.crowd bell id) (by simp))

/-- A change brings no roster on which anybody around it stands. -/
theorem Change.apart (change : Change env old p new p')
    (orderly : Orderly lines (front ++ old ++ back) p) (around : others ⊆ front ++ back)
    (apart : Apart others old) : Apart others new := by
  have none : ∀ {bell sites}, (∀ site ∈ sites, site.Unstarted bell) → Apart others sites := by
    intro bell sites unstarted site _ id member
    obtain ⟨outer, member⟩ := mem_rostersOf.mp member
    exact (unstarted _ member).elim
  cases change with
  | remark | spend | putOff | roster | ring => exact apart
  | unfold unfolds => exact none unfolds.unstarted
  | hangUp => exact none answered_unstarted
  | draw | take | claim | setAlarm =>
      intro site _ id member
      obtain ⟨outer, member⟩ := mem_rostersOf.mp member
      simp at member
  | openCrowd =>
      intro site there id member
      obtain ⟨outer, member⟩ := mem_rostersOf.mp member
      rcases List.mem_cons.mp member with same | member
      · obtain ⟨rfl, rfl⟩ := Site.crowd.inj same
        obtain ⟨plan, wired⟩ := orderly.wired
        have placed := wired.placed site <| by
          rcases List.mem_append.mp (around there) with member | member <;> simp [member]
        exact placed.roster?_ne (Nat.le_refl _)
      · obtain ⟨i, item, -, same⟩ := Wired.mem_fresh_sitesOfCrowd member
        cases same

/-- A site that is given up frames the sites around it that do not stand on it. -/
theorem frame_abandon {site : Site} (orderly : Orderly lines (front ++ site :: back) p)
    (around : others ⊆ front ++ back) (apart : Apart others [site]) :
    Frame others p (site.abandon p) := by
  have subset : others ⊆ front ++ site :: back := by
    intro other member
    rcases List.mem_append.mp (around member) with member | member <;> simp [member]
  obtain ⟨plan, wired⟩ := orderly.wired
  match site with
  | .fresh .. | .lookup _ _ _ .idle => exact .refl
  | .lookup _ _ _ (.queued number) =>
      exact .handOver (f := (·.discard number)) orderly subset (Switchboard.announced_discard _ _)
  | .lookup _ _ _ (.underway ..) =>
      exact .handOver orderly subset (Switchboard.announced_hangUp _)
  | .crowd bell id =>
      have here : id ∈ rostersOf [.crowd bell id] := mem_rostersOf.mpr ⟨bell, by simp⟩
      have nodup := wired.nodup
      rw [← List.singleton_append, ← List.append_assoc] at nodup
      exact .update fun other member =>
        ⟨apart other member id here, ne_of_nodup nodup (around member) here⟩

/-- A task among other sites: all is in order, and none of the others stands on a roster in it. -/
structure Situated (lines : Nat) (before after : List Site) (bell : Bell) (task : Task)
    (p : Progress) : Prop where
  orderly : Orderly lines (before ++ task.sites bell ++ after) p
  apart : Apart (before ++ after) (task.sites bell)

/-- Steps of a task among other sites frame the others. -/
theorem Situated.steps {x y : Task × Progress} (situated : Situated lines before after bell x.1 x.2)
    (steps : Steps env bell x y) :
    Situated lines before after bell y.1 y.2 ∧ Frame (before ++ after) x.2 y.2 := by
  have regroup : ∀ front middle back : List Site,
      before ++ (front ++ middle ++ back) ++ after =
        (before ++ front) ++ middle ++ (back ++ after) := by simp
  have around : ∀ front back : List Site,
      before ++ after ⊆ (before ++ front) ++ (back ++ after) := by
    intro front back site member
    rcases List.mem_append.mp member with member | member <;> simp [member]
  have kept := steps.keepsSites (I := fun sites p =>
    Orderly lines (before ++ sites ++ after) p ∧ Apart (before ++ after) sites ∧
      Frame (before ++ after) x.2 p) ?_ ?_ [] []
    (by simpa only [List.nil_append, List.append_nil] using
      ⟨situated.orderly, situated.apart, Frame.refl⟩)
  · simp only [List.nil_append, List.append_nil] at kept
    exact ⟨⟨kept.1, kept.2.1⟩, kept.2.2⟩
  · rintro front old new back p p' change ⟨orderly, apart, frame⟩
    rw [regroup] at orderly
    have here : Apart (before ++ after) old := fun site there id member =>
      apart site there id (by simp [member])
    refine ⟨by rw [regroup]; exact change.orderly orderly, ?_,
      frame.trans (change.frame orderly (around ..) here)⟩
    have changed := change.apart orderly (around ..) here
    intro site there id member
    simp only [rostersOf_append, List.mem_append] at member
    rcases member with (member | member) | member
    · exact apart site there id (by simp [member])
    · exact changed site there id member
    · exact apart site there id (by simp [member])
  · rintro front site back p ⟨orderly, apart, frame⟩
    rw [show before ++ (front ++ site :: back) ++ after =
      (before ++ front) ++ site :: (back ++ after) by simp] at orderly
    rw [show before ++ (front ++ back) ++ after = (before ++ front) ++ (back ++ after) by simp]
    refine ⟨orderly_abandon orderly, ?_, frame.trans (frame_abandon orderly (around ..) ?_)⟩
    · intro other there id member
      refine apart other there id ?_
      simp only [rostersOf_append, List.mem_append] at member
      rw [← List.singleton_append]
      simp only [rostersOf_append, List.mem_append]
      exact member.imp_right .inr
    · intro other there id member
      refine apart other there id ?_
      rw [← List.singleton_append]
      simp only [rostersOf_append, List.mem_append]
      exact .inr (.inl member)

theorem Situated.update (situated : Situated lines before after bell task p) (id : Nat)
    {f : Roster → Roster}
    (fewer : ∀ r, p.rota.rosters[id]? = some r → (f r).rung.Sublist r.rung) :
    Situated lines before after bell task (p.onRota (·.update id f)) := by
  obtain ⟨⟨ledger, plan, wired⟩, apart⟩ := situated
  exact ⟨⟨ledger, plan, wired.update id fewer⟩, apart⟩

theorem Situated.whenTaken {roster : Nat} {parts : List Task}
    (situated : Situated lines before after bell (.crowd roster parts) p) (inner : Visit) :
    Situated lines before after bell (.crowd roster parts)
      (Crowd.taken (crowdOf inner bell roster) parts p) :=
  situated.update roster fun _ found =>
    (List.tail_sublist _).trans (Crowd.rungParts_sublist found)

theorem Situated.whenArmed {roster : Nat} {parts : List Task}
    (situated : Situated lines before after bell (.crowd roster parts) p) (inner : Visit) :
    Situated lines before after bell (.crowd roster parts)
      (Crowd.armed (crowdOf inner bell roster) p) :=
  situated.update roster fun _ _ => List.Sublist.refl _

/-! ## Parts among their neighbours -/

theorem Situated.outside (situated : Situated lines before after bell task p) {outer : Bell}
    (within : Bell.Within outer bell) {id : Nat} (member : id ∈ rostersOf (task.sites bell)) :
    outer.roster? ≠ some id := by
  obtain ⟨around, member⟩ := mem_rostersOf.mp member
  obtain ⟨plan, wired⟩ := situated.orderly.wired
  obtain ⟨-, -, placed⟩ := wired.crowds around id (by simp [member])
  have inside := (bell_of_mem_sites member).1
  exact (placed.outward (within.trans inside)).roster?_ne (Nat.le_refl id)

/-- A part is apart from sites that stand outside it or on rosters among its neighbours. -/
private theorem apart_neighbours {inner : Bell} {part : Task}
    (orderly : Orderly lines (before ++ part.sites inner ++ after) p)
    (others_from : ∀ site ∈ others,
      Bell.Within site.bell inner ∨ ∃ id ∈ rostersOf (before ++ after), site.bell.roster? = some id) :
    Apart others (part.sites inner) := by
  intro site there id member
  rcases others_from site there with within | ⟨id', known, stands⟩
  · obtain ⟨around, member⟩ := mem_rostersOf.mp member
    obtain ⟨plan, wired⟩ := orderly.wired
    obtain ⟨-, -, placed⟩ := wired.crowds around id (by simp [member])
    have inside := (bell_of_mem_sites member).1
    exact (placed.outward (within.trans inside)).roster?_ne (Nat.le_refl id)
  · rw [stands]
    rintro ⟨⟩
    obtain ⟨plan, wired⟩ := orderly.wired
    obtain ⟨outer, known⟩ := mem_rostersOf.mp known
    exact ne_of_nodup wired.nodup known member rfl

theorem Situated.ofGather {scope : Scope} {gathering : Gathering} {body : Task}
    (situated : Situated lines before after bell (.gather scope gathering body) p) :
    Situated lines before after bell body p :=
  ⟨situated.orderly, situated.apart⟩

private theorem bell_of_mem_join {parts : List Task} {site : Site}
    (member : site ∈ sitesOfJoin bell parts) :
    site.bell = bell ∨ ∃ id ∈ rostersOf (sitesOfJoin bell parts), site.bell.roster? = some id := by
  have inside : site ∈ (join parts).sites bell := member
  obtain ⟨-, same | ⟨id, index, around, stands, member⟩⟩ := bell_of_mem_sites inside
  · exact .inl same
  · exact .inr ⟨id, mem_rostersOf.mpr ⟨around, member⟩, by rw [stands]; rfl⟩

theorem Situated.joinHead {part : Task} {parts : List Task}
    (situated : Situated lines before after bell (.join (part :: parts)) p) :
    Situated lines before (sitesOfJoin bell parts ++ after) bell part p := by
  obtain ⟨orderly, apart⟩ := situated
  have orderly' : Orderly lines (before ++ part.sites bell ++ (sitesOfJoin bell parts ++ after))
      p := by simpa only [sites, sitesOfJoin, List.append_assoc] using orderly
  refine ⟨orderly', ?_⟩
  intro site there id member
  simp only [List.mem_append] at there
  rcases there with there | there | there
  · exact apart site (by simp [there]) id (by simp [sites, sitesOfJoin, member])
  · have apart' : Apart (sitesOfJoin bell parts) (part.sites bell) := by
      refine apart_neighbours orderly' fun site there => ?_
      rcases bell_of_mem_join there with same | ⟨id, known, stands⟩
      · exact .inl (same ▸ .refl)
      · exact .inr ⟨id, by simp [known], stands⟩
    exact apart' site there id member
  · exact apart site (by simp [there]) id (by simp [sites, sitesOfJoin, member])

theorem Situated.joinTail {part : Task} {parts : List Task}
    (situated : Situated lines before after bell (.join (part :: parts)) p) :
    Situated lines (before ++ part.sites bell) after bell (.join parts) p := by
  obtain ⟨orderly, apart⟩ := situated
  have orderly' : Orderly lines ((before ++ part.sites bell) ++ (join parts).sites bell ++ after)
      p := by simpa only [sites, sitesOfJoin, List.append_assoc] using orderly
  refine ⟨orderly', ?_⟩
  intro site there id member
  simp only [List.mem_append] at there
  have inside : id ∈ rostersOf ((join (part :: parts)).sites bell) := by
    rw [sites, sitesOfJoin, rostersOf_append]
    exact List.mem_append_right _ member
  rcases there with (there | there) | there
  · exact apart site (by simp [there]) id inside
  · have apart' : Apart (part.sites bell) ((join parts).sites bell) := by
      refine apart_neighbours orderly' fun site there => ?_
      obtain ⟨-, same | ⟨id, index, around, stands, known⟩⟩ := bell_of_mem_sites there
      · exact .inl (same ▸ .refl)
      · exact .inr ⟨id, mem_rostersOf.mpr ⟨around, by simp [known]⟩, by rw [stands]; rfl⟩
    exact apart' site there id member
  · exact apart site (by simp [there]) id inside

theorem Situated.ofCrowd {roster : Nat} {front back : List Task} {part : Task}
    (situated : Situated lines before after bell (.crowd roster (front ++ part :: back)) p) :
    Situated lines (before ++ .crowd bell roster :: sitesOfCrowd roster bell 0 front)
      (sitesOfCrowd roster bell (front.length + 1) back ++ after) (.part roster front.length bell)
      part p := by
  obtain ⟨orderly, apart⟩ := situated
  have split : (crowd roster (front ++ part :: back)).sites bell =
      (.crowd bell roster :: sitesOfCrowd roster bell 0 front) ++
        part.sites (.part roster front.length bell) ++
          sitesOfCrowd roster bell (front.length + 1) back := by
    simp only [sites, sitesOfCrowd_append, sitesOfCrowd, Nat.zero_add, List.cons_append,
      List.append_assoc]
  rw [split] at orderly apart
  have orderly' : Orderly lines
      ((before ++ .crowd bell roster :: sitesOfCrowd roster bell 0 front) ++
        part.sites (.part roster front.length bell) ++
          (sitesOfCrowd roster bell (front.length + 1) back ++ after)) p := by
    simpa only [List.append_assoc] using orderly
  refine ⟨orderly', ?_⟩
  have outer : Apart (before ++ after) (part.sites (.part roster front.length bell)) :=
    fun site there id member => apart site there id (by
      simp only [rostersOf_append, List.mem_append]
      exact .inl (.inr member))
  have here : roster ∈ rostersOf ((before ++ .crowd bell roster ::
      sitesOfCrowd roster bell 0 front) ++ (sitesOfCrowd roster bell (front.length + 1) back ++
        after)) :=
    mem_rostersOf.mpr ⟨bell, by simp⟩
  have inner : ∀ (index : Nat) (parts : List Task), (∀ site ∈ sitesOfCrowd roster bell index parts,
      site ∈ sitesOfCrowd roster bell 0 front ∨
        site ∈ sitesOfCrowd roster bell (front.length + 1) back) →
      Apart (sitesOfCrowd roster bell index parts) (part.sites (.part roster front.length bell)) := by
    intro index parts neighbours
    refine apart_neighbours orderly' fun site there => .inr ?_
    obtain ⟨i, other, located, there⟩ := mem_sitesOfCrowd.mp there
    obtain ⟨-, same | ⟨id, index', around, stands, member⟩⟩ := bell_of_mem_sites there
    · exact ⟨roster, here, by rw [same]; rfl⟩
    · refine ⟨id, mem_rostersOf.mpr ⟨around, ?_⟩, by rw [stands]; rfl⟩
      rcases neighbours _ (mem_sitesOfCrowd.mpr ⟨i, other, located, member⟩) with member | member
        <;> simp [member]
  have whole : Apart [.crowd bell roster] (part.sites (.part roster front.length bell)) := by
    refine apart_neighbours orderly' fun site there => .inl ?_
    obtain rfl := List.mem_singleton.mp there
    exact .part .refl
  intro site there
  simp only [List.mem_append, List.mem_cons] at there
  rcases there with (there | there | there) | (there | there)
  · exact outer site (by simp [there])
  · exact whole site (by simp [there])
  · exact inner 0 front (fun _ => .inl) site there
  · exact inner _ back (fun _ => .inr) site there
  · exact outer site (by simp [there])

theorem Situated.exists_roster {roster : Nat} {parts : List Task}
    (situated : Situated lines before after bell (.crowd roster parts) p) :
    ∃ r, p.rota.rosters[roster]? = some r := by
  obtain ⟨plan, wired⟩ := situated.orderly.wired
  obtain ⟨inside, -⟩ := wired.crowds bell roster (by simp [sites])
  exact ⟨_, Array.getElem?_eq_getElem inside⟩

end Task

end AddressExpansion
