import AddressExpansion.Proofs.Task.Frame
import AddressExpansion.Proofs.Task.Unsettled

/-! # Calm after a visit

A visit forgets nothing. After it whatever can go on at once has rung, or will ring when the round
is over, and every crowd is told when one of its parts rings. Main statement: a task that was to be
visited is calm after the visit (`calm_visit`).
-/

namespace AddressExpansion

/-- Whether a bell rang or will ring when the round is over. -/
def Progress.Noted (p : Progress) (bell : Bell) : Prop :=
  p.rota.HasRung bell ∨ bell ∈ p.rota.later

/-- Whether the bell of a crowd rang, or the next ring of a part reaches it. -/
def Rota.Rests (rota : Rota) (id : Nat) (bell : Bell) : Prop :=
  (∃ roster, rota.rosters[id]? = some roster ∧ roster.rung = [] ∧ roster.armed) ∨ rota.HasRung bell

namespace Site

/-- Whether a visit to a site would change anything, if an action is left. -/
inductive CanGoOn (p : Progress) : Site → Prop
  | fresh {bell scope term} : CanGoOn p (.fresh bell scope term)
  | idle {bell scope name} : CanGoOn p (.lookup bell scope name .idle)
  | served {bell scope name number} (served : number ∈ p.board.served) :
      CanGoOn p (.lookup bell scope name (.queued number))
  | unset {bell scope name ends} : CanGoOn p (.lookup bell scope name (.underway ends none))
  | due {bell scope name ends alarm} (due : ends ≤ p.board.now) :
      CanGoOn p (.lookup bell scope name (.underway ends alarm))

theorem CanGoOn.congr {p p' : Progress} {site : Site} (canGoOn : site.CanGoOn p)
    (same : p'.board = p.board) : site.CanGoOn p' := by
  cases canGoOn with
  | fresh => exact .fresh
  | idle => exact .idle
  | served served => exact .served (same ▸ served)
  | unset => exact .unset
  | due due => exact .due (same ▸ due)

/-- Whether nothing is forgotten at a site. -/
structure Content (p : Progress) (site : Site) : Prop where
  noted : site.CanGoOn p → p.Noted site.bell
  rests : ∀ bell id, site = .crowd bell id → p.rota.Rests id bell

variable {p p' : Progress} {site : Site} {others : List Site}

theorem Content.of_noted (noted : p.Noted site.bell) (leaf : site.roster? = none) :
    site.Content p := by
  refine ⟨fun _ => noted, ?_⟩
  rintro bell id rfl
  cases leaf

theorem Content.update {id : Nat} {f : Roster → Roster} (content : site.Content p)
    (kept : p.rota.HasRung site.bell → (p.rota.update id f).HasRung site.bell)
    (other : site.roster? ≠ some id) : site.Content (p.onRota (·.update id f)) := by
  refine ⟨fun canGoOn => ?_, ?_⟩
  · exact (content.noted (canGoOn.congr rfl)).imp_left kept
  · rintro bell id' rfl
    refine (content.rests bell id' rfl).imp ?_ kept
    rintro ⟨roster, here, quiet⟩
    exact ⟨roster, by
      rwa [Progress.onRota_rota, Rota.rosters_update_ne fun same => other (congrArg some same.symm)],
      quiet⟩

end Site

namespace Frame

variable {p p' : Progress} {site : Site} {others : List Site}

/-- What is framed stays content. -/
theorem content (frame : Frame others p p') (member : site ∈ others) (content : site.Content p) :
    site.Content p' := by
  have noted : site.CanGoOn p → p'.Noted site.bell := fun canGoOn =>
    (content.noted canGoOn).imp (frame.rung site member) fun later => frame.later later
  refine ⟨fun canGoOn => ?_, ?_⟩
  · cases canGoOn with
    | fresh => exact noted .fresh
    | idle => exact noted .idle
    | unset => exact noted .unset
    | due due => exact noted (.due (frame.now ▸ due))
    | served served =>
        rcases frame.served _ _ _ _ member served with served | rung
        · exact noted (.served served)
        · exact .inl rung
  · rintro bell id rfl
    rcases content.rests bell id rfl with ⟨roster, here, quiet, armed⟩ | rung
    · refine (frame.passed bell id member ⟨roster, here, armed⟩).imp_left fun same => ?_
      exact ⟨roster, same.trans here, quiet, armed⟩
    · exact .inr (frame.rung _ member rung)

end Frame

namespace Task

open Site
open Crowd (rungParts taken armed Stretched Attended getElem?_of_pending? mem_tail_rungParts)

/-- Whether nothing is forgotten in a task. -/
def Calm (bell : Bell) (task : Task) (p : Progress) : Prop :=
  ∀ site ∈ task.sites bell, site.Content p

/-- Whether nothing is forgotten in a task if it is visited now. -/
def Alert (bell : Bell) (task : Task) (p : Progress) : Prop :=
  ∀ site ∈ task.sites bell, site.bell = bell ∨ site.Content p

variable {env : Environment} {lines : Nat} {before after : List Site} {bell : Bell}
  {task task' : Task} {p p' : Progress}

/-! ## Lookups -/

private theorem content_await {scope : Scope} {name : String} {ends : Nat} {alarm : Option Nat}
    {stage' : Stage} (awaited : (Stage.await bell ends alarm).run p = (some stage', p')) :
    (Site.lookup bell scope name stage').Content p' := by
  rw [Stage.run_await] at awaited
  split at awaited
  · obtain ⟨same, rfl⟩ := Prod.mk.inj awaited
    exact .of_noted (.inr (by simp [Site.bell, Rota.putOff])) rfl
  · split at awaited
    · cases awaited
    · next early =>
      refine ⟨fun canGoOn => ?_, nofun⟩
      split at awaited
      all_goals
        obtain ⟨same, rfl⟩ := Prod.mk.inj awaited
        obtain rfl := Option.some.inj same
        cases canGoOn with
        | due due => exact absurd due early

private theorem content_call {scope : Scope} {name : String} {wait? : Option Nat} {stage' : Stage}
    (called : (Stage.call name wait? bell).run p = (some stage', p')) :
    (Site.lookup bell scope name stage').Content p' := by
  rw [Stage.run_call] at called
  cases wait? with
  | none => cases called
  | some wait => exact content_await called

private theorem content_stay {scope : Scope} {name : String} {wait? : Option Nat}
    {stage stage' : Stage} (new : p.board.drawn ∉ p.board.served)
    (visited : (stage.visit name wait? bell).run p = (some stage', p')) :
    (Site.lookup bell scope name stage').Content p' := by
  have putOff : ∀ {stage'' : Stage},
      (some stage'', p.onRota (·.putOff bell)) = (some stage', p') →
        (Site.lookup bell scope name stage').Content p' := by
    intro stage'' same
    obtain ⟨-, rfl⟩ := Prod.mk.inj same
    exact .of_noted (.inr (by simp [Site.bell, Rota.putOff])) rfl
  cases stage with
  | idle =>
      rw [Stage.run_visit_idle] at visited
      split at visited
      · exact putOff visited
      · split at visited
        · obtain ⟨same, rfl⟩ := Prod.mk.inj visited
          obtain rfl := Option.some.inj same
          refine ⟨fun canGoOn => ?_, nofun⟩
          cases canGoOn with
          | served served => exact absurd served new
        · exact content_call visited
  | queued number =>
      rw [Stage.run_visit_queued] at visited
      split at visited
      · exact putOff visited
      · split at visited
        · exact content_call visited
        · next waits =>
          obtain ⟨same, rfl⟩ := Prod.mk.inj visited
          obtain rfl := Option.some.inj same
          refine ⟨fun canGoOn => ?_, nofun⟩
          cases canGoOn with
          | served served => exact absurd served waits
  | underway ends alarm => exact content_await visited

/-! ## Parts of a join -/

/-- What visits do if they leave no part of a task forgotten. -/
def Calms (lines : Nat) : Passage :=
  fun bell task p task' p' => ∀ before after, Situated lines before after bell task p →
    Alert bell task p → Calm bell task' p'

private theorem calm_each {parts parts' : List Task}
    (visited : VisitedEach (Sound env (Calms lines)) bell parts p parts' p')
    (noFailure : ∀ part ∈ parts', part.failure? = none)
    (situated : Situated lines before after bell (.join parts) p)
    (alert : Alert bell (.join parts) p) : Calm bell (.join parts') p' := by
  induction visited generalizing before with
  | nil => nofun
  | failed _ failed =>
      rw [noFailure _ List.mem_cons_self] at failed
      cases failed
  | @next part parts part' q parts' p' p visited _ rest ih =>
      have head := situated.joinHead
      have alertHead : Alert bell part p := fun site member =>
        alert site (List.mem_append_left _ member)
      have calmHead := visited.2 _ _ head alertHead
      obtain ⟨-, frame⟩ := head.steps (x := (part, p)) (y := (part', q)) visited.1
      have whole : Situated lines before after bell (.join (part' :: parts)) q :=
        (situated.steps (x := (.join (part :: parts), p)) (y := (.join (part' :: parts), q))
          (Steps.inJoin [] parts visited.1)).1
      have alertTail : Alert bell (.join parts) q := fun site member =>
        (alert site (List.mem_append_right _ member)).imp_right
          (frame.content (List.mem_append_right _ (List.mem_append_left _ member)))
      have calmTail := ih (fun part member => noFailure part (List.mem_cons_of_mem _ member))
        whole.joinTail alertTail
      obtain ⟨-, later⟩ := whole.joinTail.steps (x := (.join parts, q)) (y := (.join parts', p'))
        (rest.steps sound_stepwise [])
      intro site member
      rcases List.mem_append.mp member with here | there
      · refine later.content ?_ (calmHead site here)
        exact List.mem_append_left _ (List.mem_append_right _ here)
      · exact calmTail site there

/-! ## Parts of a crowd -/

/-- What holds between visits to the parts of a crowd: no part is forgotten, and the next ring of a
    part reaches the crowd. -/
structure Attending (lines : Nat) (before after : List Site) (bell : Bell) (roster : Nat)
    (parts : List Task) (p : Progress) : Prop where
  situated : Situated lines before after bell (.crowd roster parts) p
  content : ∀ site ∈ sitesOfCrowd roster bell 0 parts, site.Content p
  passes : p.rota.IsArmed roster ∨ p.rota.HasRung bell

variable {roster : Nat} {parts : List Task} {inner : Visit}

private theorem Situated.part_site
    (situated : Situated lines before after bell (.crowd roster parts) p) {i : Nat} {part : Task}
    (located : parts[i]? = some part) {site : Site}
    (member : site ∈ part.sites (.part roster i bell)) :
    (site.bell = .part roster i bell ∨ site.bell.roster? ≠ some roster) ∧
      site.roster? ≠ some roster := by
  obtain ⟨front, back, rfl, rfl⟩ := exists_split located
  have inside : ∀ id ∈ rostersOf (part.sites (.part roster front.length bell)), roster ≠ id :=
    fun id member same => situated.ofCrowd.outside .refl member (congrArg some same)
  constructor
  · refine (bell_of_mem_sites member).2.imp_right ?_
    rintro ⟨id, index, outer, stands, around⟩ same
    rw [stands] at same
    exact inside id (mem_rostersOf.mpr ⟨outer, around⟩) (Option.some.inj same).symm
  · intro same
    exact inside roster (List.mem_filterMap.mpr ⟨site, member, same⟩) rfl

/-- A change of its roster keeps the parts of a crowd content that it leaves rung. -/
private theorem Situated.content_update
    (situated : Situated lines before after bell (.crowd roster parts) p) {f : Roster → Roster}
    {i : Nat} {part : Task} (located : parts[i]? = some part) {site : Site}
    (member : site ∈ part.sites (.part roster i bell)) (content : site.Content p)
    (kept : ∀ r, p.rota.rosters[roster]? = some r → i ∈ r.rung → i ∈ (f r).rung) :
    site.Content (p.onRota (·.update roster f)) := by
  obtain ⟨stands, other⟩ := situated.part_site located member
  refine content.update (fun rung => ?_) other
  rcases stands with here | elsewhere
  · rw [here] at rung ⊢
    obtain ⟨r, found, rung⟩ := Rota.isRung_iff.mp rung
    refine Rota.isRung_iff.mpr ⟨f r, ?_, kept r found rung⟩
    rw [Rota.rosters_update_self, found, Option.map_some]
  · exact (Rota.hasRung_update_ne elsewhere).mpr rung

private theorem pending_of_site (inner : Visit) {i : Nat} {part : Task} (located : parts[i]? = some part)
    {site : Site} (member : site ∈ part.sites (.part roster i bell)) :
    (crowdOf inner bell roster).pending? parts i = some part := by
  have going : part.isOver = false := by
    cases part <;> first | rfl | cases member
  simp [Crowd.pending?, located, crowdOf, going]

private theorem Attending.others_taken (attending : Attending lines before after bell roster parts p)
    {i : Nat} {part : Task} (located : parts[i]? = some part) {site : Site}
    (member : site ∈ part.sites (.part roster i bell))
    (other : (rungParts (crowdOf inner bell roster) parts p).head? ≠ some i) :
    site.Content (taken (crowdOf inner bell roster) parts p) := by
  refine attending.situated.content_update located member ?_ fun r found rung => ?_
  · exact attending.content site (mem_sitesOfCrowd.mpr ⟨i, part, located, by rwa [Nat.zero_add]⟩)
  · exact mem_tail_rungParts found rung (pending_of_site inner located member) other

/-- A change of its roster that leaves it armed does not stop rings from reaching a crowd. -/
private theorem Situated.passes_update
    (situated : Situated lines before after bell (.crowd roster parts) p) {f : Roster → Roster}
    (armed : ∀ r, r.armed → (f r).armed)
    (passes : p.rota.IsArmed roster ∨ p.rota.HasRung bell) :
    (p.rota.update roster f).IsArmed roster ∨ (p.rota.update roster f).HasRung bell := by
  refine passes.imp ?_ fun rung => ?_
  · rintro ⟨r, found, isArmed⟩
    exact ⟨f r, by rw [Rota.rosters_update_self, found, Option.map_some], armed r isArmed⟩
  · have outside : bell.roster? ≠ some roster :=
      situated.outside .refl (mem_rostersOf.mpr ⟨bell, by simp [sites]⟩)
    exact (Rota.hasRung_update_ne outside).mpr rung

private theorem exists_part_beside {front back : List Task} (part : Task) {site : Site}
    (member : site ∈ sitesOfCrowd roster bell 0 front ∨
      site ∈ sitesOfCrowd roster bell (front.length + 1) back) :
    ∃ i other, i ≠ front.length ∧ (front ++ part :: back)[i]? = some other ∧
      site ∈ other.sites (.part roster i bell) := by
  rcases member with member | member
  · obtain ⟨i, other, there, inside⟩ := mem_sitesOfCrowd.mp member
    rw [Nat.zero_add] at inside
    have low : i < front.length := (List.getElem?_eq_some_iff.mp there).1
    exact ⟨i, other, Nat.ne_of_lt low, by rw [List.getElem?_append_left low, there], inside⟩
  · obtain ⟨i, other, there, inside⟩ := mem_sitesOfCrowd.mp member
    have next : front.length + 1 + i - front.length = i + 1 := by omega
    refine ⟨front.length + 1 + i, other, by omega, ?_, inside⟩
    rw [List.getElem?_append_right (by omega), next, List.getElem?_cons_succ, there]

/-- A visit to a part that rang leaves all parts content. -/
private theorem Attending.visit (attending : Attending lines before after bell roster parts p)
    {index : Nat} {part part' : Task}
    (located : parts[index]? = some part)
    (first : (rungParts (crowdOf inner bell roster) parts p).head? = some index)
    (visited : Sound env (Calms lines) (.part roster index bell) part
      (taken (crowdOf inner bell roster) parts p) part' p') :
    Attending lines before after bell roster (parts.set index part') p' := by
  obtain ⟨situated, content, passes⟩ := attending
  have situatedTaken := situated.whenTaken inner
  have situated' := situatedTaken.steps (Steps.inCrowd visited.1 located)
  obtain ⟨front, back, rfl, rfl⟩ := exists_split located
  have situatedPart := situatedTaken.ofCrowd
  obtain ⟨-, frame⟩ := situatedPart.steps (x := (part, _)) (y := (part', p')) visited.1
  have alert : Alert (.part roster front.length bell) part
      (taken (crowdOf inner bell roster) (front ++ part :: back) p) := by
    intro site member
    obtain ⟨stands, other⟩ := situated.part_site located member
    refine stands.imp_right fun elsewhere => ?_
    refine Content.update (content site ?_) (Rota.hasRung_update_ne elsewhere).mpr other
    exact mem_sitesOfCrowd.mpr ⟨_, part, located, by rwa [Nat.zero_add]⟩
  have calm := visited.2 _ _ situatedPart alert
  have others : ∀ {i other site}, i ≠ front.length → (front ++ part :: back)[i]? = some other →
      site ∈ other.sites (.part roster i bell) →
        site.Content (taken (crowdOf inner bell roster) (front ++ part :: back) p) :=
    fun different there member =>
      Attending.others_taken ⟨situated, content, passes⟩ there member fun same =>
        different (Option.some.inj (same.symm.trans first))
  refine ⟨situated'.1, ?_, ?_⟩
  · rw [List.set_append_right _ _ (Nat.le_refl _), Nat.sub_self, List.set_cons_zero,
      sitesOfCrowd_append, sitesOfCrowd, Nat.zero_add]
    intro site member
    rcases List.mem_append.mp member with before | member
    · obtain ⟨i, other, different, there, inside⟩ := exists_part_beside part (.inl before)
      exact frame.content (by simp [before]) (others different there inside)
    · rcases List.mem_append.mp member with here | after
      · exact calm site here
      · obtain ⟨i, other, different, there, inside⟩ := exists_part_beside part (.inr after)
        exact frame.content (by simp [after]) (others different there inside)
  · have here : Site.crowd bell roster ∈ (before ++ .crowd bell roster ::
        sitesOfCrowd roster bell 0 front) ++
          (sitesOfCrowd roster bell (front.length + 1) back ++ after) := by simp
    have passes' := situated.passes_update (f := ({ · with
      rung := (rungParts (crowdOf inner bell roster) (front ++ part :: back) p).tail }))
      (fun _ => id) passes
    rcases passes' with armed | rung
    · rcases frame.passed bell roster here armed with same | rung
      · refine .inl ?_
        unfold Rota.IsArmed
        rwa [same]
      · exact .inr rung
    · exact .inr (frame.rung _ here rung)

private theorem Attending.ring (attending : Attending lines before after bell roster parts p) :
    Attending lines before after bell roster parts (p.onRota (·.ring bell)) ∧
      (p.rota.ring bell).Rests roster bell := by
  obtain ⟨situated, content, passes⟩ := attending
  obtain ⟨plan, wired⟩ := situated.orderly.wired
  have placed := wired.placed (.crowd bell roster) (by simp [sites])
  have frame : Frame (sitesOfCrowd roster bell 0 parts) p (p.onRota (·.ring bell)) :=
    .ring wired (fun site member => by simp [sites, member]) placed
  have rung : (p.rota.ring bell).HasRung bell := Rota.hasRung_ring placed
  exact ⟨⟨⟨⟨situated.orderly.ledger, plan, wired.ring bell⟩, situated.apart⟩,
    fun site member => frame.content member (content site member), .inr rung⟩, .inr rung⟩

/-- A stretch of visits leaves all parts content, and the crowd too if no part ended in it. -/
private theorem Attending.stretch {left : Nat} {parts' : List Task} {ended : Bool}
    (stretched : Stretched (Sound env (Calms lines)) (crowdOf inner bell roster) left parts p ended
      parts' p')
    (attending : Attending lines before after bell roster parts p) :
    Attending lines before after bell roster parts' p' ∧
      (ended = false → p'.rota.Rests roster bell) := by
  induction stretched with
  | weary => exact attending.ring.imp_right fun rests _ => rests
  | @quiet _ parts p nothing =>
      have passes := attending.situated.passes_update (f := ({ · with rung := [] }))
        (fun _ => id) attending.passes
      have same : taken (crowdOf inner bell roster) parts p =
          p.onRota (·.update roster ({ · with rung := [] })) := by
        unfold taken
        rw [nothing]
        rfl
      refine ⟨⟨attending.situated.whenTaken inner, fun site member => ?_, same ▸ passes⟩,
        fun _ => ?_⟩
      · obtain ⟨i, part, located, member⟩ := mem_sitesOfCrowd.mp member
        rw [Nat.zero_add] at member
        exact attending.others_taken located member (by simp [nothing])
      · rw [same]
        refine passes.imp_left ?_
        rintro ⟨r, found, armed⟩
        refine ⟨r, found, ?_, armed⟩
        rw [Rota.rosters_update_self] at found
        obtain ⟨_, -, rfl⟩ := Option.map_eq_some_iff.mp found
        rfl
  | finished pending first visited _ =>
      exact ⟨attending.visit (getElem?_of_pending? pending).1 first visited, nofun⟩
  | restless pending first visited _ =>
      exact (attending.visit (getElem?_of_pending? pending).1 first visited).ring.imp_right
        fun rests _ => rests
  | next pending first visited _ _ ih =>
      exact ih (attending.visit (getElem?_of_pending? pending).1 first visited)

private theorem Situated.attending
    (situated : Situated lines before after bell (.crowd roster parts) p)
    (content : ∀ site ∈ sitesOfCrowd roster bell 0 parts, site.Content p) :
    Attending lines before after bell roster parts (armed (crowdOf inner bell roster) p) := by
  obtain ⟨r, found⟩ := situated.exists_roster
  refine ⟨situated.whenArmed inner, fun site member => ?_, .inl ?_⟩
  · obtain ⟨i, part, located, inside⟩ := mem_sitesOfCrowd.mp member
    rw [Nat.zero_add] at inside
    exact situated.content_update located inside (content site member) fun _ _ => id
  · exact ⟨{ r with armed := true },
      Rota.rosters_update_self.trans (congrArg (Option.map _) found), rfl⟩

private theorem calm_attended {ends : Nat} {parts' : List Task}
    (attended : Attended (Sound env (Calms lines)) (crowdOf inner bell roster) ends parts p parts' p')
    (unsettled : outcomeInOrder? parts' = none) (enough : (crowdOf inner bell roster).busy parts < ends)
    (situated : Situated lines before after bell (.crowd roster parts) p)
    (content : ∀ site ∈ sitesOfCrowd roster bell 0 parts, site.Content p) :
    Calm bell (.crowd roster parts') p' := by
  induction attended with
  | out => exact absurd enough (Nat.not_lt_zero _)
  | settled settled =>
      change (outcomeInOrder? _).isSome at settled
      rw [unsettled] at settled
      cases settled
  | breakOff _ stretched =>
      obtain ⟨attending, rests⟩ := (situated.attending content).stretch stretched
      intro site member
      rcases List.mem_cons.mp member with rfl | member
      · refine ⟨nofun, ?_⟩
        rintro _ _ ⟨⟩
        exact rests rfl
      · exact attending.content site member
  | pause _ stretched =>
      obtain ⟨attending, rests⟩ := ((situated.attending content).stretch stretched).1.ring
      intro site member
      rcases List.mem_cons.mp member with rfl | member
      · refine ⟨nofun, ?_⟩
        rintro _ _ ⟨⟩
        exact rests
      · exact attending.content site member
  | again _ stretched _ ih =>
      obtain ⟨attending, -⟩ := (situated.attending content).stretch stretched
      have fewer := stretched.busy_eq
      simp only [if_true] at fewer
      exact ih unsettled (by omega) attending.situated attending.content

/-! ## Tasks -/

private theorem alert_ofParts {scope : Scope} {items : List Term} :
    Alert bell ((ofParts (items.map (.fresh scope))).run p).1
      ((ofParts (items.map (.fresh scope))).run p).2 := by
  unfold ofParts
  split
  · intro site member
    change site ∈ sitesOfJoin bell (items.map (.fresh scope)) at member
    rw [sitesOfJoin_eq_flatMap] at member
    simp only [List.mem_flatMap, List.mem_map] at member
    obtain ⟨_, ⟨item, -, rfl⟩, member⟩ := member
    obtain rfl := List.mem_singleton.mp member
    exact .inl rfl
  · intro site member
    rcases List.mem_cons.mp member with rfl | member
    · exact .inl rfl
    · obtain ⟨i, part, located, member⟩ := mem_sitesOfCrowd.mp member
      obtain ⟨item, -, rfl⟩ := List.mem_map.mp (List.mem_of_getElem? located)
      obtain rfl := List.mem_singleton.mp member
      have low : i < (items.map (Task.fresh scope)).length :=
        (List.getElem?_eq_some_iff.mp located).1
      refine .inr (.of_noted (.inl (Rota.isRung_iff.mpr ⟨_, Array.getElem?_push_size, ?_⟩)) rfl)
      simpa [Roster.ofParts] using low

theorem calm_cases (env : Environment) (lines : Nat) : VisitCases env (Calms lines) where
  ended := fun _ _ _ _ => nofun
  finished := fun _ _ _ _ _ _ => nofun
  token := by
    intro bell scope token p messages task' p' traces calms before after situated _
    have opens : Steps env bell (.fresh scope (.literal token), p)
        (opened env scope token, p.sayAll messages) := steps_opened traces
    have unstarted : ∀ site ∈ (opened env scope token).sites bell, site.Unstarted bell :=
      Unfolds.unstarted .token
    have next := situated.steps opens
    -- What the token becomes does not matter any more.
    generalize opened env scope token = task at *
    exact calms before after next.1 fun site member => .inl (unstarted site member).bell_eq
  record := by
    intro bell scope ip comment p task' p' calms before after situated _
    have opens : Steps env bell (.fresh scope (.record ip comment), p)
        (.gather scope (.record comment) (.fresh scope ip), p) := .one .record
    refine calms before after (situated.steps opens).1 fun site member => .inl ?_
    have unfolds : Unfolds env scope (.record ip comment) _ := .record
    exact (unfolds.unstarted site member).bell_eq
  list := by
    intro bell scope items p task' p' calms before after situated _
    have opens : Steps env bell (.fresh scope (.list items), p)
        ((ofParts (items.map (.fresh scope))).run p) := steps_ofParts items
    exact calms before after (situated.steps opens).1 alert_ofParts
  stay := by
    intro bell scope name stage stage' p p' visited before after situated _ site member
    obtain rfl := List.mem_singleton.mp member
    exact content_stay situated.orderly.drawn_not_served visited
  answer := by
    intro bell scope name stage p q task' p' visited calms before after situated _
    have ends : Steps env bell (.lookup scope name stage, p)
        (answered env scope name, q.say (answerRemark env scope name)) := steps_answered visited
    refine calms before after (situated.steps ends).1 fun site member => .inl ?_
    exact (answered_unstarted site member).bell_eq
  gather := fun _ visited before after situated alert => visited.2 before after situated.ofGather alert
  join := fun going visited before after situated alert =>
    calm_each visited (failure?_of_together going) situated alert
  crowd := by
    intro inner bell roster parts p parts' p' unsettled attended before after situated alert
    refine calm_attended attended unsettled ?_ situated fun site member => ?_
    · exact Nat.lt_succ_of_le List.countP_le_length
    · refine (alert site (List.mem_cons_of_mem _ member)).resolve_left ?_
      obtain ⟨i, part, -, inside⟩ := mem_sitesOfCrowd.mp member
      exact (bell_of_mem_sites inside).1.ne

/-- A visit to a task that is to be visited leaves it calm. -/
theorem calm_visit {levels : Nat} (fits : task.Fits env levels) :
    Calms lines bell task p ((visit env levels bell task).run p).1
      ((visit env levels bell task).run p).2 :=
  visit_induct (calm_cases env lines) fits rfl

end Task

end AddressExpansion
