import Mathlib.Data.List.Perm.Subperm
import AddressExpansion.Proofs.Task.Frame
import AddressExpansion.Proofs.Task.Unsettled

/-! # Visits that change nothing

A visit lowers what is left to be done about a task, or finds that nothing can be done in it. In
the second case the task stays as it is, and nothing changes but its own rosters; if its own bell
rings all the same, its rosters call for fewer visits than before. So there is an end to such
visits (`restlessness_le`).
-/

namespace AddressExpansion

namespace Rota

def rungOn (rota : Rota) (id : Nat) : List Nat :=
  match rota.rosters[id]? with
  | none => []
  | some roster => roster.rung

/-- Whether only some rosters changed, apart from a ring of a bell that may have been made. -/
def Stirred (own : List Nat) (bell : Bell) (rang : Bool) (rota rota' : Rota) : Prop :=
  Agree own (if rang then rota.ring bell else rota) rota'

variable {own own' : List Nat} {bell : Bell} {rang rang' : Bool} {rota rota' rota'' : Rota}

theorem rungOn_congr {id : Nat} (same : rota'.rosters[id]? = rota.rosters[id]?) :
    rota'.rungOn id = rota.rungOn id := by
  simp only [rungOn, same]

theorem Stirred.mono (stirred : Stirred own bell rang rota rota') (subset : own ⊆ own') :
    Stirred own' bell rang rota rota' :=
  Agree.mono stirred subset

theorem Stirred.trans (clear : Clear own bell) (first : Stirred own bell rang rota rota')
    (second : Stirred own bell rang' rota' rota'') :
    Stirred own bell (rang || rang') rota rota'' := by
  unfold Stirred at first second ⊢
  cases rang' with
  | false => simpa using first.trans second
  | true =>
      have rings := (first.ring clear).trans second
      cases rang with
      | false => exact rings
      | true =>
          have once : (rota.ring bell).ring bell = rota.ring bell := ring_ring
          exact once ▸ rings

theorem Stirred.rosters (stirred : Stirred own bell rang rota rota') {id : Nat} (other : id ∉ own)
    (member : id ∈ own') (clear : Clear own' bell) : rota'.rosters[id]? = rota.rosters[id]? := by
  rw [Agree.rosters stirred id other]
  cases rang with
  | false => rfl
  | true => exact clear.rosters_ring member

/-- What a part of a crowd stirs is stirred in the crowd. -/
theorem Stirred.outward {id index : Nat}
    (stirred : Stirred own (.part id index bell) rang rota rota') (subset : own ⊆ own')
    (member : id ∈ own') (clear : Clear own' bell) :
    ∃ rang', Stirred own' bell rang' rota rota' := by
  unfold Stirred at stirred
  cases rang with
  | false => exact ⟨false, Agree.mono stirred subset⟩
  | true =>
      have entered : Agree own' rota (rota.update id (·.enter index)) := agree_update member
      rw [if_pos rfl, ring_part] at stirred
      split at stirred
      · exact ⟨false, stirred.mono subset⟩
      · split at stirred
        · exact ⟨true, (entered.ring clear).trans (stirred.mono subset)⟩
        · exact ⟨false, entered.trans (stirred.mono subset)⟩

/-- A part of a crowd that stirs comes onto the roster at most once more. -/
theorem Stirred.countP_rungOn_le {id index : Nat} (q : Nat → Bool)
    (stirred : Stirred own (.part id index bell) rang rota rota') (other : id ∉ own)
    (clear : Clear [id] bell) :
    (rota'.rungOn id).countP q ≤ (rota.rungOn id).countP q + rang.toNat := by
  have same := Agree.rosters stirred id other
  rw [rungOn_congr same]
  cases rang with
  | false => exact Nat.le_refl _
  | true =>
      have entered : ((rota.update id (·.enter index)).rungOn id).countP q ≤
          (rota.rungOn id).countP q + 1 := by
        unfold rungOn
        rw [rosters_update_self]
        cases rota.rosters[id]? with
        | none => exact Nat.zero_le _
        | some roster =>
            simp only [Option.map_some, Roster.enter]
            split
            · exact Nat.le_succ _
            · rw [List.countP_append]
              exact Nat.add_le_add_left List.countP_le_length _
      rw [if_pos rfl, ring_part]
      split
      · exact Nat.le_succ _
      · split
        · rwa [rungOn_congr (clear.rosters_ring List.mem_cons_self)]
        · exact entered

end Rota

namespace Task

open Site
open Crowd (rungParts taken armed Stretched Attended getElem?_of_pending?)

def isGoing (parts : List Task) (index : Nat) : Bool :=
  (parts[index]?.filter (!·.isOver)).isSome

mutual

/-- How many visits the rosters in a task may call for though nothing can be done. -/
def restlessness (rota : Rota) : Task → Nat
  | .gather _ _ body => restlessness rota body
  | .join parts => restlessnessOfAll rota parts
  | .crowd roster parts =>
    2 * restlessnessOfAll rota parts + (rota.rungOn roster).countP (isGoing parts)
  | .fresh .. | .lookup .. | .ended _ => 0

def restlessnessOfAll (rota : Rota) : List Task → Nat
  | [] => 0
  | task :: tasks => restlessness rota task + restlessnessOfAll rota tasks

end

variable {rota rota' : Rota} {bell : Bell} {task : Task}

theorem restlessnessOfAll_eq_sum (rota : Rota) (parts : List Task) :
    restlessnessOfAll rota parts = (parts.map (restlessness rota)).sum := by
  induction parts with
  | nil => rfl
  | cons part parts ih => rw [restlessnessOfAll, ih, List.map_cons, List.sum_cons]

theorem restlessnessOfAll_append (rota : Rota) (front back : List Task) :
    restlessnessOfAll rota (front ++ back) =
      restlessnessOfAll rota front + restlessnessOfAll rota back := by
  simp only [restlessnessOfAll_eq_sum, List.map_append, List.sum_append]

theorem restlessness_congr (bell : Bell)
    (same : ∀ id ∈ rostersOf (task.sites bell), rota'.rosters[id]? = rota.rosters[id]?) :
    restlessness rota' task = restlessness rota task := by
  induction task using Task.induct generalizing bell with
  | fresh | lookup | ended => rfl
  | gather _ _ _ ih => exact ih bell same
  | join parts ih =>
      simp only [restlessness, restlessnessOfAll_eq_sum]
      refine congrArg List.sum (List.map_congr_left fun part member =>
        ih part member bell fun id inside => same id ?_)
      obtain ⟨outer, inside⟩ := mem_rostersOf.mp inside
      rw [sites, sitesOfJoin_eq_flatMap]
      exact mem_rostersOf.mpr ⟨outer, List.mem_flatMap.mpr ⟨part, member, inside⟩⟩
  | crowd roster parts ih =>
      have here : roster ∈ rostersOf ((crowd roster parts).sites bell) :=
        mem_rostersOf.mpr ⟨bell, by simp [sites]⟩
      simp only [restlessness, restlessnessOfAll_eq_sum, Rota.rungOn_congr (same roster here)]
      refine congrArg (2 * ·.sum + _) (List.map_congr_left fun part member => ?_)
      obtain ⟨i, located⟩ := List.mem_iff_getElem?.mp member
      refine ih part member (.part roster (0 + i) bell) fun id inside => same id ?_
      obtain ⟨outer, inside⟩ := mem_rostersOf.mp inside
      rw [sites]
      exact mem_rostersOf.mpr ⟨outer, List.mem_cons_of_mem _
        (mem_sitesOfCrowd.mpr ⟨i, part, located, inside⟩)⟩

/-- What some visits leave behind that find nothing to do in a task. If there is at least one of
    them, the bell rings only if the task becomes calmer. -/
structure Idle (visits : Nat) (bell : Bell) (task : Task) (p p' : Progress) : Prop where
  board : p'.board = p.board
  allowance : p'.allowance = p.allowance
  calmer : ∃ rang : Bool, p.rota.Stirred (rostersOf (task.sites bell)) bell rang p'.rota ∧
    restlessness p'.rota task + min visits rang.toNat ≤ restlessness p.rota task

/-- What visits do if each of them lowers what is left to be done, or finds nothing to do. -/
def Advances (env : Environment) (lines : Nat) : Passage :=
  fun bell task p task' p' =>
    loadOf env (task'.sites bell) ≤ loadOf env (task.sites bell) ∧
      ∀ before after, Situated lines before after bell task p → task.Unsettled → p.allowance ≠ 0 →
        loadOf env (task'.sites bell) < loadOf env (task.sites bell) ∨
          task' = task ∧ Idle 1 bell task p p'

variable {env : Environment} {lines : Nat} {before after : List Site} {task' : Task}
  {p p' : Progress}

theorem Situated.clear (situated : Situated lines before after bell task p) :
    Rota.Clear (rostersOf (task.sites bell)) bell :=
  fun _ within _ member => situated.outside within member

theorem Situated.nodup (situated : Situated lines before after bell task p) :
    (rostersOf (task.sites bell)).Nodup := by
  obtain ⟨plan, wired⟩ := situated.orderly.wired
  have nodup := wired.nodup
  rw [rostersOf_append, rostersOf_append] at nodup
  exact (List.nodup_append.mp (List.nodup_append.mp nodup).1).2.1

theorem Idle.refl {visits : Nat} : Idle visits bell task p p :=
  ⟨rfl, rfl, false, .refl, by simp⟩

/-! ## Joins -/

private theorem Idle.ofParts {part : Task} {parts : List Task} {q : Progress}
    (situated : Situated lines before after bell (.join (part :: parts)) p)
    (head : Idle 1 bell part p q) (tail : Idle 1 bell (.join parts) q p') :
    Idle 1 bell (.join (part :: parts)) p p' := by
  obtain ⟨board, allowance, rang, stirred, calmer⟩ := head
  obtain ⟨board', allowance', rang', stirred', calmer'⟩ := tail
  have own : rostersOf ((join (part :: parts)).sites bell) =
      rostersOf (part.sites bell) ++ rostersOf ((join parts).sites bell) := by
    simp only [sites, sitesOfJoin, rostersOf_append]
  have apart : ∀ id ∈ rostersOf (part.sites bell), id ∉ rostersOf ((join parts).sites bell) := by
    have nodup := situated.nodup
    rw [own] at nodup
    exact fun id here there => (List.nodup_append.mp nodup).2.2 id here id there rfl
  have clear := situated.clear
  have here : rostersOf (part.sites bell) ⊆ rostersOf ((join (part :: parts)).sites bell) :=
    own ▸ List.subset_append_left _ _
  have there : rostersOf ((join parts).sites bell) ⊆
      rostersOf ((join (part :: parts)).sites bell) := own ▸ List.subset_append_right _ _
  refine ⟨board'.trans board, allowance'.trans allowance, rang || rang', ?_, ?_⟩
  · exact (stirred.mono here).trans clear (stirred'.mono there)
  · have kept : restlessness p'.rota part = restlessness q.rota part :=
      restlessness_congr bell fun id member =>
        stirred'.rosters (apart id member) (here member) clear
    have kept' : restlessness q.rota (join parts) = restlessness p.rota (join parts) :=
      restlessness_congr bell fun id member =>
        stirred.rosters (fun member' => apart id member' member) (there member) clear
    simp only [restlessness, restlessnessOfAll] at calmer' kept' ⊢
    cases rang <;> cases rang' <;> simp only [Bool.toNat_true, Bool.toNat_false, Bool.or_true,
      Bool.or_false] at calmer calmer' ⊢ <;> omega

private theorem advance_each {parts parts' : List Task}
    (visited : VisitedEach (Sound env (Advances env lines)) bell parts p parts' p')
    (noFailure : ∀ part ∈ parts', part.failure? = none)
    (situated : Situated lines before after bell (.join parts) p)
    (unsettled : ∀ part ∈ parts, part.Unsettled) (mayAct : p.allowance ≠ 0) :
    loadOf env (sitesOfJoin bell parts') < loadOf env (sitesOfJoin bell parts) ∨
      parts' = parts ∧ Idle 1 bell (.join parts) p p' := by
  induction visited generalizing before with
  | nil => exact .inr ⟨rfl, .refl⟩
  | failed _ failed =>
      rw [noFailure _ List.mem_cons_self] at failed
      cases failed
  | @next part parts part' q parts' p' p visited _ rest ih =>
      obtain ⟨steps, fewer, advances⟩ := visited
      have whole : Situated lines before after bell (.join (part' :: parts)) q :=
        (situated.steps (x := (.join (part :: parts), p)) (y := (.join (part' :: parts), q))
          (Steps.inJoin [] parts steps)).1
      have later : loadOf env (sitesOfJoin bell parts') ≤ loadOf env (sitesOfJoin bell parts) :=
        Steps.load_le (rest.steps sound_stepwise [])
      simp only [sitesOfJoin, loadOf_append]
      rcases advances _ _ situated.joinHead (unsettled part List.mem_cons_self) mayAct with
        less | ⟨rfl, idle⟩
      · exact .inl (by omega)
      · rcases ih (fun part member => noFailure part (List.mem_cons_of_mem _ member))
          whole.joinTail (fun part member => unsettled part (List.mem_cons_of_mem _ member))
          (idle.allowance ▸ mayAct) with less | ⟨rfl, idle'⟩
        · exact .inl (by omega)
        · exact .inr ⟨rfl, idle.ofParts situated idle'⟩

/-! ## Crowds -/

variable {inner : Visit} {roster index : Nat} {parts : List Task}

private theorem rungParts_eq :
    rungParts (crowdOf inner bell roster) parts p =
      (p.rota.rungOn roster).dropWhile (!isGoing parts ·) := by
  unfold rungParts Rota.rungOn
  change (match p.rota.rosters[roster]? with
    | none => []
    | some roster => _ : List Nat) = _
  cases p.rota.rosters[roster]? with
  | none => rfl
  | some r =>
      refine congrArg (List.dropWhile · r.rung) (funext fun i => ?_)
      cases here : parts[i]? <;> simp [isGoing, Crowd.pending?, crowdOf, here]

private theorem countP_dropWhile_not (q : Nat → Bool) (numbers : List Nat) :
    (numbers.dropWhile (!q ·)).countP q = numbers.countP q := by
  induction numbers with
  | nil => rfl
  | cons number numbers ih =>
      by_cases here : q number
      · simp [here]
      · simp [here, ih]

private theorem count_taken (inner : Visit) (bell : Bell) (roster : Nat) (parts : List Task)
    (p : Progress) :
    ((taken (crowdOf inner bell roster) parts p).rota.rungOn roster).countP (isGoing parts) ≤
      (rungParts (crowdOf inner bell roster) parts p).tail.countP (isGoing parts) := by
  have changed : (p.rota.update roster ({ · with
      rung := (rungParts (crowdOf inner bell roster) parts p).tail })).rosters[roster]? = _ :=
    Rota.rosters_update_self
  change (Rota.rungOn (p.rota.update roster _) roster).countP _ ≤ _
  unfold Rota.rungOn
  rw [changed]
  cases p.rota.rosters[roster]? with
  | none => exact Nat.zero_le _
  | some r => exact Nat.le_refl _

private theorem count_rungParts (inner : Visit) (bell : Bell) (roster : Nat) (parts : List Task)
    (p : Progress) :
    (rungParts (crowdOf inner bell roster) parts p).countP (isGoing parts) =
      (p.rota.rungOn roster).countP (isGoing parts) := by
  rw [rungParts_eq, countP_dropWhile_not]

private theorem rostersOf_crowd (bell : Bell) (roster : Nat) (front back : List Task)
    (part : Task) :
    rostersOf ((crowd roster (front ++ part :: back)).sites bell) =
      roster :: (rostersOf (sitesOfCrowd roster bell 0 front) ++
        (rostersOf (part.sites (.part roster front.length bell)) ++
          rostersOf (sitesOfCrowd roster bell (front.length + 1) back))) := by
  rw [sites, sitesOfCrowd_append, sitesOfCrowd, Nat.zero_add]
  simp only [rostersOf, List.filterMap_cons, roster?, List.filterMap_append]

private theorem restlessnessOfAll_congr (roster : Nat) (bell : Bell) (first : Nat)
    (same : ∀ id ∈ rostersOf (sitesOfCrowd roster bell first parts),
      rota'.rosters[id]? = rota.rosters[id]?) :
    restlessnessOfAll rota' parts = restlessnessOfAll rota parts := by
  induction parts generalizing first with
  | nil => rfl
  | cons part parts ih =>
      rw [sitesOfCrowd, rostersOf_append] at same
      simp only [restlessnessOfAll]
      rw [restlessness_congr _ fun id member => same id (List.mem_append_left _ member),
        ih _ fun id member => same id (List.mem_append_right _ member)]

/-- The roster of a crowd is none of those in one of its parts, and these lie in the crowd. -/
private theorem Situated.rosters_part {front back : List Task} {part : Task}
    (situated : Situated lines before after bell (.crowd roster (front ++ part :: back)) p) :
    roster ∉ rostersOf (part.sites (.part roster front.length bell)) ∧
      rostersOf (part.sites (.part roster front.length bell)) ⊆
        rostersOf ((crowd roster (front ++ part :: back)).sites bell) := by
  have nodup := situated.nodup
  rw [rostersOf_crowd] at nodup ⊢
  constructor
  · intro member
    have outside := (List.nodup_cons.mp nodup).1
    apply outside
    exact List.mem_append_right _ (List.mem_append_left _ member)
  · intro id member
    apply List.mem_cons_of_mem
    exact List.mem_append_right _ (List.mem_append_left _ member)

/-- The rosters in the other parts of a crowd are not its own, not in the part, and do not lie on
    the way of a ring from the part. -/
private theorem Situated.rosters_beside {front back : List Task} {part : Task} {id : Nat}
    (situated : Situated lines before after bell (.crowd roster (front ++ part :: back)) p)
    (member : id ∈ rostersOf (sitesOfCrowd roster bell 0 front) ∨
      id ∈ rostersOf (sitesOfCrowd roster bell (front.length + 1) back)) :
    roster ≠ id ∧ id ∉ rostersOf (part.sites (.part roster front.length bell)) ∧
      Rota.Clear [id] (.part roster front.length bell) := by
  have nodup := situated.nodup
  have clear := situated.clear
  rw [rostersOf_crowd] at nodup clear
  obtain ⟨outside, inside⟩ := List.nodup_cons.mp nodup
  obtain ⟨-, tail, apart⟩ := List.nodup_append.mp inside
  have apart' := (List.nodup_append.mp tail).2.2
  have inCrowd : id ∈ rostersOf (sitesOfCrowd roster bell 0 front) ++
      (rostersOf (part.sites (.part roster front.length bell)) ++
        rostersOf (sitesOfCrowd roster bell (front.length + 1) back)) := by
    rcases member with here | there
    · exact List.mem_append_left _ here
    · exact List.mem_append_right _ (List.mem_append_right _ there)
  have other : roster ≠ id := by
    rintro rfl
    exact outside inCrowd
  refine ⟨other, ?_, ?_⟩
  · intro inPart
    rcases member with here | there
    · exact apart id here id (List.mem_append_left _ inPart) rfl
    · exact apart' id inPart id there rfl
  · intro outer within id' single same
    obtain rfl := List.mem_singleton.mp single
    cases within with
    | refl => exact other (Option.some.inj same)
    | part within => exact clear outer within id' (List.mem_cons_of_mem _ inCrowd) same

private theorem Idle.restlessness_beside {front back : List Task} {part : Task}
    (situated : Situated lines before after bell (.crowd roster (front ++ part :: back)) p)
    (idle : Idle 1 (.part roster front.length bell) part
      (taken (crowdOf inner bell roster) (front ++ part :: back) p) p') :
    restlessnessOfAll p'.rota front = restlessnessOfAll p.rota front ∧
      restlessnessOfAll p'.rota back = restlessnessOfAll p.rota back := by
  obtain ⟨-, -, rang, stirred, -⟩ := idle
  have kept : ∀ id, id ∈ rostersOf (sitesOfCrowd roster bell 0 front) ∨
      id ∈ rostersOf (sitesOfCrowd roster bell (front.length + 1) back) →
      p'.rota.rosters[id]? = p.rota.rosters[id]? := by
    intro id member
    obtain ⟨other, notPart, clear⟩ := situated.rosters_beside member
    rw [stirred.rosters notPart List.mem_cons_self clear]
    exact Rota.rosters_update_ne other
  constructor
  · exact restlessnessOfAll_congr roster bell 0 fun id member => kept id (.inl member)
  · exact restlessnessOfAll_congr roster bell (front.length + 1) fun id member =>
      kept id (.inr member)

/-- The part itself was as restless before its number was taken off the roster. -/
private theorem Situated.restlessness_taken {front back : List Task} {part : Task}
    (situated : Situated lines before after bell (.crowd roster (front ++ part :: back)) p)
    (inner : Visit) :
    restlessness (taken (crowdOf inner bell roster) (front ++ part :: back) p).rota part =
      restlessness p.rota part := by
  apply restlessness_congr (.part roster front.length bell)
  intro id member
  apply Rota.rosters_update_ne
  rintro rfl
  exact situated.rosters_part.1 member

/-- A visit that finds nothing to do in a part that rang makes the crowd calmer. -/
private theorem Idle.inCrowd {front back : List Task} {part : Task}
    (situated : Situated lines before after bell (.crowd roster (front ++ part :: back)) p)
    (first : (rungParts (crowdOf inner bell roster) (front ++ part :: back) p).head? =
      some front.length)
    (going : part.isOver = false)
    (idle : Idle 1 (.part roster front.length bell) part
      (taken (crowdOf inner bell roster) (front ++ part :: back) p) p') :
    p'.board = p.board ∧ p'.allowance = p.allowance ∧ ∃ rang : Bool,
      p.rota.Stirred (rostersOf ((crowd roster (front ++ part :: back)).sites bell)) bell rang
        p'.rota ∧
      restlessness p'.rota (.crowd roster (front ++ part :: back)) + 1 ≤
        restlessness p.rota (.crowd roster (front ++ part :: back)) := by
  obtain ⟨inFront, inBack⟩ := Idle.restlessness_beside situated idle
  have atFirst := situated.restlessness_taken inner
  obtain ⟨notPart, within⟩ := situated.rosters_part
  obtain ⟨board, allowance, rang, stirred, calmer⟩ := idle
  have clear := situated.clear
  have own : roster ∈ rostersOf ((crowd roster (front ++ part :: back)).sites bell) := by
    rw [rostersOf_crowd]
    exact List.mem_cons_self
  have takes : p.rota.Stirred (rostersOf ((crowd roster (front ++ part :: back)).sites bell)) bell
      false (taken (crowdOf inner bell roster) (front ++ part :: back) p).rota :=
    Rota.agree_update own
  obtain ⟨rang', stirs⟩ := stirred.outward within own clear
  refine ⟨board, allowance, false || rang', takes.trans clear stirs, ?_⟩
  have added := stirred.countP_rungOn_le (isGoing (front ++ part :: back)) notPart
    fun outer inside id member => clear outer inside id (List.mem_singleton.mp member ▸ own)
  have passed := count_taken inner bell roster (front ++ part :: back) p
  have whole := count_rungParts inner bell roster (front ++ part :: back) p
  have counts : isGoing (front ++ part :: back) front.length := by simp [isGoing, going]
  generalize rungParts (crowdOf inner bell roster) (front ++ part :: back) p = rung at *
  cases rung with
  | nil => cases first
  | cons head tail =>
      obtain rfl := Option.some.inj first
      have bound := rang.toNat_le
      rw [List.countP_cons_of_pos counts] at whole
      simp only [restlessness, restlessnessOfAll_append, restlessnessOfAll, inFront, inBack]
      simp only [List.tail_cons] at passed
      omega

private theorem Situated.restlessness_update
    (situated : Situated lines before after bell (.crowd roster parts) p) (f : Roster → Roster) :
    restlessnessOfAll (p.rota.update roster f) parts = restlessnessOfAll p.rota parts := by
  have outside := (List.nodup_cons.mp situated.nodup).1
  apply restlessnessOfAll_congr roster bell 0
  intro id member
  apply Rota.rosters_update_ne
  rintro rfl
  exact outside member

/-- A ring of its own bell leaves a task as restless as it was. -/
private theorem restlessness_ring (rota : Rota)
    (clear : Rota.Clear (rostersOf (task.sites bell)) bell) :
    restlessness (rota.ring bell) task = restlessness rota task :=
  restlessness_congr bell fun _ member => clear.rosters_ring member

/-- What a visit to a part of a crowd that rang does to the whole. -/
private theorem advance_part {part part' : Task}
    (situated : Situated lines before after bell (.crowd roster parts) p)
    (pending : (crowdOf inner bell roster).pending? parts index = some part)
    (first : (rungParts (crowdOf inner bell roster) parts p).head? = some index)
    (visited : Sound env (Advances env lines) (.part roster index bell) part
      (taken (crowdOf inner bell roster) parts p) part' p')
    (unsettled : ∀ part ∈ parts, part.Unsettled) (mayAct : p.allowance ≠ 0) :
    loadOf env (sitesOfCrowd roster bell 0 (parts.set index part')) <
        loadOf env (sitesOfCrowd roster bell 0 parts) ∨
      part' = part ∧ parts.set index part' = parts ∧
        p'.board = p.board ∧ p'.allowance = p.allowance ∧ ∃ rang : Bool,
          p.rota.Stirred (rostersOf ((crowd roster parts).sites bell)) bell rang p'.rota ∧
          restlessness p'.rota (.crowd roster parts) + 1 ≤
            restlessness p.rota (.crowd roster parts) := by
  obtain ⟨located, going⟩ := getElem?_of_pending? pending
  have situatedTaken := situated.whenTaken inner
  obtain ⟨front, back, rfl, rfl⟩ := exists_split located
  have changed : (front ++ part :: back).set front.length part' = front ++ part' :: back := by
    rw [List.set_append_right _ _ (Nat.le_refl _), Nat.sub_self, List.set_cons_zero]
  obtain ⟨-, -, advances⟩ := visited
  rcases advances _ _ situatedTaken.ofCrowd (unsettled part (by simp)) mayAct with
    less | ⟨rfl, idle⟩
  · left
    rw [changed, sitesOfCrowd_append, sitesOfCrowd_append]
    simp only [sitesOfCrowd, loadOf_append, Nat.zero_add]
    omega
  · exact .inr ⟨rfl, changed, idle.inCrowd situated first going⟩

private theorem advance_stretch {left : Nat} {parts' : List Task} {ended : Bool}
    (stretched : Stretched (Sound env (Advances env lines)) (crowdOf inner bell roster) left parts p
      ended parts' p')
    (situated : Situated lines before after bell (.crowd roster parts) p)
    (unsettled : ∀ part ∈ parts, part.Unsettled) (mayAct : p.allowance ≠ 0) :
    loadOf env (sitesOfCrowd roster bell 0 parts') < loadOf env (sitesOfCrowd roster bell 0 parts) ∨
      ended = false ∧ parts' = parts ∧ Idle left bell (.crowd roster parts) p p' := by
  have clear := situated.clear
  induction stretched with
  | @weary parts p =>
      refine .inr ⟨rfl, rfl, rfl, rfl, true, Rota.Agree.refl, ?_⟩
      exact Nat.le_of_eq (restlessness_ring _ clear)
  | @quiet left parts p nothing =>
      have here : roster ∈ rostersOf ((crowd roster parts).sites bell) :=
        mem_rostersOf.mpr ⟨bell, by simp [sites]⟩
      have counts := count_taken inner bell roster parts p
      rw [nothing] at counts
      refine .inr ⟨rfl, rfl, rfl, rfl, false, Rota.agree_update here, ?_⟩
      have same := situated.restlessness_update
        ({ · with rung := (rungParts (crowdOf inner bell roster) parts p).tail })
      simp only [restlessness]
      change 2 * restlessnessOfAll (p.rota.update roster _) parts + _ + _ ≤ _
      rw [same]
      simpa using Nat.le_trans counts (Nat.zero_le _)
  | finished pending first visited finished =>
      rcases advance_part situated pending first visited unsettled mayAct with less | ⟨rfl, -⟩
      · exact .inl less
      · rw [(getElem?_of_pending? pending).2] at finished
        cases finished
  | @restless left parts index part part' p' p pending first visited _ =>
      rcases advance_part situated pending first visited unsettled mayAct with
        less | ⟨rfl, same, board, allowance, rang, stirred, calmer⟩
      · exact .inl less
      · refine .inr ⟨rfl, same, board, allowance, rang || true,
          stirred.trans clear (Rota.Agree.refl : Rota.Stirred _ bell true _ _), ?_⟩
        have rings := restlessness_ring p'.rota clear
        change restlessness (p'.rota.ring bell) (crowd roster parts) + _ ≤ _
        simp only [Bool.or_true, Bool.toNat_true]
        omega
  | @next left parts index part part' q ended parts' p' p pending first visited _ rest ih =>
      obtain ⟨located, -⟩ := getElem?_of_pending? pending
      have next := ((situated.whenTaken inner).steps (Steps.inCrowd visited.1 located)).1
      have later : loadOf env (sitesOfCrowd roster bell 0 parts') ≤
          loadOf env (sitesOfCrowd roster bell 0 (parts.set index part')) := by
        have steps := Steps.load_le (steps_stretched sound_stepwise rest)
        simp only [crowdOf, sites, loadOf_cons] at steps
        omega
      rcases advance_part situated pending first visited unsettled mayAct with
        less | ⟨rfl, same, board, allowance, rang, stirred, calmer⟩
      · exact .inl (by omega)
      · rw [same] at ih next later
        rcases ih next unsettled (allowance ▸ mayAct) clear with
          less | ⟨rfl, rfl, board', allowance', rang', stirred', calmer'⟩
        · exact .inl less
        · refine .inr ⟨rfl, rfl, board'.trans board, allowance'.trans allowance, rang || rang',
            stirred.trans clear stirred', ?_⟩
          have bound := rang.toNat_le
          have bound' := (rang || rang').toNat_le
          omega

private theorem busy_pos (inner : Visit) (bell : Bell) (roster : Nat)
    (unsettled : outcomeInOrder? parts = none) :
    0 < (crowdOf inner bell roster).busy parts := by
  obtain ⟨part, member, going⟩ := exists_going unsettled
  exact List.countP_pos_iff.mpr ⟨part, member, by simp [crowdOf, isOver, going]⟩

private theorem restlessness_armed
    (situated : Situated lines before after bell (.crowd roster parts) p) :
    restlessness (armed (crowdOf inner bell roster) p).rota (.crowd roster parts) =
      restlessness p.rota (.crowd roster parts) := by
  have rung : (p.rota.update roster ({ · with armed := true })).rungOn roster =
      p.rota.rungOn roster := by
    unfold Rota.rungOn
    rw [Rota.rosters_update_self]
    cases p.rota.rosters[roster]? <;> rfl
  change restlessness (p.rota.update roster ({ · with armed := true })) (.crowd roster parts) = _
  simp only [restlessness, rung, situated.restlessness_update]

private theorem advance_attended {ends : Nat} {parts' : List Task}
    (attended : Attended (Sound env (Advances env lines)) (crowdOf inner bell roster) ends parts p
      parts' p')
    (situated : Situated lines before after bell (.crowd roster parts) p)
    (going : outcomeInOrder? parts = none)
    (unsettled : ∀ part ∈ parts, part.Unsettled) (mayAct : p.allowance ≠ 0) :
    loadOf env (sitesOfCrowd roster bell 0 parts') < loadOf env (sitesOfCrowd roster bell 0 parts) ∨
      parts' = parts ∧ Idle 1 bell (.crowd roster parts) p p' := by
  have here : roster ∈ rostersOf ((crowd roster parts).sites bell) :=
    mem_rostersOf.mpr ⟨bell, by simp [sites]⟩
  have arms := situated.whenArmed inner
  cases attended with
  | out | settled => exact .inr ⟨rfl, .refl⟩
  | breakOff _ stretched =>
      rcases advance_stretch stretched arms unsettled mayAct with
        less | ⟨-, rfl, board, allowance, rang, stirred, calmer⟩
      · exact .inl less
      · refine .inr ⟨rfl, board, allowance, false || rang,
          Rota.Stirred.trans situated.clear (Rota.agree_update here) stirred, ?_⟩
        have visits := busy_pos inner bell roster going
        rw [restlessness_armed situated] at calmer
        have bound := rang.toNat_le
        have bound' := (false || rang).toNat_le
        simp only [Bool.false_or]
        omega
  | pause _ stretched =>
      rcases advance_stretch stretched arms unsettled mayAct with less | ⟨same, -⟩
      · exact .inl less
      · cases same
  | again _ stretched rest =>
      rcases advance_stretch stretched arms unsettled mayAct with less | ⟨same, -⟩
      · have steps := Steps.load_le (steps_attended sound_stepwise rest)
        simp only [crowdOf, sites, loadOf_cons] at steps
        exact .inl (by omega)
      · cases same

/-! ## Lookups -/

private theorem load_await {ends : Nat} {alarm : Option Nat} {stage' : Stage}
    (awaited : (Stage.await bell ends alarm).run p = (some stage', p')) :
    stage'.load ≤ (Stage.underway ends alarm).load := by
  rw [Stage.run_await] at awaited
  split at awaited
  · obtain rfl := Option.some.inj (Prod.mk.inj awaited).1
    exact Nat.le_refl _
  · split at awaited
    · cases awaited
    · split at awaited
      · obtain rfl := Option.some.inj (Prod.mk.inj awaited).1
        exact Nat.le_refl _
      · obtain rfl := Option.some.inj (Prod.mk.inj awaited).1
        exact Nat.le_succ _

private theorem load_call {name : String} {wait? : Option Nat} {stage' : Stage}
    (called : (Stage.call name wait? bell).run p = (some stage', p')) : stage'.load ≤ 2 := by
  rw [Stage.run_call] at called
  cases wait? with
  | none => cases called
  | some wait => exact load_await called

/-- If an action is left, a visit takes a lookup to a later stage or changes nothing. -/
private theorem advance_stage {name : String} {wait? : Option Nat} {stage stage' : Stage}
    (mayAct : p.allowance ≠ 0)
    (visited : (stage.visit name wait? bell).run p = (some stage', p')) :
    stage'.load < stage.load ∨ stage' = stage ∧ p' = p := by
  cases stage with
  | idle =>
      rw [Stage.run_visit_idle, if_neg mayAct] at visited
      split at visited
      · obtain rfl := Option.some.inj (Prod.mk.inj visited).1
        exact .inl (Nat.lt_succ_self _)
      · exact .inl (Nat.lt_of_le_of_lt (load_call visited) (by decide))
  | queued number =>
      rw [Stage.run_visit_queued, if_neg mayAct] at visited
      split at visited
      · exact .inl (Nat.lt_succ_of_le (load_call visited))
      · obtain ⟨same, rfl⟩ := Prod.mk.inj visited
        exact .inr ⟨(Option.some.inj same).symm, rfl⟩
  | underway ends alarm =>
      have visited : (Stage.await bell ends alarm).run p = (some stage', p') := visited
      rw [Stage.run_await, if_neg mayAct] at visited
      split at visited
      · cases visited
      · cases alarm with
        | some number =>
            obtain ⟨same, rfl⟩ := Prod.mk.inj visited
            exact .inr ⟨(Option.some.inj same).symm, rfl⟩
        | none =>
            obtain rfl := Option.some.inj (Prod.mk.inj visited).1
            exact .inl (Nat.lt_succ_self _)

/-! ## Tasks -/

private theorem Advances.of_less {next : Task} {q : Progress}
    (less : loadOf env (next.sites bell) < loadOf env (task.sites bell))
    (advances : Advances env lines bell next q task' p') : Advances env lines bell task p task' p' :=
  ⟨Nat.le_of_lt (Nat.lt_of_le_of_lt advances.1 less),
    fun _ _ _ _ _ => .inl (Nat.lt_of_le_of_lt advances.1 less)⟩

theorem advance_cases (env : Environment) (lines : Nat) :
    VisitCases env (Advances env lines) where
  ended := ⟨Nat.le_refl _, fun _ _ _ _ _ => .inr ⟨rfl, .refl⟩⟩
  finished := fun going steps => ⟨steps.load_le, fun _ _ _ unsettled _ =>
    .inl (unsettled.one_le_load env _ going)⟩
  token := by
    intro bell scope token p messages task' p' _ advances
    have unfolds : Unfolds env scope (.literal token) (opened env scope token) := .token
    have less := unfolds.load_lt bell
    clear unfolds
    generalize opened env scope token = task at advances less
    refine advances.of_less ?_
    simpa [sites, Site.load] using less
  record := by
    intro bell scope ip comment p task' p' advances
    refine advances.of_less ?_
    have unfolds : Unfolds env scope (.record ip comment) _ := .record
    have less := unfolds.load_lt bell
    simpa [sites, Site.load] using less
  list := by
    intro bell scope items p task' p' advances
    have whole := load_ofParts env bell scope items p
    refine advances.of_less ?_
    rw [sites, loadOf_cons, loadOf_nil, Site.load, ← whole]
    exact Nat.lt_succ_self _
  stay := by
    intro bell scope name stage stage' p p' visited
    refine ⟨(steps_stage visited).load_le, fun _ _ _ _ mayAct => ?_⟩
    rcases advance_stage mayAct visited with less | ⟨rfl, rfl⟩
    · left
      simp only [sites, loadOf_cons, loadOf_nil, Site.load]
      omega
    · exact .inr ⟨rfl, .refl⟩
  answer := by
    intro bell scope name stage p q task' p' visited advances
    refine advances.of_less ?_
    have body := load_answered env bell scope name
    have stages : 1 ≤ stage.load := by
      rcases stage with _ | _ | ⟨_, _ | _⟩ <;> simp [Stage.load]
    simp only [sites, loadOf_cons, loadOf_nil, Site.load]
    omega
  gather := by
    intro bell scope gathering body p body' p' going visited
    refine ⟨visited.2.1, fun before after situated unsettled mayAct => ?_⟩
    cases unsettled with
    | gather _ inside =>
        refine (visited.2.2 before after situated.ofGather inside mayAct).imp_right ?_
        rintro ⟨rfl, idle⟩
        exact ⟨rfl, idle.board, idle.allowance, idle.calmer⟩
  join := by
    intro bell parts p parts' p' going visited
    refine ⟨Steps.load_le (visited.steps sound_stepwise []),
      fun before after situated unsettled mayAct => ?_⟩
    cases unsettled with
    | join _ inside =>
        refine (advance_each visited (failure?_of_together going) situated inside mayAct).imp_right ?_
        rintro ⟨rfl, idle⟩
        exact ⟨rfl, idle⟩
  crowd := by
    intro inner bell roster parts p parts' p' going attended
    refine ⟨Steps.load_le (steps_attended sound_stepwise attended),
      fun before after situated unsettled mayAct => ?_⟩
    cases unsettled with
    | crowd going inside =>
        have advances := advance_attended attended situated going inside mayAct
        simp only [sites, loadOf_cons]
        refine advances.imp (Nat.add_lt_add_left · _) ?_
        rintro ⟨rfl, idle⟩
        exact ⟨rfl, idle⟩

/-- A visit that may act lowers what is left to be done, or finds nothing to do. -/
theorem advance_visit {levels : Nat} (fits : task.Fits env levels) :
    Advances env lines bell task p ((visit env levels bell task).run p).1
      ((visit env levels bell task).run p).2 :=
  visit_induct (advance_cases env lines) fits rfl

/-! ## How restless a task can be -/

private theorem countP_range (parts : List Task) :
    (List.range parts.length).countP (isGoing parts) = parts.countP (!·.isOver) := by
  induction parts with
  | nil => rfl
  | cons part parts ih =>
      have first : isGoing (part :: parts) 0 = !part.isOver := by
        cases finished : part.isOver <;> simp [isGoing, finished]
      have others : isGoing (part :: parts) ∘ Nat.succ = isGoing parts := rfl
      rw [List.length_cons, List.range_succ_eq_map, List.countP_cons, List.countP_map, others, ih,
        List.countP_cons, first]

private theorem countP_rung_le {rung : List Nat} (nodup : rung.Nodup) (parts : List Task) :
    rung.countP (isGoing parts) ≤ parts.countP (!·.isOver) := by
  rw [← countP_range, List.countP_eq_length_filter, List.countP_eq_length_filter]
  refine ((nodup.filter _).subperm fun i member => ?_).length_le
  obtain ⟨-, going⟩ := List.mem_filter.mp member
  refine List.mem_filter.mpr ⟨List.mem_range.mpr ?_, going⟩
  by_contra high
  rw [isGoing, List.getElem?_eq_none (Nat.le_of_not_lt high)] at going
  cases going

private theorem countP_going_le (env : Environment) (roster : Nat) (bell : Bell)
    {parts : List Task} (unsettled : ∀ part ∈ parts, part.Unsettled) (first : Nat) :
    parts.countP (!·.isOver) ≤ loadOf env (sitesOfCrowd roster bell first parts) := by
  induction parts generalizing first with
  | nil => exact Nat.le_refl _
  | cons part parts ih =>
      have others := ih (fun part member => unsettled part (List.mem_cons_of_mem _ member))
        (first + 1)
      rw [List.countP_cons, sitesOfCrowd, loadOf_append]
      split
      · next going =>
        have here := (unsettled part List.mem_cons_self).one_le_load env
          (.part roster first bell) (by simpa [isOver] using going)
        omega
      · omega

/-- The rosters of a task that fits some levels call for no more visits than this. -/
theorem restlessness_le (bell : Bell) {levels : Nat} (fits : task.Fits env levels)
    (unsettled : task.Unsettled) (nodup : ∀ id, (rota.rungOn id).Nodup) :
    restlessness rota task + loadOf env (task.sites bell) ≤
      2 ^ levels * loadOf env (task.sites bell) := by
  induction task using Task.induct generalizing levels bell with
  | fresh | lookup | ended =>
      simp only [restlessness, Nat.zero_add]
      exact Nat.le_mul_of_pos_left _ (Nat.two_pow_pos _)
  | gather _ _ _ ih =>
      obtain ⟨inner, rfl, inside⟩ := fits.of_gather
      cases unsettled with
      | gather _ unsettled =>
          refine Nat.le_trans (ih bell inside unsettled) (Nat.mul_le_mul_right _ ?_)
          exact Nat.pow_le_pow_right Nat.two_pos (Nat.le_succ _)
  | join parts ih =>
      obtain ⟨inner, rfl, inside⟩ := fits.of_join
      cases unsettled with
      | join going unsettled =>
          have all : restlessnessOfAll rota parts + loadOf env (sitesOfJoin bell parts) ≤
              2 ^ inner * loadOf env (sitesOfJoin bell parts) := by
            clear fits going
            induction parts with
            | nil => exact Nat.le_refl _
            | cons part parts ihParts =>
                simp only [List.forall_mem_cons] at ih inside unsettled
                have first := ih.1 bell inside.1 unsettled.1
                have others := ihParts ih.2 inside.2 unsettled.2
                simp only [restlessnessOfAll, sitesOfJoin, loadOf_append, Nat.mul_add]
                omega
          refine Nat.le_trans all (Nat.mul_le_mul_right _ ?_)
          exact Nat.pow_le_pow_right Nat.two_pos (Nat.le_succ _)
  | crowd roster parts ih =>
      obtain ⟨inner, rfl, inside⟩ := fits.of_crowd
      cases unsettled with
      | crowd going unsettled =>
          have all : ∀ first, restlessnessOfAll rota parts +
              loadOf env (sitesOfCrowd roster bell first parts) ≤
                2 ^ inner * loadOf env (sitesOfCrowd roster bell first parts) := by
            clear fits going
            induction parts with
            | nil => exact fun _ => Nat.le_refl _
            | cons part parts ihParts =>
                intro first
                simp only [List.forall_mem_cons] at ih inside unsettled
                have here := ih.1 (.part roster first bell) inside.1 unsettled.1
                have others := ihParts ih.2 inside.2 unsettled.2 (first + 1)
                simp only [restlessnessOfAll, sitesOfCrowd, loadOf_append, Nat.mul_add]
                omega
          have parts' := all 0
          have rung := Nat.le_trans (countP_rung_le (nodup roster) parts)
            (countP_going_le env roster bell unsettled 0)
          simp only [restlessness, sites, loadOf_cons, Site.load, Nat.zero_add, Nat.pow_succ]
          generalize loadOf env (sitesOfCrowd roster bell 0 parts) = load at *
          rw [Nat.mul_right_comm]
          omega

end Task

end AddressExpansion
