import AddressExpansion.Proofs.Task.Calls
import AddressExpansion.Proofs.Task.Close
import AddressExpansion.Proofs.Task.History

/-! # Lookups that need not wait for a line

As long as a task does not have more lookups than there are lines, every lookup gets its line at
once: whenever the clock moves, all lookups that a task has come to are under way
(`Rested.staysUntil`). So the close that a task comes to is the same at all moments of its course
(`Course.close_eq`).
-/

namespace AddressExpansion

theorem Site.Unstarted.endsFrom {bell : Bell} {site : Site} (unstarted : site.Unstarted bell)
    (time : Nat) : site.EndsFrom time := by
  match site with
  | .fresh .. | .crowd .. | .lookup _ _ _ .idle => trivial
  | .lookup _ _ _ (.queued _) | .lookup _ _ _ (.underway ..) => exact unstarted.elim

namespace Task

open Site

variable {env : Environment} {bell : Bell} {task task' : Task} {p p' : Progress}
  {front old new back : List Site}

/-! ## Demand -/

/-- The number of lookups that are under way at some sites, or still to come. -/
def demandOf (env : Environment) (sites : List Site) : Nat :=
  (lookupsOf env sites).length + underwayOf sites

@[simp] theorem demandOf_append (front back : List Site) :
    demandOf env (front ++ back) = demandOf env front + demandOf env back := by
  simp only [demandOf, lookupsOf_append, List.length_append, underwayOf_append]
  omega

theorem demandOf_holdsNothing {sites : List Site} (free : ∀ site ∈ sites, site.HoldsNothing) :
    demandOf env sites = (lookupsOf env sites).length := by
  rw [demandOf, underwayOf_holdsNothing free, Nat.add_zero]

theorem demandOf_fresh {scope : Scope} {term : Term} :
    demandOf env [.fresh bell scope term] = (Expansion.inScope env scope term).lookups.length := by
  simp [demandOf, lookupsOf, Site.lookups, underwayOf, isUnderway]

theorem demandOf_lookup {scope : Scope} {name : String} {stage : Stage} :
    demandOf env [.lookup bell scope name stage] =
      (Expansion.ofHost env scope name).lookups.length := by
  have some_lookup : (Expansion.ofHost env scope name).lookups.length ≠ 0 := by
    rw [lookups_ofHost bell]
    exact Nat.succ_ne_zero _
  cases stage <;> simp [demandOf, lookupsOf, Site.lookups, underwayOf, isUnderway]
  omega

/-- No change adds to the lookups that are under way or still to come. -/
theorem Change.demand_le (change : Change env old p new p') :
    demandOf env new ≤ demandOf env old := by
  cases change with
  | remark | spend | putOff | roster | ring => exact Nat.le_refl _
  | draw | take | claim | setAlarm => rw [demandOf_lookup, demandOf_lookup]
  | unfold unfolds =>
      rw [demandOf_holdsNothing fun site member => (unfolds.unstarted site member).holdsNothing,
        unfolds.lookups_eq, demandOf_fresh]
  | @openCrowd bell scope items =>
      have free : ∀ site ∈ Site.crowd bell p.rota.rosters.size ::
          sitesOfCrowd p.rota.rosters.size bell 0 (items.map (.fresh scope)),
            site.HoldsNothing := by
        intro site member
        rcases List.mem_cons.mp member with rfl | member
        · exact ⟨rfl, rfl⟩
        · obtain ⟨i, item, -, rfl⟩ := Wired.mem_fresh_sitesOfCrowd member
          exact ⟨rfl, rfl⟩
      have same := lookups_freshAll env bell scope items
      rw [← lookups_sitesOfCrowd_fresh p.rota.rosters.size bell 0] at same
      rw [demandOf_holdsNothing free, demandOf_fresh, ← same]
      exact Nat.le_refl _
  | hangUp =>
      rw [demandOf_holdsNothing fun site member => (answered_unstarted site member).holdsNothing,
        demandOf_lookup, lookups_ofHost]
      exact Nat.le_succ _

/-! ## Ends of calls -/

theorem Change.endsFrom (change : Change env old p new p')
    (punctual : ∀ site ∈ old, site.EndsFrom p.board.now) :
    ∀ site ∈ new, site.EndsFrom p'.board.now := by
  rw [change.now_eq]
  cases change with
  | remark | spend | putOff | roster | ring => exact punctual
  | unfold unfolds => exact fun site member => (unfolds.unstarted site member).endsFrom _
  | hangUp => exact fun site member => (answered_unstarted site member).endsFrom _
  | draw => exact List.forall_mem_singleton.mpr trivial
  | take | claim => exact List.forall_mem_singleton.mpr (Nat.le_add_right ..)
  | setAlarm early => exact List.forall_mem_singleton.mpr (Nat.le_of_lt early)
  | openCrowd many =>
      intro site member
      rcases List.mem_cons.mp member with rfl | member
      · trivial
      · obtain ⟨i, item, -, rfl⟩ := Wired.mem_fresh_sitesOfCrowd member
        trivial

/-- What holds of sites at which no lookup has to wait for a line. -/
structure Unhindered (env : Environment) (sites : List Site) (p : Progress) : Prop where
  punctual : ∀ site ∈ sites, site.EndsFrom p.board.now
  demand : demandOf env sites ≤ env.permits

theorem Change.unhindered (change : Change env old p new p')
    (unhindered : Unhindered env (front ++ old ++ back) p) :
    Unhindered env (front ++ new ++ back) p' := by
  obtain ⟨punctual, demand⟩ := unhindered
  have fewer := change.demand_le
  constructor
  · simp only [List.forall_mem_append] at punctual ⊢
    obtain ⟨⟨before, here⟩, after⟩ := punctual
    rw [← change.now_eq] at before after
    exact ⟨⟨before, change.endsFrom here⟩, after⟩
  · simp only [demandOf_append] at demand ⊢
    omega

theorem Unhindered.abandon {site : Site} (unhindered : Unhindered env (front ++ site :: back) p) :
    Unhindered env (front ++ back) (site.abandon p) := by
  obtain ⟨punctual, demand⟩ := unhindered
  constructor
  · rw [now_abandon]
    intro other member
    refine punctual other ?_
    rcases List.mem_append.mp member with before | after
    · exact List.mem_append_left _ before
    · exact List.mem_append_right _ (List.mem_cons_of_mem _ after)
  · rw [← List.singleton_append] at demand
    simp only [demandOf_append] at demand ⊢
    omega

theorem Step.unhindered (step : Step env bell task p task' p')
    (unhindered : Unhindered env (task.sites bell) p) : Unhindered env (task'.sites bell) p' := by
  have kept := step.keepsSites (I := Unhindered env) (fun change => change.unhindered)
    Unhindered.abandon [] [] (by simpa using unhindered)
  simpa using kept

/-! ## Moves of the clock -/

namespace Rested

variable {levels time : Nat} (rested : Rested env levels env.permits task p)
  (silent : p.rota.rang = false) (next : Alarm.nextTime? (task.alarms .main) = some time)
include rested silent next

theorem le_ends {bell : Bell} {scope : Scope} {name : String} {ends : Nat} {alarm : Option Nat}
    (member : .lookup bell scope name (.underway ends alarm) ∈ task.sites .main) : time ≤ ends := by
  obtain ⟨-, number, rfl⟩ := rested.alarmed silent member
  have set : (⟨ends, number, bell⟩ : Alarm) ∈ task.alarms .main :=
    mem_alarms.mpr ⟨scope, name, member⟩
  exact (List.min?_eq_some_iff.mp next).2 ends (List.mem_map_of_mem set)

theorem now_lt : p.board.now < time := by
  obtain ⟨alarm, set, rfl⟩ := List.mem_map.mp (List.min?_mem next)
  obtain ⟨scope, name, member⟩ := mem_alarms.mp set
  exact (rested.alarmed silent member).1

/-- When the clock moves, no lookup waits for a line, and none ends earlier. -/
theorem staysUntil (unhindered : Unhindered env (task.sites .main) p) :
    ∀ site ∈ task.sites .main, site.StaysUntil time := by
  intro site member
  match site with
  | .crowd .. => trivial
  | .fresh .. => exact absurd .fresh (rested.stuck silent member)
  | .lookup _ _ _ .idle => exact absurd .idle (rested.stuck silent member)
  | .lookup _ _ _ (.underway ..) => exact rested.le_ends silent next member
  | .lookup bell scope name (.queued number) =>
      -- All lines are in use, and this lookup is one more.
      have busy := rested.lines_busy silent member
      rw [rested.orderly.ledger.inFlight_eq] at busy
      have demand := unhindered.demand
      have to_come : name ∈ lookupsOf env (task.sites .main) := by
        have first : name ∈ (Expansion.ofHost env scope name).lookups := by
          rw [lookups_ofHost bell]
          exact List.mem_cons_self
        exact List.mem_flatMap.mpr ⟨_, member, first⟩
      have one_more := List.length_pos_of_mem to_come
      rw [demandOf, busy] at demand
      omega

theorem unhindered_advanced (unhindered : Unhindered env (task.sites .main) p) :
    Unhindered env (task.sites .main) (p.advancedTo time (task.alarms .main)) := by
  refine ⟨fun site member => ?_, unhindered.demand⟩
  match site with
  | .fresh .. | .crowd .. | .lookup _ _ _ .idle | .lookup _ _ _ (.queued _) => trivial
  | .lookup _ _ _ (.underway ..) => exact rested.le_ends silent next member

end Rested

/-! ## Courses -/

section Courses

variable {levels : Nat} {m m' : Activity.Moment Task}

theorem close_eq_of_next (next : Activity.Next (activity env levels)
      (fun x y => Step env .main x.1 x.2 y.1 y.2) m m')
    (atRest : m.Keeps (activity env levels) (AtRest env levels env.permits))
    (unhindered : Unhindered env (m.state.sites .main) m.progress) :
    Unhindered env (m'.state.sites .main) m'.progress ∧
      close env m'.board.now m'.state = close env m.board.now m.state := by
  cases next with
  | begin | rest => exact ⟨⟨unhindered.punctual, unhindered.demand⟩, rfl⟩
  | @step task p task' p' goal here =>
      have same : close env p'.board.now task' = close env p.board.now task := by
        rw [here.now_eq]
        exact here.close_eq unhindered.punctual
      exact ⟨here.unhindered unhindered, same⟩
  | clock silent next =>
      rcases atRest with rested | ⟨-, rang, -⟩
      · exact ⟨rested.unhindered_advanced silent next unhindered,
          close_atTime rested.unsettled rested.going (Nat.le_of_lt (rested.now_lt silent next))
            (rested.staysUntil silent next unhindered)⟩
      · rw [rang] at silent
        cases silent

/-- At every moment of its course a task comes to a close as at the first. -/
theorem Course.close_eq (course : Course env levels m m')
    (proper : Proper env levels env.permits m m)
    (unhindered : Unhindered env (m.state.sites .main) m.progress) :
    close env m'.board.now m'.state = close env m.board.now m.state := by
  have kept := course.keeps (I := fun m' => Proper env levels env.permits m m' ∧
      Unhindered env (m'.state.sites .main) m'.progress ∧
        close env m'.board.now m'.state = close env m.board.now m.state) ?_
    ⟨proper, unhindered, rfl⟩
  · exact kept.2.2
  · rintro m₁ m₂ next ⟨proper, unhindered, same⟩
    obtain ⟨unhindered', same'⟩ := close_eq_of_next next proper.atRest unhindered
    exact ⟨proper.next next, unhindered', same'.trans same⟩

end Courses

end Task

end AddressExpansion
