import Mathlib.Logic.Relation
import Mathlib.Tactic.Common
import AddressExpansion.Proofs.Rota
import AddressExpansion.Proofs.Task.Worth

/-! # Sites of a task

The sites of a task are the places in it where something may go on: terms that nobody looked at,
lookups, and the rosters of crowds, each with the bell that it leaves. A step changes a few
neighbouring sites, or gives up all sites of a settled list. So whatever single changes keep,
among any other sites, is kept by steps (`Step.keepsSites`).
-/

namespace AddressExpansion

/-- A place in a task where something may go on, with the bell that it leaves. -/
inductive Site where
  | fresh (bell : Bell) (scope : Scope) (term : Term)
  | lookup (bell : Bell) (scope : Scope) (name : String) (stage : Stage)
  /-- The roster of a crowd, with the bell of the whole crowd. -/
  | crowd (bell : Bell) (roster : Nat)

namespace Site

def bell : Site → Bell
  | fresh bell .. | lookup bell .. | crowd bell _ => bell

def roster? : Site → Option Nat
  | crowd _ roster => some roster
  | _ => none

def alarms : Site → List Alarm
  | lookup bell _ _ stage => stage.alarms bell
  | _ => []

/-- Gives up what a site is about to do. -/
def abandon (p : Progress) : Site → Progress
  | lookup _ _ _ (.queued ticket) => p.handOver (·.discard ticket)
  | lookup _ _ _ (.underway ..) => p.handOver Switchboard.hangUp
  | crowd _ roster => p.onRota (·.update roster ({ · with armed := false }))
  | _ => p

/-- Whether a site with a bell did not start yet. -/
def Unstarted (bell : Bell) : Site → Prop
  | fresh bell' .. => bell' = bell
  | lookup bell' _ _ .idle => bell' = bell
  | _ => False

end Site

namespace Task

mutual

/-- The sites of a task that leaves a bell. -/
def sites (bell : Bell) : Task → List Site
  | .fresh scope term => [.fresh bell scope term]
  | .lookup scope name stage => [.lookup bell scope name stage]
  | .gather _ _ body => sites bell body
  | .join parts => sitesOfJoin bell parts
  | .crowd roster parts => .crowd bell roster :: sitesOfCrowd roster bell 0 parts
  | .ended _ => []

def sitesOfJoin (bell : Bell) : List Task → List Site
  | [] => []
  | task :: tasks => sites bell task ++ sitesOfJoin bell tasks

/-- The sites of the parts of a crowd, of which the first has this index. -/
def sitesOfCrowd (roster : Nat) (bell : Bell) (index : Nat) : List Task → List Site
  | [] => []
  | task :: tasks =>
    sites (.part roster index bell) task ++ sitesOfCrowd roster bell (index + 1) tasks

end

theorem sitesOfJoin_eq_flatMap (bell : Bell) (parts : List Task) :
    sitesOfJoin bell parts = parts.flatMap (sites bell) := by
  induction parts with
  | nil => rfl
  | cons part parts ih => simp only [sitesOfJoin, List.flatMap_cons, ih]

theorem sitesOfJoin_append (bell : Bell) (front back : List Task) :
    sitesOfJoin bell (front ++ back) = sitesOfJoin bell front ++ sitesOfJoin bell back := by
  simp only [sitesOfJoin_eq_flatMap, List.flatMap_append]

theorem sitesOfCrowd_append (roster : Nat) (bell : Bell) (index : Nat) (front back : List Task) :
    sitesOfCrowd roster bell index (front ++ back) =
      sitesOfCrowd roster bell index front ++
        sitesOfCrowd roster bell (index + front.length) back := by
  induction front generalizing index with
  | nil => rfl
  | cons part front ih =>
      have after : index + 1 + front.length = index + (front.length + 1) := by omega
      simp only [List.cons_append, sitesOfCrowd, ih, List.length_cons, List.append_assoc, after]

theorem mem_sitesOfCrowd {roster : Nat} {bell : Bell} {index : Nat} {parts : List Task}
    {site : Site} :
    site ∈ sitesOfCrowd roster bell index parts ↔
      ∃ i part, parts[i]? = some part ∧ site ∈ sites (.part roster (index + i) bell) part := by
  induction parts generalizing index with
  | nil => simp [sitesOfCrowd]
  | cons part parts ih =>
      rw [sitesOfCrowd, List.mem_append, ih]
      constructor
      · rintro (here | ⟨i, part', located, there⟩)
        · exact ⟨0, part, rfl, here⟩
        · refine ⟨i + 1, part', located, ?_⟩
          rwa [show index + (i + 1) = index + 1 + i by omega]
      · rintro ⟨_ | i, part', located, there⟩
        · obtain rfl : part = part' := by simpa using located
          exact .inl there
        · refine .inr ⟨i, part', by simpa using located, ?_⟩
          rwa [show index + 1 + i = index + (i + 1) by omega]

theorem exists_split {parts : List Task} {i : Nat} {part : Task} (located : parts[i]? = some part) :
    ∃ front back, parts = front ++ part :: back ∧ front.length = i := by
  obtain ⟨inside, rfl⟩ := List.getElem?_eq_some_iff.mp located
  refine ⟨parts.take i, parts.drop (i + 1), ?_, by simp; omega⟩
  rw [List.getElem_cons_drop, List.take_append_drop]

theorem alarms_eq_flatMap (bell : Bell) (task : Task) :
    alarms bell task = (task.sites bell).flatMap Site.alarms := by
  induction task using induct generalizing bell with
  | fresh | ended => rfl
  | lookup => simp [alarms, sites, Site.alarms]
  | gather _ _ _ ih => exact ih bell
  | join parts ih =>
      simp only [alarms, sites]
      induction parts with
      | nil => rfl
      | cons part parts ihParts =>
          rw [alarmsOfJoin, sitesOfJoin, List.flatMap_append, ih part (by simp),
            ihParts fun part member => ih part (by simp [member])]
  | crowd roster parts ih =>
      simp only [alarms, sites, List.flatMap_cons, Site.alarms, List.nil_append]
      generalize 0 = index
      induction parts generalizing index with
      | nil => rfl
      | cons part parts ihParts =>
          rw [alarmsOfCrowd, sitesOfCrowd, List.flatMap_append, ih part (by simp),
            ihParts fun part member => ih part (by simp [member])]

/-- The bell of a site is that of the task, or stands on the roster of a crowd in the task. -/
theorem bell_of_mem_sites {bell : Bell} {task : Task} {site : Site}
    (member : site ∈ task.sites bell) :
    Bell.Within bell site.bell ∧
      (site.bell = bell ∨ ∃ id index outer,
        site.bell = .part id index outer ∧ .crowd outer id ∈ task.sites bell) := by
  induction task using induct generalizing bell with
  | fresh | lookup =>
      obtain rfl := List.mem_singleton.mp member
      exact ⟨.refl, .inl rfl⟩
  | ended => simp [sites] at member
  | gather _ _ _ ih => exact ih member
  | join parts ih =>
      rw [sites, sitesOfJoin_eq_flatMap] at member ⊢
      obtain ⟨part, here, member⟩ := List.mem_flatMap.mp member
      refine (ih part here member).imp_right (Or.imp_right ?_)
      rintro ⟨id, index, outer, same, around⟩
      exact ⟨id, index, outer, same, List.mem_flatMap.mpr ⟨part, here, around⟩⟩
  | crowd roster parts ih =>
      rcases List.mem_cons.mp member with rfl | member
      · exact ⟨.refl, .inl rfl⟩
      · obtain ⟨i, part, located, member⟩ := mem_sitesOfCrowd.mp member
        obtain ⟨within, same | ⟨id, index, outer, same, around⟩⟩ :=
          ih part (List.mem_of_getElem? located) member
        · exact ⟨.trans (.part .refl) within, .inr ⟨_, _, _, same, List.mem_cons_self⟩⟩
        · refine ⟨.trans (.part .refl) within, .inr ⟨id, index, outer, same, ?_⟩⟩
          exact List.mem_cons_of_mem _ (mem_sitesOfCrowd.mpr ⟨i, part, located, around⟩)

/-! ## Giving up -/

/-- To give up a task is to give up its sites. -/
theorem run_giveUp (bell : Bell) (task : Task) (p : Progress) :
    (giveUp task).run p = ((), (task.sites bell).foldl Site.abandon p) := by
  induction task using induct generalizing bell p with
  | fresh | ended => rfl
  | lookup scope name stage => cases stage <;> rfl
  | gather _ _ _ ih => exact ih bell p
  | join parts ih =>
      simp only [giveUp, sites]
      induction parts generalizing p with
      | nil => rfl
      | cons part parts ihParts =>
          rw [giveUpAll, Work.run_bind, ih part (by simp) bell, sitesOfJoin, List.foldl_append]
          exact ihParts (fun part member => ih part (by simp [member])) _
  | crowd roster parts ih =>
      rw [giveUp, sites, Work.run_bind, List.foldl_cons]
      change (giveUpAll parts).run (Site.abandon p (.crowd bell roster)) = _
      generalize Site.abandon p (.crowd bell roster) = q, 0 = index
      induction parts generalizing q index with
      | nil => rfl
      | cons part parts ihParts =>
          rw [giveUpAll, Work.run_bind, ih part (by simp) (.part roster index bell), sitesOfCrowd,
            List.foldl_append]
          exact ihParts (fun part member => ih part (by simp [member])) _ _

theorem giveUpAll_eq_abandon (bell : Bell) (parts : List Task) (p : Progress) :
    ((giveUpAll parts).run p).2 = ((join parts).sites bell).foldl Site.abandon p :=
  congrArg Prod.snd (run_giveUp bell (join parts) p)

end Task

theorem Site.keeps_abandonAll {P : Progress → Prop} (keeps : ∀ site {p}, P p → P (abandon p site))
    (sites : List Site) {p : Progress} (start : P p) : P (sites.foldl abandon p) := by
  induction sites generalizing p with
  | nil => exact start
  | cons site sites ih => exact ih (keeps site start)

end AddressExpansion
