import AddressExpansion.Proofs.Task.VisitInduction

/-! # Tasks with nothing left to put together

After a visit no part of a task is settled and waits to be put together: a list is open only while
one of its parts is (`unsettled_visit`). So a task that is not over has a site where something is
left to be done (`Unsettled.exists_site`).
-/

namespace AddressExpansion.Task

/-- Whether no part of a task is over that waits to be put together with others. -/
inductive Unsettled : Task → Prop
  | fresh {scope term} : Unsettled (.fresh scope term)
  | lookup {scope name stage} : Unsettled (.lookup scope name stage)
  | gather {scope gathering body} (going : body.outcome? = none) (inside : Unsettled body) :
      Unsettled (.gather scope gathering body)
  | join {parts} (going : outcomeTogether? parts = none) (inside : ∀ part ∈ parts, Unsettled part) :
      Unsettled (.join parts)
  | crowd {roster parts} (going : outcomeInOrder? parts = none)
      (inside : ∀ part ∈ parts, Unsettled part) : Unsettled (.crowd roster parts)
  | ended {outcome} : Unsettled (.ended outcome)

theorem outcomeInOrder?_of_together {parts : List Task} (going : outcomeTogether? parts = none) :
    outcomeInOrder? parts = none := by
  unfold outcomeTogether? at going
  split at going
  · cases going
  · exact going

theorem failure?_of_together {parts : List Task} (going : outcomeTogether? parts = none) :
    ∀ part ∈ parts, part.failure? = none := by
  unfold outcomeTogether? at going
  split at going
  · cases going
  · next none => exact List.findSome?_eq_none_iff.mp none

/-- A list whose outcome is not known has a first part that is not over, and all parts before it
    succeeded. -/
theorem going_cases {parts : List Task} (going : outcomeInOrder? parts = none) :
    ∃ front part back, parts = front ++ part :: back ∧ part.outcome? = none ∧
      ∀ part ∈ front, ∃ atoms, part = .ended (.ok atoms) := by
  fun_induction outcomeInOrder? with
  | case1 => cases going
  | case2 atoms tasks ih =>
      obtain ⟨front, part, back, rfl, open', before⟩ := ih (Option.map_eq_none_iff.mp going)
      exact ⟨.ended (.ok atoms) :: front, part, back, rfl, open',
        List.forall_mem_cons.mpr ⟨⟨_, rfl⟩, before⟩⟩
  | case3 => cases going
  | case4 task tasks notOk notError =>
      refine ⟨[], task, tasks, rfl, ?_, List.forall_mem_nil _⟩
      cases task with
      | ended outcome =>
          cases outcome with
          | ok atoms => exact absurd rfl (notOk atoms)
          | error failure => exact absurd rfl (notError failure)
      | fresh | lookup | gather | join | crowd => rfl

theorem exists_going {parts : List Task} (going : outcomeInOrder? parts = none) :
    ∃ part ∈ parts, part.outcome? = none := by
  obtain ⟨front, part, back, rfl, open', -⟩ := going_cases going
  exact ⟨part, by simp, open'⟩

variable {env : Environment} {bell : Bell} {task : Task}

/-- If nothing is left to put together, then a failure that counts at once has ended all. -/
theorem Failing.isOver (failing : Failing task) (unsettled : task.Unsettled) :
    ∃ failure, task = .ended (.error failure) := by
  induction failing with
  | ended => exact ⟨_, rfl⟩
  | gather _ ih =>
      cases unsettled with
      | gather going inside =>
          obtain ⟨failure, rfl⟩ := ih inside
          cases going
  | join member _ ih =>
      cases unsettled with
      | join going inside =>
          obtain ⟨failure, rfl⟩ := ih (inside _ member)
          cases failure?_of_together going _ member

theorem Unsettled.exists_site (unsettled : task.Unsettled) (going : task.outcome? = none)
    (bell : Bell) : ∃ site ∈ task.sites bell, site.roster? = none := by
  induction task using Task.induct generalizing bell with
  | fresh scope term => exact ⟨_, List.mem_singleton_self _, rfl⟩
  | lookup scope name stage => exact ⟨_, List.mem_singleton_self _, rfl⟩
  | ended => cases going
  | gather _ _ _ ih =>
      cases unsettled with
      | gather going inside => exact ih inside going bell
  | join parts ih =>
      cases unsettled with
      | join going inside =>
          obtain ⟨part, member, going⟩ := exists_going (outcomeInOrder?_of_together going)
          obtain ⟨site, there, leaf⟩ := ih part member (inside part member) going bell
          rw [sites, sitesOfJoin_eq_flatMap]
          exact ⟨site, List.mem_flatMap.mpr ⟨part, member, there⟩, leaf⟩
  | crowd roster parts ih =>
      cases unsettled with
      | crowd going inside =>
          obtain ⟨part, member, going⟩ := exists_going going
          obtain ⟨i, located⟩ := List.mem_iff_getElem?.mp member
          obtain ⟨site, there, leaf⟩ := ih part member (inside part member) going
            (.part roster (0 + i) bell)
          rw [sites]
          exact ⟨site, List.mem_cons_of_mem _ (mem_sitesOfCrowd.mpr ⟨i, part, located, there⟩), leaf⟩

theorem one_le_weight (e : Expansion) : 1 ≤ e.weight := by
  cases e <;> simp only [Expansion.weight] <;> omega

theorem one_le_load (env : Environment) {site : Site} (leaf : site.roster? = none) :
    1 ≤ site.load env := by
  match site with
  | .fresh _ scope term => exact one_le_weight _
  | .lookup _ scope name .idle | .lookup _ scope name (.queued _)
  | .lookup _ scope name (.underway _ none) | .lookup _ scope name (.underway _ (some _)) =>
      simp only [Site.load, Stage.load]
      omega
  | .crowd .. => cases leaf

theorem Unsettled.one_le_load (unsettled : task.Unsettled) (env : Environment) (bell : Bell)
    (going : task.outcome? = none) : 1 ≤ loadOf env (task.sites bell) := by
  obtain ⟨site, member, leaf⟩ := unsettled.exists_site going bell
  obtain ⟨front, back, same⟩ := List.append_of_mem member
  have := Task.one_le_load env leaf
  rw [same, loadOf_append, loadOf_cons]
  omega

/-! ## Visits -/

/-- Whether nothing inside the parts of a task waits to be put together. -/
inductive PartsUnsettled : Task → Prop
  | fresh {scope term} : PartsUnsettled (.fresh scope term)
  | lookup {scope name stage} : PartsUnsettled (.lookup scope name stage)
  | gather {scope gathering body} (inside : Unsettled body) :
      PartsUnsettled (.gather scope gathering body)
  | join {parts} (inside : ∀ part ∈ parts, Unsettled part) : PartsUnsettled (.join parts)
  | crowd {roster parts} (inside : ∀ part ∈ parts, Unsettled part) :
      PartsUnsettled (.crowd roster parts)
  | ended {outcome} : PartsUnsettled (.ended outcome)

theorem Unsettled.parts (unsettled : task.Unsettled) : task.PartsUnsettled := by
  cases unsettled with
  | gather _ inside => exact .gather inside
  | join _ inside => exact .join inside
  | crowd _ inside => exact .crowd inside
  | fresh => exact .fresh
  | lookup => exact .lookup
  | ended => exact .ended

private theorem Uses.partsUnsettled {use : Task → Task} {e : Expansion} (uses : Uses env use e task)
    (used : ∀ within term, (use (.fresh within term)).PartsUnsettled) : task.PartsUnsettled := by
  cases uses with
  | refused => exact .ended
  | inside => exact used _ _

private theorem Opens.partsUnsettled {scope : Scope} {name : String} {e : Expansion}
    (opens : Opens env scope name e task) : task.PartsUnsettled := by
  cases opens with
  | literal => exact .ended
  | host => exact .lookup
  | group uses => exact uses.partsUnsettled fun _ _ => .gather .fresh
  | var uses => exact uses.partsUnsettled fun _ _ => .fresh

private theorem Answers.partsUnsettled {scope : Scope} {name : String} {e : Expansion}
    (answers : Answers env scope name e task) : task.PartsUnsettled := by
  cases answers with
  | found | lost => exact .ended
  | rescued _ _ uses => exact uses.partsUnsettled fun _ _ => .gather .fresh

private theorem partsUnsettled_ofParts (scope : Scope) (items : List Term) (p : Progress) :
    ((ofParts (items.map (.fresh scope))).run p).1.PartsUnsettled := by
  have all : ∀ part ∈ items.map (Task.fresh scope), part.Unsettled := by
    intro part member
    obtain ⟨item, -, rfl⟩ := List.mem_map.mp member
    exact .fresh
  unfold ofParts
  split
  · exact .join all
  · exact .crowd all

private theorem unsettled_cases :
    VisitCases env fun _ task _ task' _ => task.PartsUnsettled → task'.Unsettled where
  ended := fun _ => .ended
  finished := fun _ _ _ => .ended
  token := fun _ visited _ => visited (opens_token ..).partsUnsettled
  record := fun visited _ => visited (.gather .fresh)
  list := fun visited _ => visited (partsUnsettled_ofParts ..)
  stay := fun _ _ => .lookup
  answer := fun _ visited _ => visited (answers_host ..).partsUnsettled
  gather := by
    rintro _ _ _ _ _ _ _ going visited (_ | _ | inside)
    exact .gather going (visited.2 inside.parts)
  join := by
    rintro _ _ _ _ _ going visited (_ | _ | _ | inside)
    exact .join going (visited.all inside fun inside visited => visited.2 inside.parts)
  crowd := by
    rintro _ _ _ _ _ _ _ going attended (_ | _ | _ | _ | inside)
    exact .crowd going (attended.all inside fun inside visited => visited.2 inside.parts)

/-- After a visit nothing waits to be put together. -/
theorem unsettled_visit {levels : Nat} {p : Progress} (fits : task.Fits env levels)
    (inside : task.PartsUnsettled) : ((visit env levels bell task).run p).1.Unsettled :=
  visit_induct unsettled_cases fits rfl inside

end AddressExpansion.Task
