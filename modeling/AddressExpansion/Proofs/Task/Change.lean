import AddressExpansion.Proofs.Task.Prompt
import AddressExpansion.Proofs.Task.Sites

/-! # Changes of sites

What a step does, seen at its sites: a few neighbouring sites give way to others, or a settled list
gives up every site in it. Whatever a change keeps among any other sites is kept by every step.
-/

namespace AddressExpansion.Task

/-- What a term becomes that is no crowd. -/
inductive Unfolds (env : Environment) (scope : Scope) : Term → Task → Prop
  | token {token} : Unfolds env scope (.literal token) (opened env scope token)
  | record {ip comment} :
      Unfolds env scope (.record ip comment) (.gather scope (.record comment) (.fresh scope ip))
  | join {items} (few : items.length ≤ joinLimit) :
      Unfolds env scope (.list items) (.join (items.map (.fresh scope)))

/-- A change of some sites, together with progress. -/
inductive Change (env : Environment) : List Site → Progress → List Site → Progress → Prop
  | remark {p} (messages : List Message) : Change env [] p [] (p.sayAll messages)
  | spend {p} : Change env [] p [] p.spend
  | unfold {bell scope term task p} (unfolds : Unfolds env scope term task) :
      Change env [.fresh bell scope term] p (task.sites bell) p
  | openCrowd {bell scope items p} (many : joinLimit < items.length) :
      Change env [.fresh bell scope (.list items)] p
        (.crowd bell p.rota.rosters.size ::
          sitesOfCrowd p.rota.rosters.size bell 0 (items.map (.fresh scope)))
        (p.onRota (·.add (.ofParts items.length)))
  | putOff {bell scope name stage p} :
      Change env [.lookup bell scope name stage] p [.lookup bell scope name stage]
        (p.onRota (·.putOff bell))
  | draw {bell scope name p} (busy : p.board.free = 0) :
      Change env [.lookup bell scope name .idle] p
        [.lookup bell scope name (.queued p.board.drawn)] (p.onBoard (·.draw bell))
  | take {bell scope name p} (idle : p.board.free ≠ 0) :
      Change env [.lookup bell scope name .idle] p
        [.lookup bell scope name (.underway (p.board.now + env.duration name) none)]
        ((p.onBoard Switchboard.take).onBoard (·.call name))
  | claim {bell scope name ticket p} (served : ticket ∈ p.board.served) :
      Change env [.lookup bell scope name (.queued ticket)] p
        [.lookup bell scope name (.underway (p.board.now + env.duration name) none)]
        ((p.onBoard (·.claim ticket)).onBoard (·.call name))
  | setAlarm {bell scope name ends p} (early : p.board.now < ends) :
      Change env [.lookup bell scope name (.underway ends none)] p
        [.lookup bell scope name (.underway ends (some p.board.alarms))]
        (p.onBoard fun board => { board with alarms := p.board.alarms + 1 })
  | hangUp {bell scope name ends alarm p} (due : ends ≤ p.board.now) :
      Change env [.lookup bell scope name (.underway ends alarm)] p
        ((answered env scope name).sites bell)
        ((p.handOver Switchboard.hangUp).say (answerRemark env scope name))
  | roster {bell id p} (f : Roster → Roster)
      (fewer : ∀ r, p.rota.rosters[id]? = some r → (f r).rung.Sublist r.rung) :
      Change env [.crowd bell id] p [.crowd bell id] (p.onRota (·.update id f))
  | ring {bell id p} :
      Change env [.crowd bell id] p [.crowd bell id] (p.onRota (·.ring bell))

variable {env : Environment} {bell : Bell} {task task' : Task} {p p' : Progress}

/-! ## New sites -/

theorem sites_fresh_map (bell : Bell) (scope : Scope) (items : List Term) :
    (join (items.map (.fresh scope))).sites bell = items.map (.fresh bell scope) := by
  rw [sites, sitesOfJoin_eq_flatMap, List.flatMap_map]
  induction items with
  | nil => rfl
  | cons item items ih => rw [List.flatMap_cons, ih]; rfl

theorem map_sitesOfCrowd_fresh {α : Type} {measure : Site → α} {parts : List Task}
    (roster index : Nat)
    (deaf : ∀ bell scope term, measure (.fresh bell scope term) = measure (.fresh .main scope term))
    (new : ∀ part ∈ parts, ∃ scope term, part = .fresh scope term) :
    (sitesOfCrowd roster bell index parts).map measure = (sitesOfJoin bell parts).map measure := by
  induction parts generalizing index with
  | nil => rfl
  | cons part parts ih =>
      obtain ⟨scope, term, rfl⟩ := new part List.mem_cons_self
      have rest := ih (index + 1) fun part member => new part (List.mem_cons_of_mem _ member)
      simp only [sitesOfCrowd, sitesOfJoin, List.map_append, rest, sites, List.map_cons,
        List.map_nil, deaf (.part roster index bell), deaf bell]

private theorem Uses.unstarted {use : Task → Task} {e : Expansion} (uses : Uses env use e task)
    (used : ∀ task, (use task).sites bell = task.sites bell) :
    ∀ site ∈ task.sites bell, site.Unstarted bell := by
  intro site member
  cases uses with
  | refused => simp [sites] at member
  | inside =>
      rw [used] at member
      obtain rfl := List.mem_singleton.mp member
      rfl

private theorem Opens.unstarted {scope : Scope} {name : String} {e : Expansion}
    (opens : Opens env scope name e task) : ∀ site ∈ task.sites bell, site.Unstarted bell := by
  cases opens with
  | literal => exact nofun
  | group uses | var uses => exact uses.unstarted fun _ => rfl
  | host =>
      intro site member
      obtain rfl := List.mem_singleton.mp member
      rfl

theorem Unfolds.unstarted {scope : Scope} {term : Term} (unfolds : Unfolds env scope term task) :
    ∀ site ∈ task.sites bell, site.Unstarted bell := by
  intro site member
  cases unfolds with
  | token => exact (opens_token ..).unstarted site member
  | record =>
      obtain rfl := List.mem_singleton.mp member
      rfl
  | join =>
      rw [sites_fresh_map] at member
      obtain ⟨item, -, rfl⟩ := List.mem_map.mp member
      rfl

private theorem Answers.unstarted {scope : Scope} {name : String} {e : Expansion}
    (answers : Answers env scope name e task) : ∀ site ∈ task.sites bell, site.Unstarted bell := by
  cases answers with
  | found | lost => exact nofun
  | rescued _ _ uses => exact uses.unstarted fun _ => rfl

theorem answered_unstarted {scope : Scope} {name : String} :
    ∀ site ∈ (answered env scope name).sites bell, site.Unstarted bell :=
  (answers_host env scope name).unstarted

/-! ## Steps change sites -/

/-- Whether a task will fail, and at once if it is prompt. -/
structure Hopeless (env : Environment) (task task' : Task) : Prop where
  worth_eq : worth env task = none
  failing : Prompt env task → Failing task'

/-- What a step does to the sites of a task: a change, or all sites of a settled list are given
    up. If there is more than a roster among them, all is `lost`. -/
def Altered (env : Environment) (lost : Prop) (old : List Site) (p : Progress) (new : List Site)
    (p' : Progress) : Prop :=
  (∃ front before after back, old = front ++ before ++ back ∧ new = front ++ after ++ back ∧
      Change env before p after p') ∨
    (∃ front before back, old = front ++ before ++ back ∧ new = front ++ back ∧
      p' = before.foldl Site.abandon p ∧
      ((∀ site ∈ before, site.roster?.isSome) ∨ lost))

variable {lost : Prop}

private theorem altered_of_change {old new : List Site} (change : Change env old p new p') :
    Altered env lost old p new p' :=
  .inl ⟨[], old, new, [], by simp, by simp, change⟩

private theorem altered_self {old : List Site} (change : Change env [] p [] p') :
    Altered env lost old p old p' :=
  .inl ⟨old, [], [], [], by simp, by simp, change⟩

private theorem Altered.around {lost' : Prop} {old new : List Site} (front back : List Site)
    (imp : lost → lost') (altered : Altered env lost old p new p') :
    Altered env lost' (front ++ old ++ back) p (front ++ new ++ back) p' := by
  rcases altered with ⟨front', before, after, back', rfl, rfl, change⟩ |
    ⟨front', before, back', rfl, rfl, rfl, empty⟩
  · exact .inl ⟨front ++ front', before, after, back' ++ back, by simp, by simp, change⟩
  · exact .inr ⟨front ++ front', before, back' ++ back, by simp, by simp, rfl,
      empty.imp_right imp⟩

/-- A list that is settled in order succeeded as a whole, or failed at a part before which all
    succeeded. -/
theorem settled_cases {parts : List Task} {outcome : Outcome}
    (settled : outcomeInOrder? parts = some outcome) :
    (∃ atoms, outcome = .ok atoms) ∧ (∀ part ∈ parts, ∃ atoms, part = .ended (.ok atoms)) ∨
      ∃ front failure back, outcome = .error failure ∧
        parts = front ++ .ended (.error failure) :: back ∧
          ∀ part ∈ front, ∃ atoms, part = .ended (.ok atoms) := by
  fun_induction outcomeInOrder? generalizing outcome with
  | case1 => exact .inl ⟨⟨_, (Option.some.inj settled).symm⟩, List.forall_mem_nil _⟩
  | case2 atoms tasks ih =>
      obtain ⟨rest, found, rfl⟩ := Option.map_eq_some_iff.mp settled
      rcases ih found with ⟨⟨atoms', rfl⟩, all⟩ | ⟨front, failure, back, rfl, rfl, before⟩
      · exact .inl ⟨⟨_, rfl⟩, List.forall_mem_cons.mpr ⟨⟨_, rfl⟩, all⟩⟩
      · exact .inr ⟨.ended (.ok atoms) :: front, failure, back, rfl, rfl,
          List.forall_mem_cons.mpr ⟨⟨_, rfl⟩, before⟩⟩
  | case3 failure tasks =>
      exact .inr ⟨[], failure, tasks, (Option.some.inj settled).symm, rfl, List.forall_mem_nil _⟩
  | case4 => cases settled

theorem ended_of_settled {parts : List Task} {atoms : List Atom}
    (settled : outcomeInOrder? parts = some (.ok atoms)) :
    ∀ part ∈ parts, ∃ outcome, part = .ended outcome := by
  rcases settled_cases settled with ⟨-, all⟩ | ⟨_, _, _, same, -⟩
  · intro part member
    obtain ⟨atoms, rfl⟩ := all part member
    exact ⟨_, rfl⟩
  · cases same

theorem outcomeInOrder?_of_together_ok {parts : List Task} {atoms : List Atom}
    (settled : outcomeTogether? parts = some (.ok atoms)) :
    outcomeInOrder? parts = some (.ok atoms) := by
  unfold outcomeTogether? at settled
  split at settled
  · cases settled
  · exact settled

theorem sites_eq_nil_of_ended {parts : List Task}
    (finished : ∀ part ∈ parts, ∃ outcome, part = .ended outcome) :
    (join parts).sites bell = [] := by
  rw [sites, sitesOfJoin_eq_flatMap, List.flatMap_eq_nil_iff]
  intro part member
  obtain ⟨outcome, rfl⟩ := finished part member
  rfl

theorem sitesOfCrowd_eq_nil_of_ended {parts : List Task} {roster index : Nat}
    (finished : ∀ part ∈ parts, ∃ outcome, part = .ended outcome) :
    sitesOfCrowd roster bell index parts = [] := by
  rw [List.eq_nil_iff_forall_not_mem]
  intro site member
  obtain ⟨i, part, located, member⟩ := mem_sitesOfCrowd.mp member
  obtain ⟨outcome, rfl⟩ := finished part (List.mem_of_getElem? located)
  simp [sites] at member

private theorem altered_settled (outcome : Outcome) (same : worth env task = outcome.toOption)
    (finished : ∀ atoms, outcome = .ok atoms → ∀ site ∈ task.sites bell, site.roster?.isSome) :
    Altered env (Hopeless env task (.ended outcome)) (task.sites bell) p []
      ((task.sites bell).foldl Site.abandon p) := by
  refine .inr ⟨[], task.sites bell, [], by simp, rfl, rfl, ?_⟩
  cases outcome with
  | ok atoms => exact .inl (finished atoms rfl)
  | error => exact .inr ⟨same, fun _ => .ended⟩

theorem Act.altered (act : Act env bell task p task' p') :
    Altered env (Hopeless env task task') (task.sites bell) p (task'.sites bell) p' := by
  cases act with
  | trace message => exact altered_self (.remark [message])
  | spend => exact altered_self .spend
  | token => exact altered_of_change (.unfold .token)
  | record => exact altered_of_change (.unfold .record)
  | openJoin few => exact altered_of_change (.unfold (.join few))
  | openCrowd many => exact altered_of_change (.openCrowd many)
  | putOff => exact altered_of_change .putOff
  | draw busy => exact altered_of_change (.draw busy)
  | take idle => exact altered_of_change (.take idle)
  | claim served => exact altered_of_change (.claim served)
  | setAlarm early => exact altered_of_change (.setAlarm early)
  | hangUp due => exact altered_of_change (.hangUp due)
  | finish => exact altered_self (.remark _)
  | fail => exact altered_self (.remark [])
  | roster f fewer => exact .inl ⟨[], _, _, _, rfl, rfl, .roster f fewer⟩
  | ring => exact .inl ⟨[], _, _, _, rfl, rfl, .ring⟩
  | settleJoin settled =>
      rename_i parts outcome
      rw [giveUpAll_eq_abandon bell]
      refine altered_settled outcome ?_ ?_
      · simp only [worth, worths_eq_map, (settled_together settled).1]
      · rintro atoms rfl
        rw [sites_eq_nil_of_ended (ended_of_settled (outcomeInOrder?_of_together_ok settled))]
        simp
  | settleCrowd settled =>
      rename_i roster parts outcome
      have gone : ((giveUpAll parts).run
          (p.onRota (·.update roster ({ · with armed := false })))).2 =
            ((crowd roster parts).sites bell).foldl Site.abandon p :=
        congrArg Prod.snd (run_giveUp bell (crowd roster parts) p)
      rw [gone]
      refine altered_settled outcome ?_ ?_
      · simp only [worth, worths_eq_map, (settled_in_order settled).1]
      · rintro atoms rfl
        rw [sites, sitesOfCrowd_eq_nil_of_ended (ended_of_settled settled)]
        simp [Site.roster?]

theorem worth_of_part_lost {front back : List Task} {part : Task}
    (lost : worth env part = none) :
    together ((front ++ part :: back).map (worth env)) = none :=
  together_eq_none.mpr (List.mem_map.mpr ⟨part, by simp, lost⟩)

private theorem Hopeless.inGather (scope : Scope) (gathering : Gathering)
    (hopeless : Hopeless env task task') :
    Hopeless env (.gather scope gathering task) (.gather scope gathering task') where
  worth_eq := by rw [worth, hopeless.worth_eq, Option.bind_none]
  failing := fun (.gather inside) => .gather (hopeless.failing inside)

private theorem Hopeless.inJoin (front back : List Task)
    (hopeless : Hopeless env task task') :
    Hopeless env (.join (front ++ task :: back)) (.join (front ++ task' :: back)) where
  worth_eq := by rw [worth, worths_eq_map, worth_of_part_lost hopeless.worth_eq]
  failing := fun (.join inside) => .join (by simp) (hopeless.failing (inside task (by simp)))

/-- No part of a prompt crowd can fail. -/
private theorem Hopeless.inCrowd (roster : Nat) (front back : List Task)
    (hopeless : Hopeless env task task') :
    Hopeless env (.crowd roster (front ++ task :: back))
      (.crowd roster (front ++ task' :: back)) where
  worth_eq := by rw [worth, worths_eq_map, worth_of_part_lost hopeless.worth_eq]
  failing := fun (.crowd sound) => absurd hopeless.worth_eq (sound task (by simp))

theorem Step.altered (step : Step env bell task p task' p') :
    Altered env (Hopeless env task task') (task.sites bell) p (task'.sites bell) p' := by
  induction step with
  | act act => exact act.altered
  | @inGather bell scope gathering _ _ _ _ _ ih =>
      have around := ih.around [] [] (Hopeless.inGather scope gathering)
      simpa only [sites, List.nil_append, List.append_nil] using around
  | @inJoin bell front part part' back _ _ _ ih =>
      have around := ih.around (sitesOfJoin bell front) (sitesOfJoin bell back)
        (Hopeless.inJoin front back)
      simpa only [sites, sitesOfJoin_append, sitesOfJoin, List.append_assoc] using around
  | @inCrowd bell roster front part part' back _ _ _ ih =>
      have around := ih.around (.crowd bell roster :: sitesOfCrowd roster bell 0 front)
        (sitesOfCrowd roster bell (front.length + 1) back) (Hopeless.inCrowd roster front back)
      simpa only [sites, sitesOfCrowd_append, sitesOfCrowd, Nat.zero_add, List.cons_append,
        List.append_assoc] using around

section Keeping

variable {I : List Site → Progress → Prop}
  (change : ∀ {front old new back p p'}, Change env old p new p' →
    I (front ++ old ++ back) p → I (front ++ new ++ back) p')
  (abandon : ∀ {front site back p}, I (front ++ site :: back) p →
    I (front ++ back) (Site.abandon p site))
include change abandon

/-- Whatever single changes keep, among any other sites, is kept by a step, among any others. -/
theorem Step.keepsSites (step : Step env bell task p task' p') (before after : List Site)
    (start : I (before ++ task.sites bell ++ after) p) :
    I (before ++ task'.sites bell ++ after) p' := by
  rcases step.altered with ⟨front, old, new, back, same, same', changed⟩ |
    ⟨front, old, back, same, same', rfl, -⟩
  · rw [same] at start
    rw [same']
    have moved : I (before ++ front ++ old ++ (back ++ after)) p →
        I (before ++ front ++ new ++ (back ++ after)) p' := change changed
    simp only [List.append_assoc] at start moved ⊢
    exact moved start
  · rw [same] at start
    rw [same']
    clear same same' step
    induction old generalizing p with
    | nil => simpa using start
    | cons site old ih =>
        refine ih ?_
        have moved : I (before ++ front ++ site :: (old ++ (back ++ after))) p →
            I (before ++ front ++ (old ++ (back ++ after))) (site.abandon p) := abandon
        simp only [List.append_assoc, List.cons_append] at start moved ⊢
        exact moved start

theorem Steps.keepsSites {x y : Task × Progress} (steps : Steps env bell x y)
    (before after : List Site) (start : I (before ++ x.1.sites bell ++ after) x.2) :
    I (before ++ y.1.sites bell ++ after) y.2 :=
  steps.keeps (P := fun task p => I (before ++ task.sites bell ++ after) p)
    (fun step => step.keepsSites change abandon before after) start

end Keeping

end AddressExpansion.Task
