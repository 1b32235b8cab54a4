import AddressExpansion.Proofs.Task.Change

/-! # Calls of a task

The names that were called, together with those that the sites of a task still have to call, are
the lookups of what the task unfolds to. A step keeps this account as long as the task is worth
something: only then is nothing given up that has a call to make (`Step.accounts`).
-/

namespace AddressExpansion

/-- The names that are still to be called at a site. -/
def Site.lookups (env : Environment) : Site → List String
  | fresh _ scope term => (Expansion.inScope env scope term).lookups
  | lookup _ scope name (.underway ..) => (Expansion.ofHost env scope name).lookups.tail
  | lookup _ scope name _ => (Expansion.ofHost env scope name).lookups
  | crowd .. => []

def Switchboard.called (board : Switchboard) : List String :=
  board.calls.toList.map Call.name

namespace Switchboard

theorem called_release (board : Switchboard) : board.release.2.called = board.called := by
  unfold release
  split <;> rfl

theorem called_hangUp (board : Switchboard) : board.hangUp.2.called = board.called :=
  called_release { board with inFlight := board.inFlight - 1 }

theorem called_discard (board : Switchboard) (ticket : Nat) :
    (board.discard ticket).2.called = board.called := by
  unfold discard
  split
  · exact called_release (board.claim ticket)
  · rfl

theorem called_call (board : Switchboard) (name : String) :
    (board.call name).called = board.called ++ [name] := by
  simp [called, call]

end Switchboard

namespace Task

def lookupsOf (env : Environment) (sites : List Site) : List String :=
  sites.flatMap (Site.lookups env)

variable {env : Environment} {bell : Bell} {task task' : Task} {p p' : Progress}

@[simp] theorem lookupsOf_append (front back : List Site) :
    lookupsOf env (front ++ back) = lookupsOf env front ++ lookupsOf env back :=
  List.flatMap_append

section Opened

variable {scope : Scope} {name : String} {e : Expansion}

theorem Uses.lookups_eq {use : Task → Task} (uses : Uses env use e task)
    (used : ∀ task, (use task).sites bell = task.sites bell) :
    lookupsOf env (task.sites bell) = e.lookups := by
  cases uses with
  | refused => rfl
  | inside => simp [used, sites, lookupsOf, Site.lookups]

theorem Opens.lookups_eq (opens : Opens env scope name e task) :
    lookupsOf env (task.sites bell) = e.lookups := by
  cases opens with
  | literal => rfl
  | group uses | var uses => exact uses.lookups_eq fun _ => rfl
  | host => simp [sites, lookupsOf, Site.lookups]

theorem Answers.lookups_eq (answers : Answers env scope name e task) :
    e.lookups = name :: lookupsOf env (task.sites bell) := by
  cases answers with
  | found | lost => rfl
  | rescued _ _ uses => rw [Expansion.lookups, uses.lookups_eq fun _ => rfl]

end Opened

theorem lookups_ofHost (bell : Bell) (scope : Scope) (name : String) :
    (Expansion.ofHost env scope name).lookups =
      name :: lookupsOf env ((answered env scope name).sites bell) :=
  (answers_host env scope name).lookups_eq

theorem lookups_freshAll (env : Environment) (bell : Bell) (scope : Scope) (items : List Term) :
    lookupsOf env (items.map (.fresh bell scope)) =
      (Expansion.inScope env scope (.list items)).lookups := by
  rw [Expansion.inScope_list, Expansion.lookups, Expansion.lookupsOfAll_eq_flatMap,
    List.flatMap_map, lookupsOf, List.flatMap_map]
  rfl

theorem lookups_sitesOfCrowd {parts : List Task} (roster index : Nat)
    (new : ∀ part ∈ parts, ∃ scope term, part = .fresh scope term) :
    lookupsOf env (sitesOfCrowd roster bell index parts) =
      lookupsOf env (sitesOfJoin bell parts) := by
  rw [lookupsOf, List.flatMap_def, map_sitesOfCrowd_fresh roster index (fun _ _ _ => rfl) new,
    ← List.flatMap_def, lookupsOf]

theorem lookups_sitesOfCrowd_fresh (roster : Nat) (bell : Bell) (index : Nat) (scope : Scope)
    (items : List Term) :
    lookupsOf env (sitesOfCrowd roster bell index (items.map (.fresh scope))) =
      lookupsOf env (items.map (.fresh bell scope)) := by
  rw [lookups_sitesOfCrowd roster index (by simp), ← sites_fresh_map, sites]

theorem Unfolds.lookups_eq {scope : Scope} {term : Term} (unfolds : Unfolds env scope term task) :
    lookupsOf env (task.sites bell) = (Expansion.inScope env scope term).lookups := by
  cases unfolds with
  | record =>
      simp [Expansion.inScope_record, Expansion.lookups, sites, lookupsOf, Site.lookups]
  | join => rw [sites_fresh_map, lookups_freshAll]
  | token => exact (opens_token ..).lookups_eq

/-- The account of a task: the names that were called and those that are still to be called are
    these, in some order. -/
def Accounts (env : Environment) (names : List String) (sites : List Site) (p : Progress) : Prop :=
  (p.board.called ++ lookupsOf env sites).Perm names

private theorem accounts_around {names : List String} {front held back : List Site} :
    Accounts env names (front ++ held ++ back) p ↔
      ((p.board.called ++ lookupsOf env held) ++ lookupsOf env (front ++ back)).Perm names := by
  have moved : (p.board.called ++ lookupsOf env (front ++ held ++ back)).Perm
      ((p.board.called ++ lookupsOf env held) ++ lookupsOf env (front ++ back)) := by
    simp only [lookupsOf_append, List.append_assoc]
    refine List.Perm.append_left _ ?_
    rw [← List.append_assoc, ← List.append_assoc]
    exact List.perm_append_comm.append_right _
  exact ⟨moved.symm.trans, moved.trans⟩

private theorem called_call_lookup (board : Switchboard) (bell : Bell) (scope : Scope)
    (name : String) (ends : Nat) (alarm : Option Nat) :
    (board.call name).called ++ lookupsOf env [.lookup bell scope name (.underway ends alarm)] =
      board.called ++ (Expansion.ofHost env scope name).lookups := by
  rw [Switchboard.called_call, lookups_ofHost bell, List.append_assoc]
  simp [lookupsOf, Site.lookups, lookups_ofHost bell]

theorem Change.accounts {names : List String} {front old new back : List Site}
    (change : Change env old p new p') (accounts : Accounts env names (front ++ old ++ back) p) :
    Accounts env names (front ++ new ++ back) p' := by
  rw [accounts_around] at accounts ⊢
  refine (List.Perm.append_right _ (List.Perm.of_eq ?_)).trans accounts
  cases change with
  | remark => simp
  | spend | putOff | roster | ring | setAlarm | draw => rfl
  | unfold unfolds =>
      rw [unfolds.lookups_eq]
      simp [lookupsOf, Site.lookups]
  | @openCrowd bell scope items many =>
      have same := lookups_freshAll env bell scope items
      rw [← lookups_sitesOfCrowd_fresh p.rota.rosters.size bell 0] at same
      simpa [lookupsOf, Site.lookups] using same
  | @take bell scope name =>
      refine (called_call_lookup p.board.take bell scope name _ none).trans ?_
      simp [lookupsOf, Site.lookups, Switchboard.take, Switchboard.called]
  | @claim bell scope name ticket =>
      refine (called_call_lookup (p.board.claim ticket) bell scope name _ none).trans ?_
      simp [lookupsOf, Site.lookups, Switchboard.claim, Switchboard.called]
  | @hangUp bell scope name =>
      simp only [Progress.say_board, Progress.handOver_board, Switchboard.called_hangUp]
      simp [lookupsOf, Site.lookups, lookups_ofHost bell]

private theorem accounts_rosters {names : List String} {front old back : List Site}
    (rosters : ∀ site ∈ old, site.roster?.isSome)
    (accounts : Accounts env names (front ++ old ++ back) p) :
    Accounts env names (front ++ back) (old.foldl Site.abandon p) := by
  induction old generalizing p with
  | nil => simpa using accounts
  | cons site old ih =>
      have here := rosters site List.mem_cons_self
      refine ih (fun site member => rosters site (List.mem_cons_of_mem _ member)) ?_
      match site with
      | .crowd bell roster =>
          simpa [Accounts, lookupsOf, Site.lookups, Site.abandon] using accounts

/-- A step of a task that is worth something keeps the account. -/
theorem Step.accounts {names : List String} (step : Step env bell task p task' p')
    (sound : worth env task ≠ none) (accounts : Accounts env names (task.sites bell) p) :
    Accounts env names (task'.sites bell) p' := by
  rcases step.altered with ⟨front, old, new, back, same, same', changed⟩ |
    ⟨front, old, back, same, same', rfl, rosters⟩
  · rw [same] at accounts
    rw [same']
    exact changed.accounts accounts
  · rw [same] at accounts
    rw [same']
    exact accounts_rosters (rosters.resolve_right fun lost => sound lost.worth_eq) accounts

private theorem called_abandonAll (sites : List Site) (p : Progress) :
    (sites.foldl Site.abandon p).board.called = p.board.called := by
  refine Site.keeps_abandonAll (P := fun q => q.board.called = p.board.called) ?_ sites rfl
  intro site q same
  refine Eq.trans ?_ same
  match site with
  | .fresh .. | .crowd .. | .lookup _ _ _ .idle => rfl
  | .lookup _ _ _ (.underway ..) => exact Switchboard.called_hangUp _
  | .lookup _ _ _ (.queued ticket) => exact Switchboard.called_discard _ ticket

/-- No step brings a new name to call, whether or not the task is worth something. -/
theorem Step.calls_subset (step : Step env bell task p task' p') :
    p'.board.called ++ lookupsOf env (task'.sites bell) ⊆
      p.board.called ++ lookupsOf env (task.sites bell) := by
  rcases step.altered with ⟨front, old, new, back, same, same', changed⟩ |
    ⟨front, old, back, same, same', rfl, -⟩
  · rw [same, same']
    exact (changed.accounts (.refl _)).subset
  · rw [same, same', called_abandonAll]
    simp only [lookupsOf_append]
    intro name member
    simp only [List.mem_append] at member ⊢
    exact member.imp_right (Or.imp_left .inl)

end Task

end AddressExpansion
