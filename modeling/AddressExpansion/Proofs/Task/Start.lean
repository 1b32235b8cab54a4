import AddressExpansion.Proofs.Rounds

/-! # New tasks

Parts of which nothing was begun, on a switchboard that nobody used. A list of them is rested
(`rested_ofParts`).
-/

namespace AddressExpansion.Task

open Site

/-- Progress of a run that has not started. -/
structure Untouched (lines : Nat) (p : Progress) : Prop where
  board : p.board = { free := lines }
  rota : p.rota = { rang := true }

/-- A task of which nothing was begun. -/
inductive New : Task → Prop
  | fresh {scope term} : New (.fresh scope term)
  | idle {scope name} : New (.lookup scope name .idle)

variable {env : Environment} {parts : List Task} {lines : Nat} {p : Progress}

theorem New.unstarted {part : Task} (new : part.New) {bell : Bell} {site : Site}
    (member : site ∈ part.sites bell) : site.Unstarted bell := by
  cases new with
  | fresh | idle =>
      obtain rfl := List.mem_singleton.mp member
      rfl

theorem New.unsettled {part : Task} (new : part.New) : part.Unsettled := by
  cases new with
  | fresh => exact .fresh
  | idle => exact .lookup

/-- What a list of parts becomes: a join, or a crowd with the first roster. -/
theorem ofParts_cases (parts : List Task) (untouched : Untouched lines p) :
    (ofParts parts).run p = (.join parts, p) ∨
      ∃ q, (ofParts parts).run p = (.crowd 0 parts, q) ∧ q.board = p.board ∧
        q.rota = { rosters := #[.ofParts parts.length], rang := true } := by
  unfold ofParts
  split
  · exact .inl rfl
  · right
    change ∃ q, ((crowd p.rota.rosters.size parts,
      p.onRota (·.add (.ofParts parts.length))) : Task × Progress) = _ ∧ _
    rw [untouched.rota]
    refine ⟨_, rfl, rfl, ?_⟩
    rw [Progress.onRota_rota, untouched.rota]
    rfl

theorem mem_sites_join {bell : Bell} {site : Site} (member : site ∈ (join parts).sites bell) :
    ∃ part ∈ parts, site ∈ part.sites bell := by
  rwa [sites, sitesOfJoin_eq_flatMap, List.mem_flatMap] at member

theorem mem_sites_crowd {site : Site} (member : site ∈ sitesOfCrowd 0 .main 0 parts) :
    ∃ i part, i < parts.length ∧ part ∈ parts ∧ site ∈ part.sites (.part 0 i .main) := by
  obtain ⟨i, part, located, member⟩ := mem_sitesOfCrowd.mp member
  rw [Nat.zero_add] at member
  exact ⟨i, part, (List.getElem?_eq_some_iff.mp located).1, List.mem_of_getElem? located, member⟩

theorem mem_sites_ofParts (untouched : Untouched lines p) {site : Site}
    (member : site ∈ ((ofParts parts).run p).1.sites .main) :
    site.roster?.isSome ∨ ∃ part ∈ parts, ∃ bell, site ∈ part.sites bell := by
  rcases ofParts_cases parts untouched with same | ⟨q, same, -⟩ <;> rw [same] at member
  · obtain ⟨part, given, inside⟩ := mem_sites_join member
    exact .inr ⟨part, given, _, inside⟩
  · rcases List.mem_cons.mp member with rfl | member
    · exact .inl rfl
    · obtain ⟨i, part, -, given, inside⟩ := mem_sites_crowd member
      exact .inr ⟨part, given, _, inside⟩

private theorem ledger_untouched {sites : List Site} (untouched : Untouched lines p)
    (holdsNothing : ∀ site ∈ sites, site.HoldsNothing) :
    Switchboard.Ledger lines (queueOf sites) (underwayOf sites) p.board := by
  rw [queueOf_holdsNothing holdsNothing, underwayOf_holdsNothing holdsNothing, untouched.board]
  exact .initial lines

section New

variable (new : ∀ part ∈ parts, part.New)
include new

theorem going_of_new (some_part : parts ≠ []) : outcomeTogether? parts = none := by
  have none : parts.findSome? failure? = none := by
    refine List.findSome?_eq_none_iff.mpr fun part member => ?_
    cases new part member <;> rfl
  unfold outcomeTogether?
  rw [none]
  cases parts with
  | nil => exact absurd rfl some_part
  | cons part parts => cases new part List.mem_cons_self <;> rfl

private theorem wired_join :
    Wired (fun _ => .main) ((join parts).sites .main) { rang := true } where
  placed site member := by
    obtain ⟨part, given, inside⟩ := mem_sites_join member
    rw [((new part given).unstarted inside).bell_eq]
    trivial
  later bell member := by cases member
  crowds bell id member := by
    obtain ⟨part, given, inside⟩ := mem_sites_join member
    cases ((new part given).unstarted inside).roster?_eq
  nodup := by
    have leaves : rostersOf ((join parts).sites .main) = [] := by
      refine List.filterMap_eq_nil_iff.mpr fun site member => ?_
      obtain ⟨part, given, inside⟩ := mem_sites_join member
      exact ((new part given).unstarted inside).roster?_eq
    rw [leaves]
    exact .nil
  rosters roster member := absurd member (Array.not_mem_empty roster)

private theorem wired_crowd :
    Wired (fun _ => .main) ((crowd 0 parts).sites .main)
      { rosters := #[.ofParts parts.length], rang := true } where
  placed site member := by
    rcases List.mem_cons.mp member with rfl | member
    · trivial
    · obtain ⟨i, part, -, given, inside⟩ := mem_sites_crowd member
      rw [((new part given).unstarted inside).bell_eq]
      exact ⟨Nat.one_pos, rfl, trivial⟩
  later bell member := by cases member
  crowds bell id member := by
    rcases List.mem_cons.mp member with same | member
    · obtain ⟨rfl, rfl⟩ := Site.crowd.inj same
      exact ⟨Nat.one_pos, rfl, trivial⟩
    · obtain ⟨i, part, -, given, inside⟩ := mem_sites_crowd member
      cases ((new part given).unstarted inside).roster?_eq
  nodup := by
    have leaves : rostersOf (sitesOfCrowd 0 .main 0 parts) = [] := by
      refine List.filterMap_eq_nil_iff.mpr fun site member => ?_
      obtain ⟨i, part, -, given, inside⟩ := mem_sites_crowd member
      exact ((new part given).unstarted inside).roster?_eq
    change (0 :: rostersOf (sitesOfCrowd 0 .main 0 parts)).Nodup
    rw [leaves]
    exact List.nodup_singleton 0
  rosters roster member := by
    obtain rfl := Array.mem_singleton.mp member
    exact List.nodup_range

private theorem orderly_ofParts (untouched : Untouched lines p) :
    Orderly lines (((ofParts parts).run p).1.sites .main) ((ofParts parts).run p).2 := by
  rcases ofParts_cases parts untouched with same | ⟨q, same, board, rota⟩ <;> rw [same]
  · refine ⟨ledger_untouched untouched fun site member => ?_, fun _ => .main, ?_⟩
    · obtain ⟨part, given, inside⟩ := mem_sites_join member
      exact ((new part given).unstarted inside).holdsNothing
    · rw [untouched.rota]
      exact wired_join new
  · refine ⟨board ▸ ledger_untouched untouched fun site member => ?_, fun _ => .main, ?_⟩
    · rcases List.mem_cons.mp member with rfl | member
      · exact ⟨rfl, rfl⟩
      · obtain ⟨i, part, -, given, inside⟩ := mem_sites_crowd member
        exact ((new part given).unstarted inside).holdsNothing
    · rw [rota]
      exact wired_crowd new

private theorem calm_ofParts (untouched : Untouched lines p) :
    Calm .main ((ofParts parts).run p).1 ((ofParts parts).run p).2 := by
  rcases ofParts_cases parts untouched with same | ⟨q, same, -, rota⟩ <;> rw [same]
  · intro site member
    obtain ⟨part, given, inside⟩ := mem_sites_join member
    have unstarted := (new part given).unstarted inside
    refine .of_noted (.inl ?_) unstarted.roster?_eq
    rw [unstarted.bell_eq]
    exact (congrArg Rota.rang untouched.rota :)
  · intro site member
    rcases List.mem_cons.mp member with rfl | member
    · refine ⟨nofun, ?_⟩
      rintro _ _ ⟨⟩
      exact .inr (congrArg Rota.rang rota :)
    · obtain ⟨i, part, low, given, inside⟩ := mem_sites_crowd member
      have unstarted := (new part given).unstarted inside
      refine .of_noted (.inl ?_) unstarted.roster?_eq
      rw [unstarted.bell_eq]
      refine Rota.isRung_iff.mpr ⟨.ofParts parts.length, ?_, ?_⟩
      · simp only [rota]
        rfl
      · simpa [Roster.ofParts] using low

theorem rested_ofParts {levels : Nat} (untouched : Untouched lines p) (some_part : parts ≠ [])
    (fits : ∀ part ∈ parts, part.Fits env levels) :
    Rested env (levels + 1) lines ((ofParts parts).run p).1 ((ofParts parts).run p).2 := by
  have unsettled : ∀ part ∈ parts, part.Unsettled := fun part member => (new part member).unsettled
  have going := going_of_new new some_part
  refine ⟨orderly_ofParts new untouched, calm_ofParts new untouched, ?_, ?_, ?_, ?_⟩
  all_goals
    rcases ofParts_cases parts untouched with same | ⟨q, same, -, rota⟩ <;> rw [same]
  · exact (congrArg Rota.later untouched.rota :)
  · exact (congrArg Rota.later rota :)
  · exact .join going unsettled
  · exact .crowd (outcomeInOrder?_of_together going) unsettled
  · rfl
  · rfl
  · exact fits_join.mpr fits
  · exact fits_crowd.mpr fits

end New

end AddressExpansion.Task
