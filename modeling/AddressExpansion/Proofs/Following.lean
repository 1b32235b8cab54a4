import AddressExpansion.Proofs.InStep

/-! # Work that is followed

The names that were sought are those that the log tells of as about to be looked up. A piece of work
is followed by another one if the other does the same but for what it says, as long as nothing but
certain names is sought on the way. Main statements: crowds are attended to so if their parts are
visited so (`follows_attend`), and so are activities driven (`follows_drive`).
-/

namespace AddressExpansion

/-- The name that a message tells of as about to be looked up. -/
def Message.sought? : Message → Option String
  | traced _ _ (.lookup name) => some name
  | _ => none

namespace Progress

/-- The names that were sought, as far as the log tells. -/
def sought (p : Progress) : List String :=
  p.log.toList.filterMap Message.sought?

/-- Whether later progress still tells what was sought, and is traced as before. -/
structure Grown (p q : Progress) : Prop where
  tracing : q.tracing = p.tracing
  sought : p.sought ⊆ q.sought

namespace Grown

theorem refl (p : Progress) : p.Grown p :=
  ⟨rfl, List.Subset.refl _⟩

theorem trans {p q r : Progress} (first : p.Grown q) (second : q.Grown r) : p.Grown r :=
  ⟨second.tracing.trans first.tracing, List.Subset.trans first.sought second.sought⟩

theorem of_log_eq {p q : Progress} (log : q.log = p.log) (tracing : q.tracing = p.tracing) :
    p.Grown q :=
  ⟨tracing, by rw [Progress.sought, Progress.sought, log]; exact List.Subset.refl _⟩

theorem say (p : Progress) (message : Message) : p.Grown (p.say message) where
  tracing := rfl
  sought := by
    unfold Progress.sought Progress.say
    dsimp only
    split
    · exact List.Subset.refl _
    · rw [Array.toList_push, List.filterMap_append]
      exact List.subset_append_left _ _

theorem sayAll (p : Progress) (messages : List Message) : p.Grown (p.sayAll messages) := by
  induction messages generalizing p with
  | nil => exact .refl p
  | cons message messages ih => exact (say p message).trans (ih _)

end Grown

theorem mem_sought_say {p : Progress} (tracing : p.tracing) (item depth : Nat) (name : String) :
    name ∈ (p.say (.traced item depth (.lookup name))).sought := by
  simp [sought, say, tracing, Message.sought?]

end Progress

namespace Work

variable {α β : Type}

/-- Whether a piece of work takes back nothing that was told. -/
def Growing (x : Work α) : Prop :=
  ∀ p : Progress, p.Grown (x.run p).2

namespace Growing

variable {x y : Work α} {f : α → Work β}

theorem pure (a : α) : Growing (Pure.pure a) :=
  Progress.Grown.refl

theorem bind (first : Growing x) (next : ∀ a, Growing (f a)) : Growing (x >>= f) :=
  fun p => (first p).trans (next _ _)

theorem get_bind {f : Progress → Work β} (next : ∀ p, Growing (f p)) : Growing (get >>= f) :=
  fun p => next p p

theorem ite {c : Prop} [Decidable c] (yes : Growing x) (no : Growing y) :
    Growing (if c then x else y) := by
  split
  · exact yes
  · exact no

theorem onRota (f : Rota → Rota) : Growing (Work.onRota f) :=
  fun _ => .of_log_eq rfl rfl

end Growing

/-- Whether a piece of work is followed by another: if nothing but certain names is sought in the
    end, the other one comes to the same result, which has some property, and does the same but for
    what it says. -/
def Follows (N : String → Prop) (Q : α → Prop) (x y : Work α) : Prop :=
  ∀ p q : Progress, p.tracing → p.Alike q → (∀ name ∈ (x.run p).2.sought, N name) →
    (x.run p).1 = (y.run q).1 ∧ Q (x.run p).1 ∧ (x.run p).2.Alike (y.run q).2

namespace Follows

variable {N : String → Prop} {Q : α → Prop} {S : β → Prop} {x y z w : Work α}

theorem of_inStep (inStep : InStep Eq x y) (kept : ∀ p, Q (x.run p).1) : Follows N Q x y := by
  intro p q _ alike _
  obtain ⟨same, alike⟩ := inStep p q alike
  exact ⟨same, kept p, alike⟩

theorem pure {a : α} (here : Q a) : Follows N Q (Pure.pure a) (Pure.pure a) :=
  of_inStep (.pure rfl) fun _ => here

/-- What follows each piece follows the whole, if the rest takes back nothing. -/
theorem bind {f g : α → Work β} (first : Follows N Q x y) (grows : Growing x)
    (growing : ∀ a, Growing (f a)) (next : ∀ a, Q a → Follows N S (f a) (g a)) :
    Follows N S (x >>= f) (y >>= g) := by
  intro p q tracing alike only
  -- What the first piece seeks is still told of when the rest is done.
  have before : ∀ name ∈ (x.run p).2.sought, N name :=
    fun name member => only name ((growing _ _).sought member)
  obtain ⟨same, kept, alike⟩ := first p q tracing alike before
  rw [run_bind, run_bind, ← same]
  exact next _ kept _ _ ((grows p).tracing.trans tracing) alike only

theorem inStep_bind {f g : α → Work β} (first : InStep Eq x y) (grows : Growing x)
    (growing : ∀ a, Growing (f a)) (next : ∀ a, Follows N S (f a) (g a)) :
    Follows N S (x >>= f) (y >>= g) :=
  bind (Q := fun _ => True) (of_inStep first fun _ => trivial) grows growing fun a _ => next a

theorem get_bind {f g : Progress → Work β}
    (next : ∀ p q : Progress, p.Alike q → Follows N S (f p) (g q)) :
    Follows N S (get >>= f) (get >>= g) :=
  fun p q tracing alike only => next p q alike p q tracing alike only

theorem ite {c : Prop} [Decidable c] (yes : Follows N Q x y) (no : Follows N Q z w) :
    Follows N Q (if c then x else z) (if c then y else w) := by
  split
  · exact yes
  · exact no

theorem imp {T : α → Prop} (follows : Follows N Q x y) (kept : ∀ p, T (x.run p).1) :
    Follows N T x y := by
  intro p q tracing alike only
  obtain ⟨same, -, alike⟩ := follows p q tracing alike only
  exact ⟨same, kept p, alike⟩

theorem of_said (follows : Follows N Q z w)
    (said : ∀ p : Progress, ∃ messages, x.run p = z.run (p.sayAll messages))
    (said' : ∀ q : Progress, ∃ messages, y.run q = w.run (q.sayAll messages)) :
    Follows N Q x y := by
  intro p q tracing alike only
  obtain ⟨messages, run⟩ := said p
  obtain ⟨messages', run'⟩ := said' q
  rw [run] at only ⊢
  rw [run']
  exact follows _ _ ((Progress.Grown.sayAll p messages).tracing.trans tracing)
    (((Progress.Alike.sayAll p messages).trans alike).trans
      (Progress.Alike.sayAll q messages').symm) only

/-- Work that begins by telling of a name seeks that name. -/
theorem of_sought {scope : Scope} {name : String} (growing : Growing x)
    (follows : N name → Follows N Q x y) :
    Follows N Q (do report scope (.lookup name); x) y := by
  intro p q tracing alike only
  rw [run_bind, run_report] at only ⊢
  have told := Progress.mem_sought_say tracing scope.item scope.depth name
  exact follows (only name ((growing _).sought told)) _ _ tracing
    ((Progress.Alike.say p _).trans alike) only

end Follows

end Work

open Work

/-! ## Crowds -/

namespace Crowd

variable {α : Type}

/-- What a stretch does when a part was visited. -/
def afterVisit (crowd : Crowd α) (left again index : Nat) (parts : List α) (part : α) :
    Work (Bool × List α) := do
  let parts := parts.set index part
  if crowd.isOver part then return (true, parts)
  let again := if (← get).rota.isRung crowd.id index then again + 1 else again
  if 2 ≤ again then
    onRota (·.ring crowd.bell)
    return (false, parts)
  crowd.stretch left again parts

theorem stretch_succ (crowd : Crowd α) (left again : Nat) (parts : List α) :
    crowd.stretch (left + 1) again parts = (do
      match ← crowd.next? parts with
      | none => return (false, parts)
      | some (index, part) =>
        crowd.afterVisit left again index parts (← crowd.visit (crowd.partBell index) part)) :=
  rfl

theorem growing_next? (crowd : Crowd α) (parts : List α) : Growing (crowd.next? parts) :=
  .get_bind fun _ => (Growing.onRota _).bind fun _ => .pure _

theorem inStep_next? (crowd : Crowd α) (parts : List α) :
    InStep Eq (crowd.next? parts) (crowd.next? parts) := by
  intro p q alike
  have rung : rungParts crowd parts p = rungParts crowd parts q := by
    unfold rungParts
    rw [alike.rota]
  rw [run_next?, run_next?, taken, taken, rung]
  exact ⟨rfl, alike.onRota (·.update crowd.id ({ · with rung := _ }))⟩

section Growing

variable {crowd : Crowd α}

theorem growing_afterVisit {left : Nat}
    (rest : ∀ again parts, Growing (crowd.stretch left again parts)) (again index : Nat)
    (parts : List α) (part : α) : Growing (crowd.afterVisit left again index parts part) := by
  refine .ite (.pure _) (.get_bind fun p => ?_)
  exact .ite ((Growing.onRota _).bind fun _ => .pure _) (rest _ _)

variable (growing : ∀ bell part, Growing (crowd.visit bell part))
include growing

theorem growing_stretch (left again : Nat) (parts : List α) :
    Growing (crowd.stretch left again parts) := by
  induction left generalizing again parts with
  | zero => exact (Growing.onRota _).bind fun _ => .pure _
  | succ left ih =>
      rw [stretch_succ]
      refine (crowd.growing_next? parts).bind fun next => ?_
      cases next with
      | none => exact .pure _
      | some entry => exact (growing _ entry.2).bind (growing_afterVisit ih again entry.1 parts)

theorem growing_attendUpTo (ends : Nat) (parts : List α) :
    Growing (crowd.attendUpTo ends parts) := by
  induction ends generalizing parts with
  | zero => exact .pure _
  | succ ends ih =>
      unfold attendUpTo
      refine .ite (.pure _) ((Growing.onRota _).bind fun _ => ?_)
      exact (growing_stretch growing _ 0 parts).bind fun stretched => .ite (ih _) (.pure _)

end Growing

section Follows

variable {N : String → Prop} {Q : α → Prop} {crowd : Crowd α} {visit : Bell → α → Work α}
  (visits : ∀ bell part, Q part → Follows N Q (crowd.visit bell part) (visit bell part))
  (growing : ∀ bell part, Growing (crowd.visit bell part))

private theorem property_of_next {parts : List α} (all : ∀ part ∈ parts, Q part) {p : Progress}
    {index : Nat} {part : α} (next : ((crowd.next? parts).run p).1 = some (index, part)) :
    Q part := by
  rw [run_next?] at next
  obtain ⟨first, -, found⟩ := Option.bind_eq_some_iff.mp next
  obtain ⟨part', pending, same⟩ := Option.map_eq_some_iff.mp found
  obtain ⟨rfl, rfl⟩ := Prod.mk.inj same
  exact of_pending all pending

include visits growing

theorem follows_stretch (left again : Nat) {parts : List α} (all : ∀ part ∈ parts, Q part) :
    Follows N (fun stretched => ∀ part ∈ stretched.2, Q part) (crowd.stretch left again parts)
      ({ crowd with visit }.stretch left again parts) := by
  induction left generalizing again parts with
  | zero => exact .of_inStep ((InStep.onRota _).bind_eq fun _ => .pure rfl) fun _ => all
  | succ left ih =>
      have afterwards := growing_afterVisit (growing_stretch growing left)
      rw [stretch_succ, stretch_succ]
      refine .bind (Q := fun next => ∀ index part, next = some (index, part) → Q part)
        (.of_inStep (crowd.inStep_next? parts) fun p index part => property_of_next all)
        (crowd.growing_next? parts) (fun next => ?_) fun next here => ?_
      · cases next with
        | none => exact .pure _
        | some entry => exact (growing _ entry.2).bind (afterwards again entry.1 parts)
      · cases next with
        | none => exact .pure all
        | some entry =>
            obtain ⟨index, part⟩ := entry
            refine .bind (visits _ part (here index part rfl)) (growing _ part)
              (afterwards again index parts) fun part here => ?_
            have all := all_set all here index
            refine .ite (.pure all) (.get_bind fun p q alike => ?_)
            rw [alike.rota]
            refine .ite ?_ (ih _ all)
            exact .of_inStep ((InStep.onRota _).bind_eq fun _ => .pure rfl) fun _ => all

theorem follows_attendUpTo (ends : Nat) {parts : List α} (all : ∀ part ∈ parts, Q part) :
    Follows N (fun parts => ∀ part ∈ parts, Q part) (crowd.attendUpTo ends parts)
      ({ crowd with visit }.attendUpTo ends parts) := by
  induction ends generalizing parts with
  | zero => exact .pure all
  | succ ends ih =>
      have stretch := growing_stretch growing (crowd.busy parts) 0 parts
      have rest (stretched : Bool × List α) : Growing
          (if stretched.1 then crowd.attendUpTo ends stretched.2 else return stretched.2) :=
        .ite (growing_attendUpTo growing ends _) (.pure _)
      unfold attendUpTo
      refine .ite (.pure all) (.inStep_bind (.onRota _) (.onRota _) (fun _ => stretch.bind rest)
        fun _ => ?_)
      refine .bind (follows_stretch visits growing _ 0 all) stretch rest fun stretched all => ?_
      exact .ite (ih all) (.pure all)

theorem follows_attend {parts : List α} (all : ∀ part ∈ parts, Q part) :
    Follows N (fun parts => ∀ part ∈ parts, Q part) (crowd.attend parts)
      ({ crowd with visit }.attend parts) :=
  follows_attendUpTo visits growing (parts.length + 1) all

end Follows

end Crowd

/-! ## Activities -/

namespace Activity

variable {α : Type} {activity : Activity α}

theorem growing_advanceTo (time : Nat) (alarms : List Alarm) : Growing (advanceTo time alarms) :=
  fun _ => .of_log_eq rfl rfl

theorem inStep_advanceTo (time : Nat) (alarms : List Alarm) :
    InStep Eq (advanceTo time alarms) (advanceTo time alarms) :=
  (InStep.onBoard _).bind_eq fun _ => .onRota _

theorem growing_beginRound : Growing beginRound :=
  fun _ => .of_log_eq rfl rfl

theorem inStep_beginRound : InStep Eq beginRound beginRound :=
  fun _ _ alike => ⟨rfl, alike.begun⟩

theorem growing_drive (growing : ∀ x, Growing (activity.visit x)) (cancelAt : Option Nat)
    (turns : Nat) (x : α) : Growing (activity.drive cancelAt turns x) := by
  induction turns generalizing x with
  | zero => exact .pure _
  | succ turns ih =>
      unfold drive
      refine .get_bind fun p => .ite ?_ ?_
      · refine growing_beginRound.bind fun _ => (growing x).bind fun x => ?_
        exact .ite (.pure _) ((Growing.onRota _).bind fun _ => ih x)
      · cases Alarm.nextTime? (activity.alarms x) with
        | none => exact .pure _
        | some time =>
            dsimp only
            cases cancelledBy? cancelAt time with
            | some cancelTime => exact .pure _
            | none => exact (growing_advanceTo time _).bind fun _ => ih x

/-- An activity is driven as another one is whose rounds are so. -/
theorem follows_drive {N : String → Prop} {Q : α → Prop} {visit : α → Work α}
    (visits : ∀ x, Q x → Follows N Q (activity.visit x) (visit x))
    (growing : ∀ x, Growing (activity.visit x)) (cancelAt : Option Nat) (turns : Nat) {x : α}
    (here : Q x) : Follows N (fun halted => Q halted.2) (activity.drive cancelAt turns x)
      ({ activity with visit }.drive cancelAt turns x) := by
  induction turns generalizing x with
  | zero => exact .pure here
  | succ turns ih =>
      have goesOn := growing_drive growing cancelAt turns
      unfold drive
      refine .get_bind fun p q alike => ?_
      rw [alike.rota]
      refine .ite ?_ ?_
      · have rest (x : α) : Growing (do
            if activity.isOver x then return (Halt.ended, x)
            endRound
            activity.drive cancelAt turns x) :=
          .ite (.pure _) ((Growing.onRota _).bind fun _ => goesOn x)
        refine .inStep_bind inStep_beginRound growing_beginRound
          (fun _ => (growing x).bind rest) fun _ => ?_
        refine .bind (visits x here) (growing x) rest fun x here => ?_
        refine .ite (.pure here) ?_
        exact .inStep_bind (.onRota _) (.onRota _) (fun _ => goesOn x) fun _ => ih here
      · cases Alarm.nextTime? (activity.alarms x) with
        | none => exact .pure here
        | some time =>
            dsimp only
            cases cancelledBy? cancelAt time with
            | some cancelTime => exact .pure here
            | none =>
                exact .inStep_bind (inStep_advanceTo time _) (growing_advanceTo time _)
                  (fun _ => goesOn x) fun _ => ih here

theorem drive_of_enough {cancelAt : Option Nat} {turns more : Nat} (le : turns ≤ more) {x : α}
    {p : Progress} (enough : ((activity.drive cancelAt turns x).run p).1.1 ≠ .stalled) :
    (activity.drive cancelAt more x).run p = (activity.drive cancelAt turns x).run p := by
  induction turns generalizing more x p with
  | zero => exact absurd rfl enough
  | succ turns ih =>
      obtain ⟨more, rfl⟩ := Nat.exists_eq_add_of_le' (Nat.le_trans (Nat.succ_pos turns) le)
      have le := Nat.le_of_succ_le_succ le
      rw [run_drive] at enough ⊢
      rw [run_drive]
      by_cases rang : p.rota.rang
      · rw [if_pos rang] at enough ⊢
        rw [if_pos rang]
        by_cases final : activity.isOver (activity.round x p).1
        · rw [if_pos final, if_pos final]
        · rw [if_neg final] at enough ⊢
          rw [if_neg final]
          exact ih le enough
      · rw [if_neg rang] at enough ⊢
        rw [if_neg rang]
        cases next : Alarm.nextTime? (activity.alarms x) with
        | none => rfl
        | some time =>
            simp only [next] at enough ⊢
            cases cancelled : cancelledBy? cancelAt time with
            | some cancelTime => rfl
            | none =>
                simp only [cancelled] at enough ⊢
                exact ih le enough

end Activity

end AddressExpansion
