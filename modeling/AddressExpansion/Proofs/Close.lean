import Mathlib.Tactic.Common

/-! # Closes

What goes on comes to a close at some time, well or with a failure. Of things that go on side by
side the last one to be over decides when all of them are; a failure may count at once, or only
when everything before it is over.
-/

namespace AddressExpansion

/-- How something comes to a close, and when. -/
inductive Close where
  | well (time : Nat)
  | failed (time : Nat)
  deriving Repr, DecidableEq

namespace Close

def time : Close → Nat
  | well time | failed time => time

def isWell : Close → Bool
  | well _ => true
  | failed _ => false

/-- The close of two things of which any failure counts at once. -/
def beside : Close → Close → Close
  | well s, well t => well (max s t)
  | well _, failed t => failed t
  | failed s, well _ => failed s
  | failed s, failed t => failed (min s t)

/-- The close of two things of which a failure of the second counts once the first is over. -/
def before : Close → Close → Close
  | well s, well t => well (max s t)
  | well s, failed t => failed (max s t)
  | failed s, _ => failed s

/-- The close of a join that begins at a time. -/
def ofJoin (start : Nat) : List Close → Close
  | [] => well start
  | part :: parts => part.beside (ofJoin start parts)

/-- The close of a crowd that begins at a time. -/
def ofCrowd (start : Nat) : List Close → Close
  | [] => well start
  | part :: parts => part.before (ofCrowd start parts)

/-- The close of something that has to yield a result, given what it yields. -/
def yielding {α : Type} (close : Close) : Option α → Close
  | some _ => close
  | none => failed close.time

def notBefore (next : Nat) : Close → Close
  | well time => well (max next time)
  | failed time => failed (max next time)

/-- The close of something that meets failures at some times, or else is over at a time. -/
def ofTimes (failures : List Nat) (finish : Nat) : Close :=
  match failures.min? with
  | none => well finish
  | some time => failed time

variable {start next : Nat} {part : Close} {parts front back : List Close}

@[simp] theorem time_failed (time : Nat) : (failed time).time = time := rfl

@[simp] theorem isWell_well (time : Nat) : (well time).isWell = true := rfl

@[simp] theorem isWell_failed (time : Nat) : (failed time).isWell = false := rfl

theorem failed_time_of_not_isWell (failing : part.isWell = false) : failed part.time = part := by
  cases part with
  | well => cases failing
  | failed => rfl

/-! ## Results -/

theorem yielding_eq_self {α : Type} {result : Option α} (given : part.isWell → result.isSome) :
    part.yielding result = part := by
  cases result with
  | some => rfl
  | none =>
      refine failed_time_of_not_isWell ?_
      cases well : part.isWell with
      | false => rfl
      | true => cases given well

@[simp] theorem time_yielding {α : Type} (result : Option α) :
    (part.yielding result).time = part.time := by
  cases result <;> rfl

/-! ## When lists are over -/

@[simp] theorem isWell_ofJoin : (ofJoin start parts).isWell = parts.all isWell := by
  induction parts with
  | nil => rfl
  | cons part parts ih =>
      rw [ofJoin, List.all_cons, ← ih]
      cases part <;> cases ofJoin start parts <;> rfl

@[simp] theorem isWell_ofCrowd : (ofCrowd start parts).isWell = parts.all isWell := by
  induction parts with
  | nil => rfl
  | cons part parts ih =>
      rw [ofCrowd, List.all_cons, ← ih]
      cases part <;> cases ofCrowd start parts <;> rfl

theorem le_time_beside {c d : Close} (first : next ≤ c.time) (second : next ≤ d.time) :
    next ≤ (c.beside d).time := by
  cases c <;> cases d <;> simp only [beside, time] at * <;> omega

theorem le_time_before {c d : Close} (first : next ≤ c.time) : next ≤ (c.before d).time := by
  cases c <;> cases d <;> simp only [before, time] at * <;> omega

theorem le_time_ofJoin (late : ∀ part ∈ parts, start ≤ part.time) :
    start ≤ (ofJoin start parts).time := by
  induction parts with
  | nil => exact Nat.le_refl _
  | cons part parts ih =>
      obtain ⟨here, there⟩ := List.forall_mem_cons.mp late
      exact le_time_beside here (ih there)

theorem le_time_ofCrowd (late : ∀ part ∈ parts, start ≤ part.time) :
    start ≤ (ofCrowd start parts).time := by
  cases parts with
  | nil => exact Nat.le_refl _
  | cons part parts => exact le_time_before (late part List.mem_cons_self)

theorem ofJoin_eq_failed (now : failed start ∈ parts)
    (late : ∀ part ∈ parts, start ≤ part.time) : ofJoin start parts = failed start := by
  induction parts with
  | nil => cases now
  | cons part parts ih =>
      obtain ⟨here, there⟩ := List.forall_mem_cons.mp late
      have others := le_time_ofJoin there
      rw [ofJoin]
      rcases List.mem_cons.mp now with rfl | now
      · cases last : ofJoin start parts with
        | well => rfl
        | failed =>
            rw [last, time_failed] at others
            exact congrArg failed (Nat.min_eq_left others)
      · rw [ih now there]
        cases part with
        | well => rfl
        | failed => exact congrArg failed (Nat.min_eq_right here)

/-- A crowd fails at once if a part of it does and all parts before it are over. -/
theorem ofCrowd_eq_failed (ended : ∀ part ∈ front, part = well start) :
    ofCrowd start (front ++ failed start :: back) = failed start := by
  induction front with
  | nil => rfl
  | cons part front ih =>
      obtain ⟨rfl, others⟩ := List.forall_mem_cons.mp ended
      rw [List.cons_append, ofCrowd, ih others]
      exact congrArg failed (Nat.max_self start)

theorem ofJoin_eq_well (ended : ∀ part ∈ parts, part = well start) :
    ofJoin start parts = well start := by
  induction parts with
  | nil => rfl
  | cons part parts ih =>
      obtain ⟨rfl, others⟩ := List.forall_mem_cons.mp ended
      rw [ofJoin, ih others]
      exact congrArg well (Nat.max_self start)

/-- As long as nothing fails, joins and crowds come to the same close. -/
theorem ofCrowd_eq_ofJoin (sound : ∀ part ∈ parts, part.isWell) :
    ofCrowd start parts = ofJoin start parts := by
  induction parts with
  | nil => rfl
  | cons part parts ih =>
      obtain ⟨here, there⟩ := List.forall_mem_cons.mp sound
      have others : (ofJoin start parts).isWell := by
        simpa using there
      rw [ofCrowd, ofJoin, ih there]
      cases part with
      | failed => cases here
      | well =>
          cases last : ofJoin start parts with
          | well => rfl
          | failed => rw [last] at others; cases others

theorem le_time_beside_of_going {c d : Close} (first : c.isWell = false → next ≤ c.time)
    (second : d.isWell = false → next ≤ d.time) (going : next ≤ c.time ∨ next ≤ d.time) :
    next ≤ (c.beside d).time := by
  cases c <;> cases d <;> simp [beside, time, isWell] at * <;> omega

theorem le_time_ofJoin_of_going (going : ∃ part ∈ parts, next ≤ part.time)
    (late : ∀ part ∈ parts, part.isWell = false → next ≤ part.time) :
    next ≤ (ofJoin start parts).time := by
  induction parts with
  | nil => obtain ⟨_, ⟨⟩, _⟩ := going
  | cons part parts ih =>
      obtain ⟨here, there⟩ := List.forall_mem_cons.mp late
      refine le_time_beside_of_going here (fun failing => ?_) ?_
      · rw [isWell_ofJoin, List.all_eq_false] at failing
        obtain ⟨other, member, failing⟩ := failing
        exact ih ⟨other, member, there other member (by simpa using failing)⟩ there
      · obtain ⟨other, member, later⟩ := going
        rcases List.mem_cons.mp member with rfl | member
        · exact .inl later
        · exact .inr (ih ⟨other, member, later⟩ there)

theorem le_time_ofCrowd_of_going (going : next ≤ part.time) (sound : ∀ part ∈ front, part.isWell) :
    next ≤ (ofCrowd start (front ++ part :: back)).time := by
  induction front with
  | nil => exact le_time_before going
  | cons first front ih =>
      obtain ⟨here, there⟩ := List.forall_mem_cons.mp sound
      have rest := ih there
      rw [List.cons_append, ofCrowd]
      cases first with
      | failed => cases here
      | well time =>
          cases last : ofCrowd start (front ++ part :: back) <;> rw [last] at rest <;>
            exact Nat.le_trans rest (Nat.le_max_right ..)

/-! ## Later closes -/

theorem notBefore_eq_self (late : next ≤ part.time) : part.notBefore next = part := by
  cases part with
  | well => exact congrArg well (Nat.max_eq_right late)
  | failed => exact congrArg failed (Nat.max_eq_right late)

theorem notBefore_yielding {α : Type} (result : Option α) :
    (part.yielding result).notBefore next = (part.notBefore next).yielding result := by
  cases result with
  | some => rfl
  | none => cases part <;> rfl

theorem notBefore_beside (c d : Close) :
    (c.beside d).notBefore next = (c.notBefore next).beside (d.notBefore next) := by
  cases c <;> cases d <;> simp only [beside, notBefore, well.injEq, failed.injEq] <;> omega

theorem notBefore_before (c d : Close) :
    (c.before d).notBefore next = (c.notBefore next).before (d.notBefore next) := by
  cases c <;> cases d <;> simp only [before, notBefore, well.injEq, failed.injEq] <;> omega

theorem notBefore_ofJoin : (ofJoin start parts).notBefore next =
    ofJoin (max next start) (parts.map (notBefore next)) := by
  induction parts with
  | nil => rfl
  | cons part parts ih => rw [ofJoin, notBefore_beside, ih, List.map_cons, ofJoin]

theorem notBefore_ofCrowd : (ofCrowd start parts).notBefore next =
    ofCrowd (max next start) (parts.map (notBefore next)) := by
  induction parts with
  | nil => rfl
  | cons part parts ih => rw [ofCrowd, notBefore_before, ih, List.map_cons, ofCrowd]

/-! ## Earliest failures -/

theorem beside_assoc (c d e : Close) : (c.beside d).beside e = c.beside (d.beside e) := by
  cases c <;> cases d <;> cases e <;> simp only [beside, well.injEq, failed.injEq] <;> omega

theorem ofTimes_cons (time : Nat) (failures : List Nat) (finish : Nat) :
    ofTimes (time :: failures) finish = (failed time).beside (ofTimes failures finish) := by
  unfold ofTimes
  rw [List.min?_cons]
  cases failures.min? <;> rfl

theorem ofTimes_beside (failures failures' : List Nat) (finish finish' : Nat) :
    (ofTimes failures finish).beside (ofTimes failures' finish') =
      ofTimes (failures ++ failures') (max finish finish') := by
  induction failures with
  | nil =>
      rw [List.nil_append]
      unfold ofTimes
      cases failures'.min? <;> rfl
  | cons time failures ih => rw [ofTimes_cons, beside_assoc, ih, List.cons_append, ofTimes_cons]

end Close

end AddressExpansion
