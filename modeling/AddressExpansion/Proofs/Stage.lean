import Mathlib.Logic.Relation
import AddressExpansion.Proofs.Work

/-! # Visits to a lookup

What a visit to each stage of a lookup comes to, and that it is a sequence of acts: a line is taken
or a ticket drawn, a call starts, an alarm is set (`comesTo_visit`).
-/

namespace AddressExpansion

namespace Stage

open Relation Work

section Visits

variable (name : String) (wait? : Option Nat) (bell : Bell) (p : Progress)

theorem run_await (ends : Nat) (alarm : Option Nat) :
    (await bell ends alarm).run p =
      if p.allowance = 0 then (some (.underway ends alarm), p.onRota (·.putOff bell))
      else if ends ≤ p.board.now then (none, p.spend.handOver Switchboard.hangUp)
      else
        match alarm with
        | some number => (some (.underway ends (some number)), p)
        | none =>
          (some (.underway ends (some p.board.alarms)),
            p.onBoard fun board => { board with alarms := p.board.alarms + 1 }) := by
  unfold await
  rw [run_bind, run_mayAct]
  by_cases spent : p.allowance = 0
  · rw [if_pos spent, if_pos spent]
    rfl
  · rw [if_neg spent, if_neg spent]
    simp only [Bool.not_true, Bool.false_eq_true, ↓reduceIte, run_time_bind]
    by_cases due : ends ≤ p.board.now
    · rw [if_pos due, if_pos due]
      rfl
    · rw [if_neg due, if_neg due]
      cases alarm <;> rfl

theorem run_call :
    (call name wait? bell).run p =
      match wait? with
      | none => (none, (p.onBoard (·.call name)).handOver Switchboard.hangUp)
      | some wait => (await bell (p.board.now + wait) none).run (p.onBoard (·.call name)) := by
  cases wait? <;> rfl

theorem run_visit_idle :
    (visit name wait? bell .idle).run p =
      if p.allowance = 0 then (some .idle, p.onRota (·.putOff bell))
      else if p.board.free = 0 then (some (.queued p.board.drawn), p.onBoard (·.draw bell))
      else (call name wait? bell).run (p.spend.onBoard Switchboard.take) := by
  unfold visit
  rw [run_bind, run_mayAct]
  by_cases spent : p.allowance = 0
  · rw [if_pos spent, if_pos spent]
    rfl
  · rw [if_neg spent, if_neg spent]
    simp only [Bool.not_true, Bool.false_eq_true, ↓reduceIte, run_get_bind]
    by_cases busy : p.board.free = 0
    · rw [if_pos busy, if_pos busy]
      rfl
    · rw [if_neg busy, if_neg busy]
      rfl

theorem run_visit_queued (ticket : Nat) :
    (visit name wait? bell (.queued ticket)).run p =
      if p.allowance = 0 then (some (.queued ticket), p.onRota (·.putOff bell))
      else if ticket ∈ p.board.served then
        (call name wait? bell).run (p.spend.onBoard (·.claim ticket))
      else (some (.queued ticket), p) := by
  unfold visit
  rw [run_bind, run_mayAct]
  by_cases spent : p.allowance = 0
  · rw [if_pos spent, if_pos spent]
    rfl
  · rw [if_neg spent, if_neg spent]
    simp only [Bool.not_true, Bool.false_eq_true, ↓reduceIte, run_get_bind]
    by_cases served : ticket ∈ p.board.served
    · rw [if_pos served, if_neg (by simpa [Switchboard.isServed] using served)]
      rfl
    · rw [if_neg served, if_pos (by simpa [Switchboard.isServed] using served)]
      rfl

end Visits

/-- What a lookup that takes `duration` and leaves a bell may do before its call ends. -/
inductive Act (name : String) (duration : Nat) (bell : Bell) :
    Stage × Progress → Stage × Progress → Prop
  | spend {stage p} : Act name duration bell (stage, p) (stage, p.spend)
  /-- The lookup is put off until the round is over. -/
  | putOff {stage p} : Act name duration bell (stage, p) (stage, p.onRota (·.putOff bell))
  | draw {p} (busy : p.board.free = 0) :
      Act name duration bell (.idle, p) (.queued p.board.drawn, p.onBoard (·.draw bell))
  | take {p} (idle : p.board.free ≠ 0) :
      Act name duration bell (.idle, p) (.underway (p.board.now + duration) none,
        (p.onBoard Switchboard.take).onBoard (·.call name))
  | claim {ticket p} (served : ticket ∈ p.board.served) :
      Act name duration bell (.queued ticket, p) (.underway (p.board.now + duration) none,
        (p.onBoard (·.claim ticket)).onBoard (·.call name))
  | setAlarm {ends p} (early : p.board.now < ends) :
      Act name duration bell (.underway ends none, p) (.underway ends (some p.board.alarms),
        p.onBoard fun board => { board with alarms := p.board.alarms + 1 })

/-- What a lookup comes to by acts: another stage, or a call that is ready to end and whose line is
    given back. -/
def ComesTo (name : String) (duration : Nat) (bell : Bell) (x : Stage × Progress) :
    Option Stage × Progress → Prop
  | (some stage, p) => ReflTransGen (Act name duration bell) x (stage, p)
  | (none, p) => ∃ ends alarm q,
    ReflTransGen (Act name duration bell) x (.underway ends alarm, q) ∧
      ends ≤ q.board.now ∧ p = q.handOver Switchboard.hangUp

variable {name : String} {duration : Nat} {bell : Bell} {p : Progress} {x : Stage × Progress}

private theorem comesTo_await {ends : Nat} {alarm : Option Nat}
    (acts : ReflTransGen (Act name duration bell) x (.underway ends alarm, p)) :
    ComesTo name duration bell x ((await bell ends alarm).run p) := by
  rw [run_await]
  by_cases spent : p.allowance = 0
  · rw [if_pos spent]
    exact .tail acts .putOff
  · rw [if_neg spent]
    by_cases due : ends ≤ p.board.now
    · rw [if_pos due]
      exact ⟨ends, alarm, p.spend, .tail acts .spend, due, rfl⟩
    · rw [if_neg due]
      cases alarm with
      | some => exact acts
      | none => exact .tail acts (.setAlarm (Nat.lt_of_not_le due))

private theorem comesTo_call {wait? : Option Nat}
    (acts : ReflTransGen (Act name (wait?.getD 0) bell) x
      (.underway (p.board.now + wait?.getD 0) none, p.onBoard (·.call name))) :
    ComesTo name (wait?.getD 0) bell x ((call name wait? bell).run p) := by
  rw [run_call]
  cases wait? with
  | none => exact ⟨_, none, _, acts, Nat.le_refl _, rfl⟩
  | some wait => exact comesTo_await acts

/-- A visit takes a lookup on by acts. -/
theorem comesTo_visit (name : String) (wait? : Option Nat) (bell : Bell) (stage : Stage)
    (p : Progress) :
    ComesTo name (wait?.getD 0) bell (stage, p) ((stage.visit name wait? bell).run p) := by
  cases stage with
  | idle =>
      rw [run_visit_idle]
      by_cases spent : p.allowance = 0
      · rw [if_pos spent]
        exact .single .putOff
      · rw [if_neg spent]
        by_cases busy : p.board.free = 0
        · rw [if_pos busy]
          exact .single (.draw busy)
        · rw [if_neg busy]
          exact comesTo_call (.head .spend (.single (.take busy)))
  | queued ticket =>
      rw [run_visit_queued]
      by_cases spent : p.allowance = 0
      · rw [if_pos spent]
        exact .single .putOff
      · rw [if_neg spent]
        by_cases served : ticket ∈ p.board.served
        · rw [if_pos served]
          exact comesTo_call (.head .spend (.single (.claim served)))
        · rw [if_neg served]
          exact .refl
  | underway ends alarm => exact comesTo_await .refl

end Stage

end AddressExpansion
