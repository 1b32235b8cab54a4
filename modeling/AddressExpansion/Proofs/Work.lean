import AddressExpansion.Run

/-! # What work does to its progress

Each action of `Work` as a function on progress, and what a piece of work comes to when its actions
are run one after the other.
-/

namespace AddressExpansion

namespace Progress

def sayAll (p : Progress) (messages : List Message) : Progress :=
  messages.foldl say p

def onBoard (p : Progress) (f : Switchboard → Switchboard) : Progress :=
  { p with board := f p.board }

def onRota (p : Progress) (f : Rota → Rota) : Progress :=
  { p with rota := f p.rota }

/-- The switchboard is changed, and the bell that this calls for rings. -/
def handOver (p : Progress) (f : Switchboard → Option Bell × Switchboard) : Progress :=
  { p with
    board := (f p.board).2
    rota := (f p.board).1.elim p.rota p.rota.ring }

def spend (p : Progress) : Progress :=
  { p with allowance := p.allowance - 1 }

section Fields

variable (p : Progress)

@[simp] theorem say_board (message : Message) : (p.say message).board = p.board := rfl
@[simp] theorem say_rota (message : Message) : (p.say message).rota = p.rota := rfl
@[simp] theorem say_allowance (message : Message) : (p.say message).allowance = p.allowance := rfl

@[simp] theorem sayAll_board (messages : List Message) : (p.sayAll messages).board = p.board := by
  induction messages generalizing p with
  | nil => rfl
  | cons message messages ih => exact ih (p.say message)

@[simp] theorem sayAll_rota (messages : List Message) : (p.sayAll messages).rota = p.rota := by
  induction messages generalizing p with
  | nil => rfl
  | cons message messages ih => exact ih (p.say message)

@[simp] theorem sayAll_allowance (messages : List Message) :
    (p.sayAll messages).allowance = p.allowance := by
  induction messages generalizing p with
  | nil => rfl
  | cons message messages ih => exact ih (p.say message)

@[simp] theorem onBoard_board (f : Switchboard → Switchboard) :
    (p.onBoard f).board = f p.board := rfl
@[simp] theorem onBoard_rota (f : Switchboard → Switchboard) : (p.onBoard f).rota = p.rota := rfl
@[simp] theorem onBoard_allowance (f : Switchboard → Switchboard) :
    (p.onBoard f).allowance = p.allowance := rfl

@[simp] theorem onRota_board (f : Rota → Rota) : (p.onRota f).board = p.board := rfl
@[simp] theorem onRota_rota (f : Rota → Rota) : (p.onRota f).rota = f p.rota := rfl
@[simp] theorem onRota_allowance (f : Rota → Rota) : (p.onRota f).allowance = p.allowance := rfl

@[simp] theorem handOver_board (f : Switchboard → Option Bell × Switchboard) :
    (p.handOver f).board = (f p.board).2 := rfl
@[simp] theorem handOver_rota (f : Switchboard → Option Bell × Switchboard) :
    (p.handOver f).rota = (f p.board).1.elim p.rota p.rota.ring := rfl
@[simp] theorem handOver_allowance (f : Switchboard → Option Bell × Switchboard) :
    (p.handOver f).allowance = p.allowance := rfl

@[simp] theorem spend_board : p.spend.board = p.board := rfl
@[simp] theorem spend_rota : p.spend.rota = p.rota := rfl

end Fields

end Progress

namespace Work

variable {α β : Type} (p : Progress)

@[simp] theorem run_pure (a : α) : (pure a : Work α).run p = (a, p) := rfl

@[simp] theorem run_bind (x : Work α) (f : α → Work β) :
    (x >>= f).run p = (f (x.run p).1).run (x.run p).2 := rfl

theorem run_get_bind (f : Progress → Work β) : ((get : Work Progress) >>= f).run p = (f p).run p :=
  rfl

@[simp] theorem run_say (message : Message) : (say message).run p = ((), p.say message) := rfl

@[simp] theorem run_report (scope : Scope) (finding : Finding) :
    (report scope finding).run p = ((), p.say (.traced scope.item scope.depth finding)) := rfl

@[simp] theorem run_act : act.run p = ((), p.spend) := rfl

theorem run_time_bind (f : Nat → Work β) : (time >>= f).run p = (f p.board.now).run p := rfl

@[simp] theorem run_onBoard (f : Switchboard → Switchboard) :
    (onBoard f).run p = ((), p.onBoard f) := rfl

@[simp] theorem run_onRota (f : Rota → Rota) : (onRota f).run p = ((), p.onRota f) := rfl

@[simp] theorem run_handOver (f : Switchboard → Option Bell × Switchboard) :
    (handOver f).run p = ((), p.handOver f) := rfl

theorem run_mayAct (bell : Bell) :
    (mayAct bell).run p =
      if p.allowance = 0 then (false, p.onRota (·.putOff bell)) else (true, p) := by
  rw [mayAct, run_get_bind]
  by_cases none : p.allowance = 0
  · rw [if_pos none, if_pos none]
    rfl
  · rw [if_neg none, if_neg none]
    rfl

end Work

/-- What comes of the addresses of a finished part that are put into one atom. -/
def Gathering.gather (gathering : Gathering) (atoms : List Atom) : Outcome :=
  match gathering with
  | .record comment => .ok (Atom.gather? atoms comment).toList
  | .group name => .ok (Atom.gather? atoms (some name)).toList
  | .override name =>
    match Atom.gather? atoms (some name) with
    | some atom => .ok [atom]
    | none => .error (.resolution name .emptyOverride)

/-- What is reported when the addresses of a finished part are put into one atom. -/
def Gathering.remarks (gathering : Gathering) (scope : Scope) (atoms : List Atom) :
    List Message :=
  match gathering with
  | .record comment =>
    [.traced scope.item scope.depth (.record comment (Atom.gather? atoms comment))]
  | .group name => if (Atom.gather? atoms (some name)).isNone then [.emptyGroup name] else []
  | .override _ => []

theorem Gathering.run_finish (gathering : Gathering) (scope : Scope) (atoms : List Atom)
    (p : Progress) :
    (gathering.finish scope atoms).run p =
      (gathering.gather atoms, p.sayAll (gathering.remarks scope atoms)) := by
  cases gathering with
  | record => rfl
  | group name =>
      simp only [finish, remarks, gather]
      cases Atom.gather? atoms (some name) <;> rfl
  | override name =>
      simp only [finish, remarks, gather]
      cases Atom.gather? atoms (some name) <;> rfl

end AddressExpansion
