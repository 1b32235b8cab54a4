import AddressExpansion.Program

/-! # What a report says about the run

With an inventory and items a report is about one run on them. The exit status is zero exactly if
that run came to a value, and the value is what is printed.
-/

namespace AddressExpansion

namespace Report

variable {report : Report}

theorem exitStatus_eq_zero : report.exitStatus = 0 ↔ ∃ rendered, report.result = .ok rendered := by
  unfold exitStatus
  cases report.result <;> simp

theorem exitStatus_eq_one (failed : ∀ rendered, report.result ≠ .ok rendered) :
    report.exitStatus = 1 := by
  unfold exitStatus
  cases result : report.result with
  | ok rendered => exact absurd result (failed rendered)
  | error => rfl

theorem stdout_of_ok {rendered : Rendered} {line : CommandLine}
    (ok : report.result = .ok rendered) : report.stdout line =
      rendered.toValue.text (if line.pretty then .pretty else .compact) ++ "\n" := by
  rw [stdout, ok]

end Report

namespace Program

variable {line line' : CommandLine} {around around' : Surroundings}

theorem resultOf_eq_ok {ending : Ending Rendered} {rendered : Rendered} :
    resultOf ending = .ok rendered ↔ ending = .value rendered := by
  cases ending <;> simp [resultOf]

/-! ## Items -/

theorem items_of_stdin {values : List Json.Value} (without : line.items = [])
    (parsed : Json.Value.parse? around.stdin = some (.array values)) :
    items line around = .ok values := by
  rw [items, if_pos without, readItems, parsed]

theorem items_of_words (some_word : line.items ≠ []) : items line around = .ok line.itemValues :=
  if_neg some_word

/-! ## Runs -/

theorem run_of_items {inventory : Inventory} {loaded : List Message} {items : List Json.Value}
    (loads : loadInventory line around = .ok (inventory, loaded))
    (found : Program.items line around = .ok items) :
    ∃ whole : Run Rendered,
      whole = Engine.run { inventory, answer := around.answer } line.options items none ∧
      (run line around).calls = whole.calls ∧ (run line around).result = resultOf whole.ending := by
  refine ⟨_, rfl, ?_⟩
  unfold run
  rw [loads]
  dsimp only
  rw [found]
  exact ⟨rfl, rfl⟩

theorem exists_run_of_ok {rendered : Rendered} (ok : (run line around).result = .ok rendered) :
    ∃ (engine : Engine) (items : List Json.Value),
      (engine.run line.options items none).ending = .value rendered := by
  cases loads : loadInventory line around with
  | error e => simp [run, loads] at ok
  | ok loaded =>
      cases found : Program.items line around with
      | error e => simp [run, loads, found] at ok
      | ok items =>
          obtain ⟨whole, rfl, -, result⟩ := run_of_items loads found
          rw [result] at ok
          exact ⟨_, items, resultOf_eq_ok.mp ok⟩

/-- A report depends on the inventory, the answers, the options and the items alone. -/
theorem run_congr (loads : loadInventory line around = loadInventory line' around')
    (answer : around.answer = around'.answer) (options : line.options = line'.options)
    (shown : line.effectiveLevel = line'.effectiveLevel)
    (found : Program.items line around = Program.items line' around') :
    run line around = run line' around' := by
  unfold run
  rw [loads, answer, options, shown, found]

end Program

end AddressExpansion
