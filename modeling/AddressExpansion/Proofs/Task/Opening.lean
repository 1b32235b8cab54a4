import AddressExpansion.Proofs.Expansion.Unfolding
import AddressExpansion.Proofs.Task.Step

/-! # Openings

When a name is opened, it unfolds to an expansion and a task goes on with something, and the two
make the same choices. These choices are told here once, side by side: what a task makes of a token
(`Task.opens_token`) and of a lookup that has ended (`Task.answers_host`), in the cases of the
expansion. Whatever both have is compared by these cases.
-/

namespace AddressExpansion.Task

variable {env : Environment} {scope : Scope} {name : String}

/-- What a definition unfolds to, and what a task goes on with that puts it to use: nothing if it is
    refused. -/
inductive Uses (env : Environment) (use : Task → Task) : Expansion → Task → Prop
  | refused {failure} : Uses env use (.fault failure) (.ended (.error failure))
  | inside {within term} :
      Uses env use (Expansion.inScope env within term) (use (.fresh within term))

theorem uses_definition (env : Environment) (scope : Scope) (name : String)
    (definition : Except Failure Term) (use : Task → Task) :
    Uses env use (Expansion.ofDefinition env scope name definition)
      (inDefinition scope name definition use) := by
  unfold Expansion.ofDefinition inDefinition
  cases scope.enter? name with
  | error => exact .refused
  | ok within =>
      cases definition with
      | error => exact .refused
      | ok => exact .inside

/-- What a trimmed token unfolds to, and what it becomes when it is looked at. -/
inductive Opens (env : Environment) (scope : Scope) (name : String) : Expansion → Task → Prop
  | literal {address} :
      Opens env scope name (.literal name address) (.ended (.ok [.single address name]))
  | group {body task} (uses : Uses env (.gather scope (.group name)) body task) :
      Opens env scope name (.group name body) task
  | var {body task} (uses : Uses env id body task) : Opens env scope name (.var name body) task
  | host (meaning : env.meaning name = .host) :
      Opens env scope name (Expansion.ofHost env scope name) (.lookup scope name .idle)

theorem opens_token (env : Environment) (scope : Scope) (token : String) :
    Opens env scope (Text.trim token) (Expansion.inScope env scope (.literal token))
      (opened env scope token) := by
  rw [Expansion.inScope_literal]
  unfold opened
  generalize Text.trim token = name
  dsimp only
  cases meaning : env.meaning name with
  | literal => exact .literal
  | group => exact .group (uses_definition ..)
  | var => exact .var (uses_definition ..)
  | host => exact .host meaning

/-- What a name that has to be looked up unfolds to, and what its lookup becomes when it ends. -/
inductive Answers (env : Environment) (scope : Scope) (name : String) : Expansion → Task → Prop
  | found {ips} (outcome : env.outcome name = .ok ips) :
      Answers env scope name (.host name ips)
        (.ended (.ok (Atom.ofAddresses? (ips.map .host) (some name)).toList))
  | lost {reason} (outcome : env.outcome name = .error reason)
      (unrescued : env.override? name = none) :
      Answers env scope name (.lost name reason) (.ended (.error (.resolution name reason)))
  | rescued {reason value body task} (outcome : env.outcome name = .error reason)
      (override : env.override? name = some value)
      (uses : Uses env (.gather scope (.override name)) body task) :
      Answers env scope name (.rescue name reason value body) task

theorem answers_host (env : Environment) (scope : Scope) (name : String) :
    Answers env scope name (Expansion.ofHost env scope name) (answered env scope name) := by
  unfold Expansion.ofHost answered
  cases outcome : env.outcome name with
  | ok => exact .found outcome
  | error =>
      cases override : env.override? name with
      | none => exact .lost outcome override
      | some => exact .rescued outcome override (uses_definition ..)

end AddressExpansion.Task
