import AddressExpansion.Expansion.Leaves

/-! # Timing of an expansion

When the parts of an expansion are over if no lookup has to wait for a line. Parts go on side by
side; only an override waits, for the failed lookup of its own name.
-/

namespace AddressExpansion.Expansion

mutual

/-- When an expansion that begins at a time is over: the latest end of its leaves. -/
def finish (env : Environment) (time : Nat) : Expansion → Nat
  | .literal .. | .fault _ => time
  | .host name _ | .lost name _ => time + env.duration name
  | .rescue name _ _ body => body.finish env (time + env.duration name)
  | .group _ body | .var _ body | .record _ body => body.finish env time
  | .list parts => finishOfAll env time parts

def finishOfAll (env : Environment) (time : Nat) : List Expansion → Nat
  | [] => time
  | part :: parts => max (part.finish env time) (finishOfAll env time parts)

end

mutual

/-- All failures of an expansion that begins at a time, each with the time at which it is met. -/
def failures (env : Environment) (time : Nat) : Expansion → List (Nat × Failure)
  | .literal .. | .host .. => []
  | .lost name reason => [(time + env.duration name, .resolution name reason)]
  | .fault failure => [(time, failure)]
  | .rescue name _ _ body =>
    let time := time + env.duration name
    match body.failures env time with
    | [] =>
      if body.addresses = [] then [(body.finish env time, .resolution name .emptyOverride)] else []
    | inner => inner
  | .group _ body | .var _ body | .record _ body => body.failures env time
  | .list parts => failuresOfAll env time parts

def failuresOfAll (env : Environment) (time : Nat) : List Expansion → List (Nat × Failure)
  | [] => []
  | part :: parts => part.failures env time ++ failuresOfAll env time parts

end

end AddressExpansion.Expansion
