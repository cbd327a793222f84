/-
# Configurations

The limits and policies of one interpreter.
-/
import TreeWalk.Json

namespace TreeWalk

/-- What happens when a call has more or fewer arguments than the function has parameters. -/
inductive ArityPolicy where
  /-- Missing arguments are nil, further ones are dropped. -/
  | lenient
  /-- Any difference is an error. -/
  | strict
deriving DecidableEq, Repr

/-- The name of a policy in configuration texts. -/
def ArityPolicy.key : ArityPolicy → String
  | .lenient => "lenient"
  | .strict => "strict"

/-- The limits and policies of one interpreter. -/
structure Config where
  /-- The largest number of nested calls. -/
  maxCallDepth : UInt64 := 1024
  /-- The largest number of steps; `none` stands for no limit. -/
  stepLimit : Option UInt64 := none
  /-- How arguments meet parameters. -/
  arity : ArityPolicy := .lenient
deriving DecidableEq, Repr

namespace Config

instance : Inhabited Config := ⟨{}⟩

/-- The configuration as data. -/
def json (c : Config) : Json :=
  .object [("max_call_depth", .number c.maxCallDepth.toNat),
    ("step_limit", match c.stepLimit with
      | some limit => .number limit.toNat
      | none => .null),
    ("arity", .string c.arity.key)]

end Config

end TreeWalk
