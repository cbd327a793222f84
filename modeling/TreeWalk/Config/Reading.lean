/-
# Reading configurations

A configuration is read from a JSON text: an object in which the fields of a configuration may
stand in any order among others, or an array with the values of the first fields.  What is missing
has its default; a field that is given twice is refused.
-/
import TreeWalk.Config
import TreeWalk.Json.Document

namespace TreeWalk.Config

open Json (Document)

/-- A number of 64 bits without sign. -/
def word? : Document → Option UInt64
  | .natural n => if n < UInt64.size then some (UInt64.ofNat n) else none
  | _ => none

/-- A number of steps, or null for no limit. -/
def limit? : Document → Option (Option UInt64)
  | .null => some none
  | d => (word? d).map some

/-- The policy with the given name. -/
def policyOfKey? (key : String) : Option ArityPolicy :=
  if key = ArityPolicy.lenient.key then some .lenient
  else if key = ArityPolicy.strict.key then some .strict
  else none

/-- A policy: its name, or an object with its name as the only key and null as the value. -/
def policy? : Document → Option ArityPolicy
  | .string (some key) => policyOfKey? key
  | .object [(some key, .null)] => policyOfKey? key
  | _ => none

/-- The value of a field that may be missing. -/
def fieldOr {α : Type} (read : Document → Option α) (default : α) : Option Document → Option α
  | some d => read d
  | none => some default

/-- The configuration with the given fields. -/
def ofFields? (maxCallDepth stepLimit arity : Option Document) : Option Config := do
  let base : Config := {}
  return {
    maxCallDepth := ← fieldOr word? base.maxCallDepth maxCallDepth
    stepLimit := ← fieldOr limit? base.stepLimit stepLimit
    arity := ← fieldOr policy? base.arity arity }

/-- The configuration that a document describes. -/
def ofDocument? : Document → Option Config
  | .object fields => do
    if Document.keysAreTexts fields then
      ofFields? (← Document.field? fields "max_call_depth")
        (← Document.field? fields "step_limit") (← Document.field? fields "arity")
    else none
  | .array items =>
    if items.length ≤ 3 then ofFields? items[0]? items[1]? items[2]? else none
  | _ => none

/-- The configuration that a text describes. -/
def ofText? (s : String) : Option Config := do
  ofDocument? (← Document.ofText? s)

end TreeWalk.Config
