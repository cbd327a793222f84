/-
# Values

A value is a scalar, a reference into the store, or the name of a binding to be read later.  Two
values are equal when they are the same scalar, the same cell or the same name, so equality of
values never looks into a container.
-/
import TreeWalk.Program

namespace TreeWalk

/-- A scope of a store. -/
structure ScopeRef where
  /-- The place of the scope among the scopes. -/
  index : Nat
deriving DecidableEq, Repr

/-- An object of a store. -/
structure ObjectRef where
  /-- The place of the object among the objects. -/
  index : Nat
deriving DecidableEq, Repr

/-- An array of a store. -/
structure ArrayRef where
  /-- The place of the array among the arrays. -/
  index : Nat
deriving DecidableEq, Repr

/-- A function of a store. -/
structure FunctionRef where
  /-- The place of the function among the functions. -/
  index : Nat
deriving DecidableEq, Repr

/-- A builtin of a store. -/
structure BuiltinRef where
  /-- The place of the builtin among the builtins. -/
  index : Nat
deriving DecidableEq, Repr

/-- A value of a program. -/
inductive Value where
  | nil
  | bool (b : Bool)
  | number (n : Int64)
  | string (s : String)
  /-- A mutable map from texts to values, shared by all who hold the reference. -/
  | object (r : ObjectRef)
  /-- A mutable sequence of values, shared by all who hold the reference. -/
  | array (r : ArrayRef)
  /-- A function literal with the scope it was evaluated in. -/
  | function (r : FunctionRef)
  /-- A function of the host. -/
  | builtin (r : BuiltinRef)
  /-- The name of a binding that is read when it is needed. -/
  | variable (name : String)
deriving DecidableEq, Repr

namespace Value

instance : Inhabited Value := ⟨.nil⟩

/-- The value of a condition. -/
def truth : Value → Bool
  | .nil => false
  | .bool b => b
  | .number n => n != 0
  | .string s => !s.isEmpty
  | .object _ | .array _ | .function _ | .builtin _ | .variable _ => true

/-- The name of the kind of a value. -/
def typeName : Value → String
  | .nil => "nil"
  | .bool _ => "boolean"
  | .number _ => "number"
  | .string _ => "string"
  | .object _ => "object"
  | .array _ => "array"
  | .function _ => "function"
  | .builtin _ => "builtin"
  | .variable _ => "variable"

/-- Whether a value can be called. -/
def isCallable : Value → Bool
  | .function _ | .builtin _ => true
  | _ => false

/-- Whether a value is an object or an array. -/
def isContainer : Value → Bool
  | .object _ | .array _ => true
  | _ => false

/-- The number that a value is. -/
def number? : Value → Option Int64
  | .number n => some n
  | _ => none

/-- The text that a value is. -/
def string? : Value → Option String
  | .string s => some s
  | _ => none

end Value

end TreeWalk
