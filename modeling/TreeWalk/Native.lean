/-
# The functions of the host

The behaviours that a host can give to a builtin.  A builtin is a cell of the store that pairs a
name with one of them, so two builtins with the same behaviour are still two values.
-/
namespace TreeWalk

/-- What a builtin does with its arguments.  A missing argument is nil. -/
inductive Native where
  /-- The wrapping sum of the arguments that are numbers. -/
  | sum
  /-- A fresh array of the arguments. -/
  | collect
  /-- The first argument. -/
  | identity
  /-- A call of the first argument with the other ones. -/
  | apply
  /-- Like `apply`, but a failure is answered as data and not raised. -/
  | attempt
  /-- The first argument, if it is a string, as the name of a binding. -/
  | variable
  /-- The binding of the globals that the first argument names, or the argument itself. -/
  | resolve
  /-- The name of the kind of the first argument. -/
  | typeName
  /-- The text of the first argument. -/
  | text
  /-- The diagnostic text of the first argument. -/
  | debug
  /-- The value of the first argument as a condition. -/
  | truth
  /-- Whether the first two arguments are equal. -/
  | same
  /-- The number of entries of an object or of elements of an array. -/
  | length
  /-- The second argument put at the end of an array. -/
  | push
  /-- A fresh array of the keys of an object. -/
  | keys
  /-- Whether an object has a key. -/
  | has
  /-- A fresh container with the same entries or elements. -/
  | copy
  /-- The number of parameters of a function. -/
  | arity
  /-- The name of a function or builtin. -/
  | name
  /-- The binding of a name in the globals. -/
  | getGlobal
  /-- A new binding in the globals. -/
  | defineGlobal
  /-- A change of a binding in the globals. -/
  | setGlobal
  /-- The number of steps taken so far. -/
  | steps
  /-- A failure of the given kind with the given message. -/
  | fail
  /-- The same, at a given position. -/
  | failAt
deriving DecidableEq, Repr

/-- A function of the host. -/
structure Builtin where
  /-- The name that is shown. -/
  name : String
  /-- What it does. -/
  native : Native
deriving DecidableEq, Repr

instance : Inhabited Builtin := ⟨⟨"", .identity⟩⟩

end TreeWalk
