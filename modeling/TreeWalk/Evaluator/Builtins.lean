/-
# Builtins

What the builtins do.  Builtins see the store, the globals and their arguments, and may call back
into the evaluator; an argument that is missing is nil.
-/
import TreeWalk.Evaluator.Statements

namespace TreeWalk.Evaluator

variable (self : Evaluator)

/-- The text that an argument has to be. -/
def stringArgument : Value → Action String
  | .string s => pure s
  | _ => Action.raise .stringArgument

/-- A fresh array as a value. -/
def arrayOf (items : Array Value) : Action Value := do
  return .array (← Action.create fun st => st.newArray items)

/-- The sum of the numbers among values, with wrap-around. -/
def sumOf (vs : List Value) : Int64 :=
  vs.foldl (fun n v => match v with
    | .number m => n + m
    | _ => n) 0

/-- Call a value and answer its end as an array: `true` with the value, or `false` with the kind,
the message and the position of the error. -/
def attempt (f : Value) (args : List Value) : Action Value := do
  match ← Action.attempt (self.call f args) with
  | .ok v => arrayOf #[.bool true, v]
  | .error e =>
    let position := match e.span with
      | some span => Value.string span.text
      | none => .nil
    arrayOf #[.bool false, .string e.kind.title, .string e.message, position]

/-- The number of parts of a container. -/
def lengthOf (st : Store) : Value → Value
  | .object r => .number (Int64.ofNat (st.object r).size)
  | .array r => .number (Int64.ofNat (st.array r).size)
  | _ => .nil

/-- The name of a function or builtin. -/
def nameOf (st : Store) : Value → Value
  | .function r =>
    match (st.closure r).name with
    | some name => .string name
    | none => .nil
  | .builtin r => .string (st.builtin r).name
  | _ => .nil

/-- The number of parameters of a function. -/
def arityOf (st : Store) : Value → Value
  | .function r => .number (Int64.ofNat (st.closure r).arity)
  | _ => .nil

/-- A fresh container with the parts of `v`, or `v` itself. -/
def copyOf : Value → Action Value
  | .object r => do
    let t ← Action.read fun st => st.object r
    return .object (← Action.create fun st => st.newObject t)
  | .array r => do
    let items ← Action.read fun st => st.array r
    return .array (← Action.create fun st => st.newArray items)
  | v => pure v

/-- The keys of an object as a fresh array. -/
def keysOf : Value → Action Value
  | .object r => do
    let keys ← Action.read fun st => (st.object r).keys
    arrayOf (keys.map Value.string).toArray
  | _ => pure .nil

/-- Whether an object has the key that an argument is. -/
def hasKey (v key : Value) : Action Value :=
  match v with
  | .object r => do
    let k ← stringArgument key
    return .bool (← Action.read fun st => (st.object r).contains k)
  | _ => pure .nil

/-- Put a value at the end of an array. -/
def pushTo (v item : Value) : Action Value :=
  match v with
  | .array r => do
    Action.update fun st => st.pushElement r item
    return v
  | _ => Action.raise .arrayArgument

/-- The fault that two arguments describe.  The kind is looked at before the message. -/
def faultOf (kind message : Value) : Action Fault := do
  let title ← stringArgument kind
  match ErrorKind.ofTitle? title with
  | some k => return .raised k (← stringArgument message)
  | none => Action.raise .unknownKind

/-- A line or column from an argument; what is no number counts as zero. -/
def coordinate : Value → UInt32
  | .number n => n.toUInt64.toUInt32
  | _ => 0

/-- The binding of a name in the globals, or nil. -/
def globalOf (globals : ScopeRef) (name : String) : Action Value := fun s =>
  match s.store.lookup globals name with
  | .found v => .value v s
  | .unbound => .value .nil s
  | .endless => .unfinished

/-- What a builtin does. -/
def runNative (globals : ScopeRef) (native : Native) (args : List Value) : Action Value :=
  let a₀ := args.getD 0 .nil
  let a₁ := args.getD 1 .nil
  match native with
  | .sum => pure (.number (sumOf args))
  | .collect => arrayOf args.toArray
  | .identity => pure a₀
  | .apply => self.call a₀ args.tail
  | .attempt => self.attempt a₀ args.tail
  | .variable => pure (match a₀ with
    | .string name => .variable name
    | _ => .nil)
  | .resolve => resolve globals a₀
  | .typeName => pure (.string a₀.typeName)
  | .text => do return .string (← Action.read fun st => st.text a₀)
  | .debug => do return .string (← Action.read fun st => st.debugText a₀)
  | .truth => pure (.bool a₀.truth)
  | .same => pure (.bool (a₀ = a₁))
  | .length => Action.read fun st => lengthOf st a₀
  | .push => pushTo a₀ a₁
  | .keys => keysOf a₀
  | .has => hasKey a₀ a₁
  | .copy => copyOf a₀
  | .arity => Action.read fun st => arityOf st a₀
  | .name => Action.read fun st => nameOf st a₀
  | .getGlobal => do globalOf globals (← stringArgument a₀)
  | .defineGlobal => do
    let name ← stringArgument a₀
    Action.update fun st => st.define globals name a₁
    return .nil
  | .setGlobal => do
    let name ← stringArgument a₀
    return .bool (← Action.assign globals name a₁)
  | .steps => do return .number (← Action.stepsTaken).toInt64
  | .fail => do Action.raise (← faultOf a₀ a₁)
  | .failAt => do
    let fault ← faultOf a₀ a₁
    let span := Span.point (coordinate (args.getD 2 .nil)) (coordinate (args.getD 3 .nil))
    Action.blame span (Action.raise fault)

end TreeWalk.Evaluator
