/-
# Expressions

One level of the evaluation of expressions and of assignments.
-/
import TreeWalk.Evaluator
import TreeWalk.Operators
import TreeWalk.Store.Rendering

namespace TreeWalk.Evaluator

variable (self : Evaluator)

/-- Fail because of a value that is not what is needed; the fault is told the text of the value. -/
def refuse {α : Type} (fault : String → Fault) (v : Value) : Action α := do
  Action.raise (fault (← Action.read fun st => st.text v))

/-- Refuse a key. -/
def refuseKey {α : Type} (key : Value) : Action α :=
  refuse (fun shown => .badKey shown key.typeName) key

/-! ### Literals -/

/-- The values of expressions, from left to right. -/
def evalAll (c : ScopeRef) (es : List Expr) : Action (Array Value) :=
  es.foldlM (fun vs e => do return vs.push (← self.expr e c)) #[]

/-- The entries of an object literal.  The values are evaluated in source order, and a later entry
replaces an earlier one with the same key. -/
def evalEntries (c : ScopeRef) (entries : List (String × Expr)) : Action Table :=
  entries.foldlM (fun t p => do return t.insert p.1 (← self.expr p.2 c)) ∅

/-- Bind a value to the name of a literal, if it has one. -/
def bindName (c : ScopeRef) (v : Value) : Option String → Action Unit
  | some name => Action.update fun st => st.define c name v
  | none => pure ()

/-- A fresh function in the scope `c`.  A named literal binds its name there. -/
def makeFunction (c : ScopeRef) (literal : FunctionLit) : Action Value := do
  let r ← Action.create fun st => st.newClosure ⟨literal, c⟩
  bindName c (.function r) literal.name
  return .function r

/-! ### Containers -/

/-- The value in a container under a key. -/
def readKey (container key : Value) : Action Value := do
  match container, key with
  | .object r, .string k => Action.read fun st => st.entry r k
  | .array r, .number i =>
    match ← Action.read fun st => st.element? r i with
    | some v => return v
    | none => Action.raise (.outOfRange i (← Action.read fun st => (st.array r).size))
  | _, _ => refuseKey key

/-- Write a value into a container under a key.  Only elements that exist can be written. -/
def writeKey (container key v : Value) : Action Unit := fun s =>
  match container, key with
  | .object r, .string k => .value () { s with store := s.store.setEntry r k v }
  | .array r, .number i =>
    if s.store.hasElement r i then .value () { s with store := s.store.setElement r i v }
    else .error (.ofFault (.outOfRange i (s.store.array r).size)) s
  | _, _ => refuseKey key s

/-- The value of an index expression. -/
def evalIndex (c : ScopeRef) (container key : Expr) : Action Value := do
  let container ← self.expr container c
  let key ← self.expr key c
  readKey container key

/-- Write a value to the place of an index expression.  The key is not evaluated unless there is a
container. -/
def assignIndex (c : ScopeRef) (container key : Expr) (v : Value) : Action Unit := do
  let container ← self.expr container c
  if container.isContainer then
    let key ← self.expr key c
    writeKey container key v
  else
    refuse .notAssignable container

/-! ### Calls -/

/-- What a value stands for: the binding of a name that is read when it is needed, and itself
otherwise. -/
def resolve (c : ScopeRef) : Value → Action Value
  | .variable name => Action.lookup c name
  | v => pure v

/-- Call a value, if it can be called. -/
def call (f : Value) (args : List Value) : Action Value :=
  if f.isCallable then self.invoke f args else refuse .notCallable f

/-- The value of a call.  What cannot be called is refused before the arguments are evaluated. -/
def evalCall (c : ScopeRef) (callee : Expr) (args : List Expr) : Action Value := do
  let f ← resolve c (← self.expr callee c)
  if f.isCallable then
    let args ← self.evalAll c args
    self.invoke f args.toList
  else
    refuse .notCallable f

/-! ### Operators -/

/-- The value of an operator with one operand. -/
def evalUnary (c : ScopeRef) (op : UnaryOp) (operand : Expr) : Action Value := do
  Action.ofExcept (op.apply (← self.expr operand c))

/-- Step the number that an expression denotes. -/
def evalStep (c : ScopeRef) (op : StepOp) (before : Bool) (operand : Expr) : Action Value := do
  match ← self.expr operand c with
  | .number n =>
    self.assign operand (.number (op.apply n)) c
    return .number (if before then op.apply n else n)
  | v => refuse .notAssignable v

/-- Conjunction: a boolean, and the right operand is evaluated only after a true left one. -/
def evalAnd (c : ScopeRef) (left right : Expr) : Action Value := do
  if (← self.expr left c).truth then
    return .bool (← self.expr right c).truth
  else
    return .bool false

/-- Disjunction: the first true operand as it is, or the right one. -/
def evalOr (c : ScopeRef) (left right : Expr) : Action Value := do
  let l ← self.expr left c
  if l.truth then return l else self.expr right c

/-- The value of an operator that evaluates both its operands. -/
def evalBoth (c : ScopeRef) (left : Expr) (op : BinaryOp) (right : Expr) : Action Value := do
  let l ← self.expr left c
  let r ← self.expr right c
  Action.ofExcept (op.apply l r)

/-- The value of an operator with two operands. -/
def evalBinary (c : ScopeRef) (left : Expr) (op : BinaryOp) (right : Expr) : Action Value :=
  match op with
  | .and => self.evalAnd c left right
  | .or => self.evalOr c left right
  | op => self.evalBoth c left op right

/-- The value of a conditional expression. -/
def evalConditional (c : ScopeRef) (condition whenTrue whenFalse : Expr) : Action Value := do
  if (← self.expr condition c).truth then self.expr whenTrue c else self.expr whenFalse c

/-- The value of an assignment, which is evaluated before its target. -/
def evalAssign (c : ScopeRef) (target value : Expr) : Action Value := do
  let v ← self.expr value c
  self.assign target v c
  return v

/-! ### The level -/

/-- The value of an expression of the given kind. -/
def evalKind (c : ScopeRef) : ExprKind → Action Value
  | .nil => pure .nil
  | .bool b => pure (.bool b)
  | .number n => pure (.number n)
  | .string s => pure (.string s)
  | .object entries => do
    let t ← self.evalEntries c entries
    return .object (← Action.create fun st => st.newObject t)
  | .array items => do
    let vs ← self.evalAll c items
    return .array (← Action.create fun st => st.newArray vs)
  | .function literal => makeFunction c literal
  | .identifier name => Action.lookup c name
  | .call callee args => self.evalCall c callee args
  | .index container key => self.evalIndex c container key
  | .new _ _ => Action.raise .newUnsupported
  | .unary op operand => self.evalUnary c op operand
  | .step op before operand => self.evalStep c op before operand
  | .binary left op right => self.evalBinary c left op right
  | .conditional condition whenTrue whenFalse =>
    self.evalConditional c condition whenTrue whenFalse
  | .assign target value => self.evalAssign c target value
  | .paren inner => self.expr inner c

/-- Write a value to a name. -/
def assignName (c : ScopeRef) (name : String) (v : Value) : Action Unit := do
  if ← Action.assign c name v then pure () else Action.raise (.unbound name)

/-- Write a value to the target that an expression denotes.  An expression that denotes no target
is evaluated and its value refused. -/
def assignTarget (c : ScopeRef) (target : Expr) (v : Value) : Action Unit :=
  match target.kind with
  | .identifier name => assignName c name v
  | .index container key => self.assignIndex c container key v
  | .paren inner => self.assign inner v c
  | _ => do refuse .notAssignable (← self.expr target c)

end TreeWalk.Evaluator
