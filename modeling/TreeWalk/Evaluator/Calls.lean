/-
# Calls

One level of calls.  A call makes a fresh scope without a parent, puts it inside the scope that the
function was made in, binds the parameters there and executes the body in it.
-/
import TreeWalk.Evaluator.Builtins

namespace TreeWalk.Evaluator

variable (self : Evaluator)

/-- Bind parameters to arguments in a scope, from first to last; a missing argument is nil. -/
def bindAll (st : Store) (c : ScopeRef) : List String → List Value → Store
  | [], _ => st
  | p :: ps, args => bindAll (st.define c p (args.headD .nil)) c ps args.tail

/-- Bind the parameters of a function in a scope, if the policy accepts the number of arguments. -/
def bindArguments (policy : ArityPolicy) (f : Closure) (c : ScopeRef) (args : List Value) :
    Action Unit :=
  if policy = .strict ∧ f.arity ≠ args.length then
    Action.raise (.argumentCount f.text f.arity args.length)
  else
    Action.update fun st => bindAll st c f.literal.params args

/-- Execute a function with the scope `c` as its own. -/
def runClosure (policy : ArityPolicy) (f : Closure) (c : ScopeRef) (args : List Value) :
    Action Value := do
  Action.update fun st => st.setParent c f.env
  bindArguments policy f c args
  match ← self.execAll c f.literal.body with
  | .next => return .nil
  | .leave => Action.raise .strayBreak
  | .ret v => return v

/-- Execute what can be called with the scope `c` as its own. -/
def execute (σ : Setting) (f : Value) (c : ScopeRef) (args : List Value) : Action Value :=
  match f with
  | .function r => do
    let f ← Action.read fun st => st.closure r
    self.runClosure σ.config.arity f c args
  | .builtin r => do
    let b ← Action.read fun st => st.builtin r
    self.runNative σ.globals b.native args
  | v => refuse .notCallable v

/-- Call a value one call deeper, in a fresh scope. -/
def enter (σ : Setting) (f : Value) (args : List Value) : Action Value := do
  if σ.config.maxCallDepth.toNat ≤ (← Action.callDepth) then
    Action.raise (.callDepth σ.config.maxCallDepth)
  else
    Action.nested do
      let c ← Action.create fun st => st.newScope none
      self.execute σ f c args

end TreeWalk.Evaluator
