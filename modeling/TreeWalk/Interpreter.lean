/-
# Interpreters

An interpreter is what a host holds: a setting with the counters of its past evaluations.  Several
interpreters may work on one store; the values and scopes of one are good for every other.
-/
import TreeWalk.Evaluator.Level

namespace TreeWalk

/-- An interpreter between two evaluations. -/
structure Interpreter extends Setting where
  /-- The number of calls that are being made, which is zero between evaluations. -/
  depth : Nat := 0
  /-- The number of steps taken so far, of which hosts see the counter. -/
  steps : Nat := 0

namespace Interpreter

/-- The level of the evaluators of a host.  No evaluation lives to go through so many levels, and
what ends below this one ends here in the same way. -/
def hostLevel : Nat := 0x1000000000000000

/-- A new interpreter with globals of its own. -/
def create (config : Config) (st : Store) : Interpreter × Store :=
  let (globals, st) := st.newScope none
  ({ config, globals }, st)

/-- Bind a new builtin under its name in the globals. -/
def defineBuiltin (i : Interpreter) (st : Store) (b : Builtin) : Store :=
  let (r, st) := st.newBuiltin b
  st.define i.globals b.name (.builtin r)

/-- Do something with the evaluator of an interpreter. -/
def perform {α : Type} (i : Interpreter) (st : Store) (task : Evaluator → Action α) : Outcome α :=
  task (Evaluator.level i.toSetting hostLevel) { store := st, depth := i.depth, steps := i.steps }

/-- The interpreter after an evaluation that ended in the state `s`. -/
def after (i : Interpreter) (s : State) : Interpreter :=
  { i with depth := s.depth, steps := s.steps }

/-- The counter of the steps since the interpreter was made. -/
def counter (i : Interpreter) : UInt64 := .ofNat i.steps

/-- Run a program in the globals. -/
def run (i : Interpreter) (st : Store) (program : List Stmt) : Outcome Value :=
  i.perform st fun ev => ev.runFrom i.globals .nil program

/-- Evaluate an expression in a scope. -/
def eval (i : Interpreter) (st : Store) (e : Expr) (c : ScopeRef) : Outcome Value :=
  i.perform st fun ev => ev.expr e c

/-- Write a value to the target that an expression denotes. -/
def assign (i : Interpreter) (st : Store) (target : Expr) (v : Value) (c : ScopeRef) :
    Outcome Unit :=
  i.perform st fun ev => ev.assign target v c

/-- Execute a statement in a scope. -/
def exec (i : Interpreter) (st : Store) (s : Stmt) (c : ScopeRef) : Outcome Flow :=
  i.perform st fun ev => ev.stmt s c

/-- Execute statements in a scope. -/
def execAll (i : Interpreter) (st : Store) (body : List Stmt) (c : ScopeRef) : Outcome Flow :=
  i.perform st fun ev => ev.execAll c body

/-- Execute statements in a new scope inside a scope. -/
def execBlock (i : Interpreter) (st : Store) (body : List Stmt) (c : ScopeRef) : Outcome Flow :=
  i.perform st fun ev => ev.execBlock c body

/-- Call a value. -/
def call (i : Interpreter) (st : Store) (f : Value) (args : List Value) : Outcome Value :=
  i.perform st fun ev => ev.call f args

/-- Execute what can be called with a scope of the host as its own. -/
def execute (i : Interpreter) (st : Store) (f : Value) (c : ScopeRef) (args : List Value) :
    Outcome Value :=
  i.perform st fun ev => ev.execute i.toSetting f c args

/-- What a value stands for in a scope. -/
def resolve (i : Interpreter) (st : Store) (v : Value) (c : ScopeRef) : Outcome Value :=
  i.perform st fun _ => Evaluator.resolve c v

end Interpreter

end TreeWalk
