/-
# Evaluators

An evaluator says how expressions are evaluated, how a value is written to a target, how
statements are executed and how a value is called.  The modules below this one define the four
activities for one level of a tree in terms of an evaluator for what lies below that level, and
tie the knot by recursion on the number of levels.
-/
import TreeWalk.Action

namespace TreeWalk

/-- What stays the same during an evaluation: the configuration and the outermost scope. -/
structure Setting where
  /-- The limits and policies. -/
  config : Config
  /-- The outermost scope, where programs run and builtins look for names. -/
  globals : ScopeRef

/-- How a list of statements goes on after one of them. -/
inductive Flow where
  /-- With the next statement. -/
  | next
  /-- After the innermost loop or switch. -/
  | leave
  /-- After the call of the enclosing function, which has the value `v`. -/
  | ret (v : Value)
deriving DecidableEq, Repr

/-- How trees are evaluated. -/
structure Evaluator where
  /-- The largest number of rounds of one loop. -/
  rounds : Nat
  /-- Take one step, which fails when the budget is spent. -/
  tick : Action Unit
  /-- Evaluate an expression in a scope. -/
  expr : Expr → ScopeRef → Action Value
  /-- Write a value to the target that an expression denotes in a scope. -/
  assign : Expr → Value → ScopeRef → Action Unit
  /-- Execute a statement in a scope. -/
  stmt : Stmt → ScopeRef → Action Flow
  /-- Call a value with arguments. -/
  invoke : Value → List Value → Action Value

namespace Evaluator

/-- The evaluator that never comes to an end. -/
def stuck : Evaluator where
  rounds := 0
  tick := Action.unfinished
  expr _ _ := Action.unfinished
  assign _ _ _ := Action.unfinished
  stmt _ _ := Action.unfinished
  invoke _ _ := Action.unfinished

end Evaluator

end TreeWalk
