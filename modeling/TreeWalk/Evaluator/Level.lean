/-
# Levels

An evaluator of level `n + 1` evaluates one node and leaves the rest to the evaluator of level `n`;
the evaluator of level zero never ends.  So the level of an evaluator bounds the depth of its
recursion, and also the number of rounds of each of its loops.
-/
import TreeWalk.Evaluator.Calls

namespace TreeWalk.Evaluator

/-- Evaluate an expression, leaving what is below it to `self`. -/
def evalExpr (self : Evaluator) (σ : Setting) (e : Expr) (c : ScopeRef) : Action Value :=
  Action.blame e.span do
    Action.tick σ.config.stepLimit
    self.evalKind c e.kind

/-- Write to a target, leaving what is below it to `self`. -/
def assignExpr (self : Evaluator) (target : Expr) (v : Value) (c : ScopeRef) : Action Unit :=
  Action.blame target.span (self.assignTarget c target v)

/-- Execute a statement, leaving what is below it to `self`. -/
def execStmt (self : Evaluator) (σ : Setting) (s : Stmt) (c : ScopeRef) : Action Flow :=
  Action.blame s.span do
    Action.tick σ.config.stepLimit
    self.execKind c s.kind

/-- The evaluator one level above `self`. -/
def above (self : Evaluator) (σ : Setting) : Evaluator where
  rounds := self.rounds + 1
  tick := Action.tick σ.config.stepLimit
  expr := self.evalExpr σ
  assign := self.assignExpr
  stmt := self.execStmt σ
  invoke := self.enter σ

/-- The evaluator of level `n`.  Its parts ask for the level below when they are used, not before,
so an evaluator of any level costs nothing to make. -/
def level (σ : Setting) : Nat → Evaluator
  | 0 => stuck
  | n + 1 => {
      rounds := n + 1
      tick := Action.tick σ.config.stepLimit
      expr := fun e c s => (level σ n).evalExpr σ e c s
      assign := fun target v c s => (level σ n).assignExpr target v c s
      stmt := fun t c s => (level σ n).execStmt σ t c s
      invoke := fun f args s => (level σ n).enter σ f args s }

theorem rounds_level (σ : Setting) (n : Nat) : (level σ n).rounds = n := by
  cases n <;> rfl

theorem level_zero (σ : Setting) : level σ 0 = stuck := rfl

/-- Each level is one level above the one before it. -/
theorem level_succ (σ : Setting) (n : Nat) : level σ (n + 1) = (level σ n).above σ := by
  rw [level, above, rounds_level]

end TreeWalk.Evaluator
