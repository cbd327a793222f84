/-
# Programs

A program is a tree: a list of statements over expressions.  Every expression and every statement
carries the span it was read from next to its kind; what a tree means does not depend on its spans
beyond the position that an error reports.
-/
import TreeWalk.Span

namespace TreeWalk

/-- The operators with one operand. -/
inductive UnaryOp where
  /-- Logical negation, `!x`. -/
  | not
  /-- The number itself, `+x`. -/
  | plus
  /-- The opposite number, `-x`. -/
  | neg
  /-- The bitwise complement, `^x`. -/
  | complement
deriving DecidableEq, Repr

/-- How an operator is written before its operand. -/
def UnaryOp.symbol : UnaryOp → String
  | .not => "!"
  | .plus => "+"
  | .neg => "-"
  | .complement => "^"

/-- The operators with two operands, the two that may skip their right operand included. -/
inductive BinaryOp where
  | or | and
  | eq | ne | lt | le | gt | ge
  | add | sub | mul | div | rem | pow
  | shl | shr | bitAnd | bitOr | bitXor
  /-- The bits of the left operand that the right one does not have, `a &^ b`. -/
  | bitClear
deriving DecidableEq, Repr

/-- The two ways to step a number in place. -/
inductive StepOp where
  /-- `++` -/
  | increment
  /-- `--` -/
  | decrement
deriving DecidableEq, Repr

mutual

/-- An expression with the span it was read from. -/
structure Expr where
  /-- Where the expression stood. -/
  span : Span
  /-- What the expression is. -/
  kind : ExprKind

/-- The forms of expressions. -/
inductive ExprKind where
  | nil
  | bool (b : Bool)
  | number (n : Int64)
  | string (s : String)
  /-- An object literal, its entries in source order. -/
  | object (entries : List (String × Expr))
  /-- An array literal. -/
  | array (items : List Expr)
  /-- A function literal. -/
  | function (literal : FunctionLit)
  /-- A name. -/
  | identifier (name : String)
  /-- A call. -/
  | call (callee : Expr) (args : List Expr)
  /-- The entry of `container` under `key`. -/
  | index (container key : Expr)
  /-- `new`, which is reserved and always refused. -/
  | new (typeName : String) (args : List Expr)
  | unary (op : UnaryOp) (operand : Expr)
  /-- A number stepped in place.  The new number is the result when the operator stands `before`
  its operand, the old one when it stands after it. -/
  | step (op : StepOp) (before : Bool) (operand : Expr)
  | binary (left : Expr) (op : BinaryOp) (right : Expr)
  | conditional (condition whenTrue whenFalse : Expr)
  | assign (target value : Expr)
  /-- An expression in parentheses. -/
  | paren (inner : Expr)

/-- A function literal, shared by all the functions made from it. -/
structure FunctionLit where
  /-- A named literal also binds its name in the scope it is evaluated in. -/
  name : Option String
  /-- The parameters, which may repeat a name. -/
  params : List String
  /-- The body. -/
  body : List Stmt

/-- A statement with the span it was read from. -/
structure Stmt where
  /-- Where the statement stood. -/
  span : Span
  /-- What the statement is. -/
  kind : StmtKind

/-- The forms of statements. -/
inductive StmtKind where
  | empty
  /-- A declaration of a name in the current scope; without a value the name is bound to nil. -/
  | declare (name : String) (value : Option Expr)
  /-- A function literal evaluated for the name it binds. -/
  | function (literal : FunctionLit)
  /-- The end of the enclosing function, with a value or with nil. -/
  | ret (value : Option Expr)
  /-- Statements in a scope of their own. -/
  | block (body : List Stmt)
  /-- An expression whose value is discarded. -/
  | expr (e : Expr)
  /-- A loop.  Every part of its header may be missing; without a condition only the body ends
  it. -/
  | loop (init : Option Stmt) (condition update : Option Expr) (body : List Stmt)
  /-- The end of the innermost loop or switch. -/
  | leave
  /-- A choice between two statements, the second of which may be missing. -/
  | branch (condition : Expr) (whenTrue : Stmt) (whenFalse : Option Stmt)
  /-- A choice by equality with a subject. -/
  | switch (subject : Expr) (cases : List Case)

/-- One case of a switch; without a test it is the default. -/
structure Case where
  /-- What the subject is compared with. -/
  test : Option Expr
  /-- What is done in this case. -/
  body : List Stmt

end

instance : Inhabited FunctionLit := ⟨⟨none, [], []⟩⟩

namespace Expr

/-- An expression that was made and not read. -/
def synthetic (kind : ExprKind) : Expr := ⟨.synthetic, kind⟩

end Expr

namespace Stmt

/-- A statement that was made and not read. -/
def synthetic (kind : StmtKind) : Stmt := ⟨.synthetic, kind⟩

/-- An expression as a statement, with the span of the expression. -/
def ofExpr (e : Expr) : Stmt := ⟨e.span, .expr e⟩

end Stmt

end TreeWalk
