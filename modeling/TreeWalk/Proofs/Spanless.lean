/-
# Programs without spans

Two programs that differ in the spans of their nodes only are the same once all spans have been
taken away (`unspanStmts`), down into the bodies of functions.  To take the spans away keeps the form of
every expression and of every statement (`ExprKind.unspan_eq_map`, `StmtKind.unspan_eq_map`).
-/
import TreeWalk.Proofs.Recoding
import TreeWalk.Proofs.Trees

namespace TreeWalk

mutual

/-- The expression without spans. -/
def Expr.unspan : Expr → Expr
  | ⟨_, kind⟩ => ⟨.synthetic, kind.unspan⟩

/-- What an expression is, with parts without spans. -/
def ExprKind.unspan : ExprKind → ExprKind
  | .object entries => .object (unspanEntries entries)
  | .array items => .array (unspanExprs items)
  | .function literal => .function literal.unspan
  | .call callee args => .call callee.unspan (unspanExprs args)
  | .index container key => .index container.unspan key.unspan
  | .new typeName args => .new typeName (unspanExprs args)
  | .unary op operand => .unary op operand.unspan
  | .step op before operand => .step op before operand.unspan
  | .binary left op right => .binary left.unspan op right.unspan
  | .conditional condition whenTrue whenFalse =>
    .conditional condition.unspan whenTrue.unspan whenFalse.unspan
  | .assign target value => .assign target.unspan value.unspan
  | .paren inner => .paren inner.unspan
  | kind => kind

/-- The literal with a body without spans. -/
def FunctionLit.unspan : FunctionLit → FunctionLit
  | ⟨name, params, body⟩ => ⟨name, params, unspanStmts body⟩

/-- The statement without spans. -/
def Stmt.unspan : Stmt → Stmt
  | ⟨_, kind⟩ => ⟨.synthetic, kind.unspan⟩

/-- What a statement is, with parts without spans. -/
def StmtKind.unspan : StmtKind → StmtKind
  | .declare name value => .declare name (unspanOption value)
  | .function literal => .function literal.unspan
  | .ret value => .ret (unspanOption value)
  | .block body => .block (unspanStmts body)
  | .expr e => .expr e.unspan
  | .loop init condition update body =>
    .loop (unspanInit init) (unspanOption condition) (unspanOption update) (unspanStmts body)
  | .branch condition whenTrue whenFalse =>
    .branch condition.unspan whenTrue.unspan (unspanInit whenFalse)
  | .switch subject cases => .switch subject.unspan (unspanCases cases)
  | kind => kind

/-- The statements without spans. -/
def unspanStmts : List Stmt → List Stmt
  | [] => []
  | s :: rest => s.unspan :: unspanStmts rest

/-- The cases of a switch without spans. -/
def unspanCases : List Case → List Case
  | [] => []
  | ⟨test, body⟩ :: rest => ⟨unspanOption test, unspanStmts body⟩ :: unspanCases rest

/-- The expressions without spans. -/
def unspanExprs : List Expr → List Expr
  | [] => []
  | e :: es => e.unspan :: unspanExprs es

/-- The entries of an object literal without spans. -/
def unspanEntries : List (String × Expr) → List (String × Expr)
  | [] => []
  | (key, e) :: rest => (key, e.unspan) :: unspanEntries rest

/-- An expression that may be missing, without spans. -/
def unspanOption : Option Expr → Option Expr
  | none => none
  | some e => some e.unspan

/-- A statement that may be missing, without spans. -/
def unspanInit : Option Stmt → Option Stmt
  | none => none
  | some s => some s.unspan

end

/-- To take the spans away as a change of the bodies of functions. -/
def Recoding.unspan : Recoding where
  body := unspanStmts
  body_nil := rfl

/-! ### Lists and options -/

lemma unspanExprs_eq (es : List Expr) : unspanExprs es = es.map Expr.unspan := by
  induction es with
  | nil => rfl
  | cons e es ih => rw [unspanExprs, ih, List.map_cons]

lemma unspanEntries_eq (entries : List (String × Expr)) :
    unspanEntries entries = entries.map fun p => (p.1, p.2.unspan) := by
  induction entries with
  | nil => rfl
  | cons p rest ih => rw [unspanEntries, ih, List.map_cons]

lemma unspanStmts_eq (body : List Stmt) : unspanStmts body = body.map Stmt.unspan := by
  induction body with
  | nil => rfl
  | cons s rest ih => rw [unspanStmts, ih, List.map_cons]

lemma unspanOption_eq (e : Option Expr) : unspanOption e = e.map Expr.unspan := by
  cases e <;> rfl

lemma unspanInit_eq (s : Option Stmt) : unspanInit s = s.map Stmt.unspan := by
  cases s <;> rfl

lemma unspanCases_eq (cases : List Case) :
    unspanCases cases = cases.map fun k => k.map Expr.unspan unspanStmts := by
  induction cases with
  | nil => rfl
  | cons k rest ih =>
    obtain ⟨test, body⟩ := k
    rw [unspanCases, ih, List.map_cons, Case.map, unspanOption_eq]

/-! ### Forms -/

lemma ExprKind.unspan_eq_map (kind : ExprKind) :
    kind.unspan = kind.map Expr.unspan FunctionLit.unspan := by
  cases kind with
  | object entries => rw [unspan, map, unspanEntries_eq]
  | array items => rw [unspan, map, unspanExprs_eq]
  | call callee args => rw [unspan, map, unspanExprs_eq]
  | new typeName args => rw [unspan, map, unspanExprs_eq]
  | _ => rfl

lemma StmtKind.unspan_eq_map (kind : StmtKind) :
    kind.unspan = kind.map Expr.unspan Stmt.unspan unspanStmts FunctionLit.unspan := by
  cases kind with
  | declare name value => rw [unspan, map, unspanOption_eq]
  | ret value => rw [unspan, map, unspanOption_eq]
  | loop init condition update body =>
    rw [unspan, map, unspanInit_eq, unspanOption_eq, unspanOption_eq]
  | branch condition whenTrue whenFalse => rw [unspan, map, unspanInit_eq]
  | switch subject cases => rw [unspan, map, unspanCases_eq]
  | _ => rfl

end TreeWalk
