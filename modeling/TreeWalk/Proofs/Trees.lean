/-
# Parts of trees

The parts of an expression or statement are the expressions and statements that it is put together
from; those of a function literal are the statements of its body.  A property holds everywhere in a
tree (`Tree.Everywhere`) if it holds of the tree, of its parts, of their parts, and so on, down into
the bodies of all functions that are written in it.  Evaluation comes to the parts of an expression
or statement without a call, and to the bodies of functions by calls only; the parts are smaller, so
that one may argue by induction on them (`Expr.partsInduction`, `Stmt.partsInduction`).
-/
import Mathlib.Logic.Relation
import Mathlib.Tactic.Lemma
import TreeWalk.Program

namespace TreeWalk

/-- The expressions that an expression is put together from. -/
def ExprKind.parts : ExprKind → List Expr
  | .nil | .bool _ | .number _ | .string _ | .function _ | .identifier _ => []
  | .object entries => entries.map (·.2)
  | .array items => items
  | .call callee args => callee :: args
  | .index container key => [container, key]
  | .new _ args => args
  | .unary _ operand => [operand]
  | .step _ _ operand => [operand]
  | .binary left _ right => [left, right]
  | .conditional condition whenTrue whenFalse => [condition, whenTrue, whenFalse]
  | .assign target value => [target, value]
  | .paren inner => [inner]

/-- The expressions that a statement is put together from. -/
def StmtKind.exprs : StmtKind → List Expr
  | .empty | .function _ | .block _ | .leave => []
  | .declare _ value | .ret value => value.toList
  | .expr e => [e]
  | .loop _ condition update _ => condition.toList ++ update.toList
  | .branch condition _ _ => [condition]
  | .switch subject cases => subject :: cases.filterMap (·.test)

/-- The statements that a statement is put together from, those of its bodies among them. -/
def StmtKind.stmts : StmtKind → List Stmt
  | .empty | .function _ | .leave | .declare _ _ | .ret _ | .expr _ => []
  | .block body => body
  | .loop init _ _ body => init.toList ++ body
  | .branch _ whenTrue whenFalse => whenTrue :: whenFalse.toList
  | .switch _ cases => cases.flatMap (·.body)

/-- The expressions that are evaluated in the scope of a statement itself. -/
def StmtKind.ownExprs (kind : StmtKind) : List Expr :=
  match kind with
  | .loop _ _ _ _ => []
  | _ => kind.exprs

/-- The statements that are executed in the scope of a statement itself. -/
def StmtKind.ownStmts : StmtKind → List Stmt
  | .branch _ whenTrue whenFalse => whenTrue :: whenFalse.toList
  | _ => []

/-- The lists of statements that are executed in scopes of their own. -/
def StmtKind.bodies : StmtKind → List (List Stmt)
  | .block body | .loop _ _ _ body => [body]
  | .switch _ cases => cases.map (·.body)
  | _ => []

lemma StmtKind.mem_stmts_of_mem_bodies {kind : StmtKind} {body : List Stmt}
    (hbody : body ∈ kind.bodies) {s : Stmt} (hs : s ∈ body) : s ∈ kind.stmts := by
  cases kind with
  | block _ =>
    obtain rfl := List.mem_singleton.mp hbody
    exact hs
  | loop init _ _ _ =>
    obtain rfl := List.mem_singleton.mp hbody
    exact List.mem_append_right _ hs
  | switch _ cases =>
    obtain ⟨k, hk, rfl⟩ := List.mem_map.mp hbody
    exact List.mem_flatMap.mpr ⟨k, hk, hs⟩
  | _ => cases hbody

/-- A case with other parts. -/
def Case.map (k : Case) (f : Expr → Expr) (g : List Stmt → List Stmt) : Case :=
  ⟨k.test.map f, g k.body⟩

lemma Case.map_id (k : Case) : (k.map (fun e => e) fun b => b) = k := by
  cases k
  rw [Case.map, Option.map_id']

/-- An expression of the same form with other parts. -/
def ExprKind.map (f : Expr → Expr) (l : FunctionLit → FunctionLit) : ExprKind → ExprKind
  | .nil => .nil
  | .bool b => .bool b
  | .number n => .number n
  | .string s => .string s
  | .object entries => .object (entries.map fun p => (p.1, f p.2))
  | .array items => .array (items.map f)
  | .function literal => .function (l literal)
  | .identifier name => .identifier name
  | .call callee args => .call (f callee) (args.map f)
  | .index container key => .index (f container) (f key)
  | .new typeName args => .new typeName (args.map f)
  | .unary op operand => .unary op (f operand)
  | .step op before operand => .step op before (f operand)
  | .binary left op right => .binary (f left) op (f right)
  | .conditional condition whenTrue whenFalse =>
    .conditional (f condition) (f whenTrue) (f whenFalse)
  | .assign target value => .assign (f target) (f value)
  | .paren inner => .paren (f inner)

lemma ExprKind.map_id (kind : ExprKind) : kind.map (fun e => e) (fun l => l) = kind := by
  cases kind with
  | object entries => exact congrArg ExprKind.object (List.map_id' entries)
  | _ => simp only [map, List.map_id']

/-- A statement of the same form with other parts, those of its bodies among them. -/
def StmtKind.map (f : Expr → Expr) (g : Stmt → Stmt) (b : List Stmt → List Stmt)
    (l : FunctionLit → FunctionLit) : StmtKind → StmtKind
  | .empty => .empty
  | .declare name value => .declare name (value.map f)
  | .function literal => .function (l literal)
  | .ret value => .ret (value.map f)
  | .block body => .block (b body)
  | .expr e => .expr (f e)
  | .loop init condition update body =>
    .loop (init.map g) (condition.map f) (update.map f) (b body)
  | .leave => .leave
  | .branch condition whenTrue whenFalse => .branch (f condition) (g whenTrue) (whenFalse.map g)
  | .switch subject cases => .switch (f subject) (cases.map fun k => k.map f b)

lemma StmtKind.map_id (kind : StmtKind) :
    kind.map (fun e => e) (fun s => s) (fun body => body) (fun l => l) = kind := by
  cases kind <;> simp only [map, Option.map_id', Case.map_id, List.map_id']

/-- The expression is a call. -/
def ExprKind.isCall : ExprKind → Bool
  | .call _ _ => true
  | _ => false

/-- The statement is a loop. -/
def StmtKind.isLoop : StmtKind → Bool
  | .loop _ _ _ _ => true
  | _ => false

/-! ### Induction on parts -/

lemma ExprKind.sizeOf_lt_of_mem_parts {kind : ExprKind} {e : Expr} (h : e ∈ kind.parts) :
    sizeOf e < sizeOf kind := by
  cases kind with
  | object entries =>
    obtain ⟨⟨key, e⟩, hp, rfl⟩ := List.mem_map.mp h
    have hlt := List.sizeOf_lt_of_mem hp
    simp only [Prod.mk.sizeOf_spec, object.sizeOf_spec] at hlt ⊢
    omega
  | array items =>
    change e ∈ items at h
    have hlt := List.sizeOf_lt_of_mem h
    simp only [array.sizeOf_spec]
    omega
  | call callee args =>
    simp only [call.sizeOf_spec]
    rcases List.mem_cons.mp h with rfl | h
    · omega
    · have hlt := List.sizeOf_lt_of_mem h
      omega
  | new typeName args =>
    change e ∈ args at h
    have hlt := List.sizeOf_lt_of_mem h
    simp only [new.sizeOf_spec]
    omega
  | index container key =>
    simp only [parts, List.mem_cons, List.not_mem_nil, or_false] at h
    rcases h with rfl | rfl <;> simp only [index.sizeOf_spec] <;> omega
  | binary left op right =>
    simp only [parts, List.mem_cons, List.not_mem_nil, or_false] at h
    rcases h with rfl | rfl <;> simp only [binary.sizeOf_spec] <;> omega
  | conditional condition whenTrue whenFalse =>
    simp only [parts, List.mem_cons, List.not_mem_nil, or_false] at h
    rcases h with rfl | rfl | rfl <;> simp only [conditional.sizeOf_spec] <;> omega
  | assign target value =>
    simp only [parts, List.mem_cons, List.not_mem_nil, or_false] at h
    rcases h with rfl | rfl <;> simp only [assign.sizeOf_spec] <;> omega
  | unary op operand =>
    obtain rfl := List.mem_singleton.mp h
    simp only [unary.sizeOf_spec]
    omega
  | step op before operand =>
    obtain rfl := List.mem_singleton.mp h
    simp only [step.sizeOf_spec]
    omega
  | paren inner =>
    obtain rfl := List.mem_singleton.mp h
    simp only [paren.sizeOf_spec]
    omega
  | _ => cases h

lemma sizeOf_lt_of_mem_toList {s : Stmt} {o : Option Stmt} (h : s ∈ o.toList) :
    sizeOf s < sizeOf o := by
  obtain rfl := Option.mem_toList.mp h
  simp only [Option.some.sizeOf_spec]
  omega

lemma StmtKind.sizeOf_lt_of_mem_stmts {kind : StmtKind} {s : Stmt} (h : s ∈ kind.stmts) :
    sizeOf s < sizeOf kind := by
  cases kind with
  | block body =>
    change s ∈ body at h
    have hlt := List.sizeOf_lt_of_mem h
    simp only [block.sizeOf_spec]
    omega
  | loop init condition update body =>
    simp only [loop.sizeOf_spec]
    rcases List.mem_append.mp h with h | h
    · have hlt := sizeOf_lt_of_mem_toList h
      omega
    · have hlt := List.sizeOf_lt_of_mem h
      omega
  | branch condition whenTrue whenFalse =>
    simp only [branch.sizeOf_spec]
    rcases List.mem_cons.mp h with rfl | h
    · omega
    · have hlt := sizeOf_lt_of_mem_toList h
      omega
  | switch subject cases =>
    obtain ⟨⟨test, body⟩, hk, hs⟩ := List.mem_flatMap.mp h
    have hlt := List.sizeOf_lt_of_mem hk
    change s ∈ body at hs
    have hlt' := List.sizeOf_lt_of_mem hs
    simp only [Case.mk.sizeOf_spec, switch.sizeOf_spec] at hlt ⊢
    omega
  | _ => cases h

/-- What holds of an expression if it holds of its parts holds of all expressions. -/
theorem Expr.partsInduction {P : Expr → Prop}
    (h : ∀ e : Expr, (∀ e' ∈ e.kind.parts, P e') → P e) (e : Expr) : P e :=
  h e fun e' _ => partsInduction h e'
termination_by sizeOf e
decreasing_by
  rename_i he'
  have hlt := ExprKind.sizeOf_lt_of_mem_parts he'
  cases e
  simp only [Expr.mk.sizeOf_spec] at hlt ⊢
  omega

/-- What holds of a statement if it holds of the statements in it holds of all statements. -/
theorem Stmt.partsInduction {P : Stmt → Prop}
    (h : ∀ s : Stmt, (∀ s' ∈ s.kind.stmts, P s') → P s) (s : Stmt) : P s :=
  h s fun s' _ => partsInduction h s'
termination_by sizeOf s
decreasing_by
  rename_i hs'
  have hlt := StmtKind.sizeOf_lt_of_mem_stmts hs'
  cases s
  simp only [Stmt.mk.sizeOf_spec] at hlt ⊢
  omega

/-! ### Trees -/

/-- A part of a program. -/
inductive Tree where
  | expr (e : Expr)
  | stmt (s : Stmt)
  | literal (l : FunctionLit)

namespace Tree

/-- The function literal that an expression or a statement is. -/
def function? : Tree → Option FunctionLit
  | .expr ⟨_, .function l⟩ | .stmt ⟨_, .function l⟩ => some l
  | _ => none

/-- The place of an expression or a statement. -/
def span? : Tree → Option Span
  | .expr e => some e.span
  | .stmt s => some s.span
  | .literal _ => none

/-- The trees that a tree is put together from. -/
def parts (t : Tree) : List Tree :=
  t.function?.toList.map .literal ++
    match t with
    | .expr e => e.kind.parts.map .expr
    | .stmt s => s.kind.exprs.map .expr ++ s.kind.stmts.map .stmt
    | .literal l => l.body.map .stmt

/-- The lists of statements that a tree is put together from. -/
def bodies : Tree → List (List Stmt)
  | .stmt ⟨_, .block body⟩ | .stmt ⟨_, .loop _ _ _ body⟩ => [body]
  | .stmt ⟨_, .switch _ cases⟩ => cases.map (·.body)
  | .literal l => [l.body]
  | _ => []

/-- A program, as the body of a function without parameters. -/
def program (body : List Stmt) : Tree := .literal ⟨none, [], body⟩

/-- The parts of a tree that are evaluated in the scope that it is evaluated in itself. -/
def ownParts : Tree → List Tree
  | .expr e => e.kind.parts.map .expr
  | .stmt s => s.kind.ownExprs.map .expr ++ s.kind.ownStmts.map .stmt
  | .literal _ => []

/-- The name that a tree binds in the scope that it is evaluated in, apart from its parts. -/
def binds? : Tree → Option String
  | .expr ⟨_, .function l⟩ | .stmt ⟨_, .function l⟩ => l.name
  | .stmt ⟨_, .declare name _⟩ => some name
  | _ => none

/-- A declaration, a function statement or a named function literal for the name stands in the tree,
outside of the bodies of functions and outside of blocks, loops and the cases of switches. -/
inductive Declares : Tree → String → Prop
  | here {t : Tree} {name : String} (h : t.binds? = some name) : Declares t name
  | part {t u : Tree} {name : String} (hu : u ∈ t.ownParts) (h : Declares u name) :
      Declares t name

/-- The second tree is the first one, or one of its parts, or a part of a part, and so on. -/
def Contains (t u : Tree) : Prop := Relation.ReflTransGen (fun t u => u ∈ t.parts) t u

/-- `P` holds of the tree and of all that it is put together from. -/
def Everywhere (P : Tree → Prop) (t : Tree) : Prop := ∀ u, t.Contains u → P u

namespace Everywhere

variable {P : Tree → Prop} {t u : Tree}

lemma here (h : t.Everywhere P) : P t := h t .refl

lemma part (h : t.Everywhere P) (hu : u ∈ t.parts) : u.Everywhere P :=
  fun v hv => h v (.head hu hv)

lemma of_parts (h : P t) (hparts : ∀ u ∈ t.parts, u.Everywhere P) : t.Everywhere P := by
  intro u hu
  rcases Relation.ReflTransGen.cases_head hu with rfl | ⟨v, hv, hvu⟩
  · exact h
  · exact hparts v hv u hvu

lemma function {l : FunctionLit} (h : t.Everywhere P) (hl : t.function? = some l) :
    (Tree.literal l).Everywhere P :=
  h.part (by simp [parts, hl])

lemma expr_part {e e' : Expr} (h : (Tree.expr e).Everywhere P) (he : e' ∈ e.kind.parts) :
    (Tree.expr e').Everywhere P :=
  h.part (by simp [parts, he])

lemma stmt_expr {s : Stmt} {e : Expr} (h : (Tree.stmt s).Everywhere P) (he : e ∈ s.kind.exprs) :
    (Tree.expr e).Everywhere P :=
  h.part (by simp [parts, he])

lemma stmt_stmt {s s' : Stmt} (h : (Tree.stmt s).Everywhere P) (hs : s' ∈ s.kind.stmts) :
    (Tree.stmt s').Everywhere P :=
  h.part (by simp [parts, hs])

lemma body {l : FunctionLit} {s : Stmt} (h : (Tree.literal l).Everywhere P) (hs : s ∈ l.body) :
    (Tree.stmt s).Everywhere P :=
  h.part (by simp [parts, hs])

end Everywhere

/-- Look whether `p` holds everywhere in a tree whose parts are nested less than so many times. -/
def check (p : Tree → Bool) : Nat → Tree → Bool
  | 0, _ => false
  | n + 1, t => p t && t.parts.all (check p n)

lemma everywhere_of_check {p : Tree → Bool} {n : Nat} {t : Tree} (h : check p n t = true) :
    t.Everywhere fun u => p u = true := by
  induction n generalizing t with
  | zero => cases h
  | succ n ih =>
    obtain ⟨ht, hparts⟩ := Bool.and_eq_true_iff.mp h
    exact .of_parts ht fun u hu => ih (List.all_eq_true.mp hparts u hu)

end Tree

end TreeWalk
