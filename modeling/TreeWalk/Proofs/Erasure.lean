/-
# A clean-up of programs

Some of what is written in a program makes no difference to what it does: parentheses, empty
statements in lists of statements, and what stands in a list after a `return` or a `break`.  The
clean-up takes all this away (`eraseStmts`), down into the bodies of functions.  Parentheses with a
span of their own would stay, since an error may be blamed on them; where there are none, the
clean-up leaves nothing of all this (`erase_clean`).
-/
import Mathlib.Data.Nat.Init
import TreeWalk.Proofs.Recoding
import TreeWalk.Proofs.Trees

namespace TreeWalk

mutual

/-- The expression without parentheses. -/
def Expr.erase : Expr → Expr
  | ⟨span, .paren inner⟩ => if span.isSynthetic then inner.erase else ⟨span, .paren inner.erase⟩
  | ⟨span, kind⟩ => ⟨span, kind.erase⟩

/-- What an expression is, with its parts cleaned up. -/
def ExprKind.erase : ExprKind → ExprKind
  | .object entries => .object (eraseEntries entries)
  | .array items => .array (eraseExprs items)
  | .function literal => .function literal.erase
  | .call callee args => .call callee.erase (eraseExprs args)
  | .index container key => .index container.erase key.erase
  | .new typeName args => .new typeName (eraseExprs args)
  | .unary op operand => .unary op operand.erase
  | .step op before operand => .step op before operand.erase
  | .binary left op right => .binary left.erase op right.erase
  | .conditional condition whenTrue whenFalse =>
    .conditional condition.erase whenTrue.erase whenFalse.erase
  | .assign target value => .assign target.erase value.erase
  | .paren inner => .paren inner.erase
  | kind => kind

/-- The literal with its body cleaned up. -/
def FunctionLit.erase : FunctionLit → FunctionLit
  | ⟨name, params, body⟩ => ⟨name, params, eraseStmts body⟩

/-- The statement with its parts cleaned up. -/
def Stmt.erase : Stmt → Stmt
  | ⟨span, kind⟩ => ⟨span, kind.erase⟩

/-- What a statement is, with its parts cleaned up.  An empty statement that is not an item of a
list stays. -/
def StmtKind.erase : StmtKind → StmtKind
  | .declare name value => .declare name (eraseOption value)
  | .function literal => .function literal.erase
  | .ret value => .ret (eraseOption value)
  | .block body => .block (eraseStmts body)
  | .expr e => .expr e.erase
  | .loop init condition update body =>
    .loop (eraseInit init) (eraseOption condition) (eraseOption update) (eraseStmts body)
  | .branch condition whenTrue whenFalse =>
    .branch condition.erase whenTrue.erase (eraseInit whenFalse)
  | .switch subject cases => .switch subject.erase (eraseCases cases)
  | kind => kind

/-- The statements without the empty ones and without those after a `return` or a `break`. -/
def eraseStmts : List Stmt → List Stmt
  | [] => []
  | ⟨_, .empty⟩ :: rest => eraseStmts rest
  | ⟨span, .ret value⟩ :: _ => [⟨span, .ret (eraseOption value)⟩]
  | ⟨span, .leave⟩ :: _ => [⟨span, .leave⟩]
  | s :: rest => s.erase :: eraseStmts rest

/-- The cases of a switch, cleaned up. -/
def eraseCases : List Case → List Case
  | [] => []
  | ⟨test, body⟩ :: rest => ⟨eraseOption test, eraseStmts body⟩ :: eraseCases rest

/-- A list of expressions, cleaned up. -/
def eraseExprs : List Expr → List Expr
  | [] => []
  | e :: es => e.erase :: eraseExprs es

/-- The entries of an object literal, cleaned up. -/
def eraseEntries : List (String × Expr) → List (String × Expr)
  | [] => []
  | (key, e) :: rest => (key, e.erase) :: eraseEntries rest

/-- An expression that may be missing, cleaned up. -/
def eraseOption : Option Expr → Option Expr
  | none => none
  | some e => some e.erase

/-- A statement that may be missing, cleaned up. -/
def eraseInit : Option Stmt → Option Stmt
  | none => none
  | some s => some s.erase

end

/-! ### Lists and options -/

lemma eraseExprs_eq (es : List Expr) : eraseExprs es = es.map Expr.erase := by
  induction es with
  | nil => rfl
  | cons e es ih => rw [eraseExprs, ih, List.map_cons]

lemma eraseEntries_eq (entries : List (String × Expr)) :
    eraseEntries entries = entries.map fun p => (p.1, p.2.erase) := by
  induction entries with
  | nil => rfl
  | cons p rest ih => rw [eraseEntries, ih, List.map_cons]

lemma eraseOption_eq (e : Option Expr) : eraseOption e = e.map Expr.erase := by
  cases e <;> rfl

lemma eraseInit_eq (s : Option Stmt) : eraseInit s = s.map Stmt.erase := by
  cases s <;> rfl

lemma eraseCases_eq (cases : List Case) :
    eraseCases cases = cases.map fun k => k.map Expr.erase eraseStmts := by
  induction cases with
  | nil => rfl
  | cons k rest ih =>
    obtain ⟨test, body⟩ := k
    rw [eraseCases, ih, List.map_cons, Case.map, eraseOption_eq]

/-- A list of statements is not gone on with after a statement of that kind. -/
def StmtKind.stops : StmtKind → Bool
  | .ret _ | .leave => true
  | _ => false

lemma StmtKind.stops_erase (kind : StmtKind) : kind.erase.stops = kind.stops := by
  cases kind <;> rfl

lemma StmtKind.erase_ne_empty {kind : StmtKind} (h : kind ≠ .empty) : kind.erase ≠ .empty := by
  cases kind with
  | empty => exact absurd rfl h
  | _ => exact nofun

/-- The first statement of a list is dropped, or it is the last one that is kept, or it is kept with
what is kept of the others. -/
lemma eraseStmts_cons (s : Stmt) (rest : List Stmt) :
    (s.kind = .empty ∧ eraseStmts (s :: rest) = eraseStmts rest) ∨
    (s.kind.stops = true ∧ eraseStmts (s :: rest) = [s.erase]) ∨
    (s.kind ≠ .empty ∧ s.kind.stops = false ∧
      eraseStmts (s :: rest) = s.erase :: eraseStmts rest) := by
  obtain ⟨span, kind⟩ := s
  cases kind with
  | empty => exact .inl ⟨rfl, rfl⟩
  | ret value => exact .inr (.inl ⟨rfl, rfl⟩)
  | leave => exact .inr (.inl ⟨rfl, rfl⟩)
  | _ => exact .inr (.inr ⟨StmtKind.noConfusion, rfl, rfl⟩)

/-- What is kept of a list has no empty statements, and none that stops it but the last one. -/
lemma eraseStmts_clean (body : List Stmt) :
    (∀ s ∈ eraseStmts body, s.kind ≠ .empty) ∧
    ∀ s ∈ (eraseStmts body).dropLast, s.kind.stops = false := by
  have hkind : ∀ s : Stmt, s.erase.kind = s.kind.erase := fun s => by cases s; rfl
  induction body with
  | nil => exact ⟨nofun, nofun⟩
  | cons s rest ih =>
    rcases eraseStmts_cons s rest with ⟨-, herase⟩ | ⟨hstops, herase⟩ | ⟨hempty, hstops, herase⟩
    · rw [herase]
      exact ih
    · rw [herase]
      refine ⟨fun t ht => ?_, nofun⟩
      obtain rfl := List.mem_singleton.mp ht
      rw [hkind]
      exact StmtKind.erase_ne_empty fun h => by rw [h] at hstops; cases hstops
    · rw [herase]
      refine ⟨fun t ht => ?_, fun t ht => ?_⟩
      · rcases List.mem_cons.mp ht with rfl | ht
        · exact hkind s ▸ StmtKind.erase_ne_empty hempty
        · exact ih.1 t ht
      · cases hrest : eraseStmts rest with
        | nil =>
          rw [hrest] at ht
          cases ht
        | cons s' rest' =>
          rw [hrest] at ht ih
          rcases List.mem_cons.mp ht with rfl | ht
          · rw [hkind, StmtKind.stops_erase, hstops]
          · exact ih.2 t ht

/-- The clean-up as a change of the bodies of functions. -/
def Recoding.erase : Recoding where
  body := eraseStmts
  body_nil := rfl

/-! ### Parentheses -/

lemma Expr.erase_paren {span : Span} {inner : Expr} (h : span.isSynthetic = true) :
    Expr.erase ⟨span, .paren inner⟩ = inner.erase := by
  rw [Expr.erase, if_pos h]

lemma Expr.erase_mk {span : Span} {kind : ExprKind}
    (h : ∀ inner, kind = .paren inner → span.isSynthetic = false) :
    Expr.erase ⟨span, kind⟩ = ⟨span, kind.erase⟩ := by
  cases kind with
  | paren inner =>
    rw [Expr.erase, if_neg (by simp [h inner rfl])]
    rfl
  | _ => rfl

/-- An expression is in parentheses that are taken away, or it is kept with its parts cleaned up. -/
@[elab_as_elim]
lemma Expr.parenInduction {P : Expr → Prop}
    (paren : ∀ span inner, span.isSynthetic = true → P inner → P ⟨span, .paren inner⟩)
    (kept : ∀ span kind, (∀ inner, kind = .paren inner → span.isSynthetic = false) →
      P ⟨span, kind⟩) (e : Expr) : P e := by
  induction hsize : sizeOf e using Nat.strong_induction_on generalizing e with
  | _ size ih =>
    obtain ⟨span, kind⟩ := e
    by_cases hparen : ∃ inner, kind = .paren inner ∧ span.isSynthetic = true
    · obtain ⟨inner, rfl, hspan⟩ := hparen
      have hsmaller : sizeOf inner < size := by
        simp at hsize
        omega
      exact paren span inner hspan (ih _ hsmaller inner rfl)
    · exact kept span kind fun inner hk =>
        Bool.eq_false_iff.mpr fun hspan => hparen ⟨inner, hk, hspan⟩

lemma ExprKind.parts_erase (kind : ExprKind) : kind.erase.parts = kind.parts.map Expr.erase := by
  cases kind with
  | object entries =>
    show (eraseEntries entries).map (·.2) = (entries.map (·.2)).map Expr.erase
    rw [eraseEntries_eq, List.map_map, List.map_map]
    rfl
  | array items => exact eraseExprs_eq items
  | call callee args => exact congrArg (callee.erase :: ·) (eraseExprs_eq args)
  | new typeName args => exact eraseExprs_eq args
  | _ => rfl

lemma StmtKind.exprs_erase (kind : StmtKind) : kind.erase.exprs = kind.exprs.map Expr.erase := by
  cases kind with
  | declare name value => cases value <;> rfl
  | ret value => cases value <;> rfl
  | loop init condition update body => cases condition <;> cases update <;> rfl
  | switch subject cases =>
    show subject.erase :: (eraseCases cases).filterMap (·.test) = _
    rw [eraseCases_eq, List.filterMap_map, exprs, List.map_cons, List.map_filterMap]
    rfl
  | _ => rfl

lemma mem_eraseStmts {body : List Stmt} {s' : Stmt} (h : s' ∈ eraseStmts body) :
    ∃ s ∈ body, s' = s.erase := by
  induction body with
  | nil => cases h
  | cons s rest ih =>
    have hrest : s' ∈ eraseStmts rest → ∃ t ∈ s :: rest, s' = t.erase := fun h => by
      obtain ⟨t, ht, heq⟩ := ih h
      exact ⟨t, List.mem_cons_of_mem _ ht, heq⟩
    rcases eraseStmts_cons s rest with ⟨-, herase⟩ | ⟨-, herase⟩ | ⟨-, -, herase⟩ <;> rw [herase] at h
    · exact hrest h
    · exact ⟨s, List.mem_cons_self, List.mem_singleton.mp h⟩
    · rcases List.mem_cons.mp h with rfl | h
      · exact ⟨s, List.mem_cons_self, rfl⟩
      · exact hrest h

lemma StmtKind.mem_stmts_erase {kind : StmtKind} {s' : Stmt} (h : s' ∈ kind.erase.stmts) :
    ∃ s ∈ kind.stmts, s' = s.erase := by
  have hinit : ∀ {init : Option Stmt}, s' ∈ (eraseInit init).toList →
      ∃ s ∈ init.toList, s' = s.erase := by
    intro init h
    cases init with
    | none => cases h
    | some s => exact ⟨s, List.mem_cons_self, List.mem_singleton.mp h⟩
  cases kind with
  | block body => exact mem_eraseStmts h
  | loop init condition update body =>
    rcases List.mem_append.mp h with h | h
    · obtain ⟨s, hs, heq⟩ := hinit h
      exact ⟨s, List.mem_append_left _ hs, heq⟩
    · obtain ⟨s, hs, heq⟩ := mem_eraseStmts h
      exact ⟨s, List.mem_append_right _ hs, heq⟩
  | branch condition whenTrue whenFalse =>
    rcases List.mem_cons.mp h with rfl | h
    · exact ⟨whenTrue, List.mem_cons_self, rfl⟩
    · obtain ⟨s, hs, heq⟩ := hinit h
      exact ⟨s, List.mem_cons_of_mem _ hs, heq⟩
  | switch subject cases =>
    change s' ∈ (eraseCases cases).flatMap (·.body) at h
    rw [eraseCases_eq, List.flatMap_map] at h
    obtain ⟨k, hk, h⟩ := List.mem_flatMap.mp h
    obtain ⟨s, hs, heq⟩ := mem_eraseStmts h
    exact ⟨s, List.mem_flatMap.mpr ⟨k, hk, hs⟩, heq⟩
  | _ => cases h

namespace Tree

/-- The tree cleaned up. -/
def erase : Tree → Tree
  | .expr e => .expr e.erase
  | .stmt s => .stmt s.erase
  | .literal l => .literal l.erase

/-- What an expression is cleaned up to is made from what stands in the parentheses around it. -/
lemma exists_unwrapped (e : Expr) : ∃ e' : Expr,
    (Tree.expr e).Contains (.expr e') ∧
    e.erase = ⟨e'.span, e'.kind.erase⟩ ∧
    ∀ inner, e'.kind = .paren inner → e'.span.isSynthetic = false := by
  induction e using Expr.parenInduction with
  | paren span inner hspan ih =>
    obtain ⟨e', hcontains, herase, hkept⟩ := ih
    refine ⟨e', .head ?_ hcontains, (Expr.erase_paren hspan).trans herase, hkept⟩
    simp [parts, ExprKind.parts]
  | kept span kind hkept => exact ⟨⟨span, kind⟩, .refl, Expr.erase_mk hkept, hkept⟩

/-- The clean-up makes the parts of a tree from parts, or from parts of parts. -/
lemma exists_of_mem_parts_erase {t u : Tree} (h : u ∈ t.erase.parts) :
    ∃ v, t.Contains v ∧ u = v.erase := by
  cases t with
  | expr e =>
    obtain ⟨⟨span, kind⟩, hcontains, herase, -⟩ := exists_unwrapped e
    suffices ∃ v ∈ (Tree.expr ⟨span, kind⟩).parts, u = v.erase by
      obtain ⟨v, hv, heq⟩ := this
      exact ⟨v, hcontains.tail hv, heq⟩
    rw [erase, herase] at h
    rcases List.mem_append.mp h with h | h
    · cases kind with
      | function l => exact ⟨.literal l, by simp [parts, function?], List.mem_singleton.mp h⟩
      | _ => cases h
    · change u ∈ kind.erase.parts.map .expr at h
      rw [ExprKind.parts_erase, List.map_map] at h
      obtain ⟨e', he', rfl⟩ := List.mem_map.mp h
      exact ⟨.expr e', by simp [parts, he'], rfl⟩
  | stmt s =>
    obtain ⟨span, kind⟩ := s
    suffices ∃ v ∈ (Tree.stmt ⟨span, kind⟩).parts, u = v.erase by
      obtain ⟨v, hv, heq⟩ := this
      exact ⟨v, .single hv, heq⟩
    rcases List.mem_append.mp h with h | h
    · cases kind with
      | function l => exact ⟨.literal l, by simp [parts, function?], List.mem_singleton.mp h⟩
      | _ => cases h
    · rcases List.mem_append.mp h with h | h
      · change u ∈ kind.erase.exprs.map .expr at h
        rw [StmtKind.exprs_erase, List.map_map] at h
        obtain ⟨e', he', rfl⟩ := List.mem_map.mp h
        exact ⟨.expr e', by simp [parts, he'], rfl⟩
      · change u ∈ kind.erase.stmts.map .stmt at h
        obtain ⟨s', hs', rfl⟩ := List.mem_map.mp h
        obtain ⟨s, hs, rfl⟩ := StmtKind.mem_stmts_erase hs'
        exact ⟨.stmt s, by simp [parts, hs], rfl⟩
  | literal l =>
    obtain ⟨name, params, body⟩ := l
    change u ∈ (eraseStmts body).map .stmt at h
    obtain ⟨s', hs', rfl⟩ := List.mem_map.mp h
    obtain ⟨s, hs, rfl⟩ := mem_eraseStmts hs'
    exact ⟨.stmt s, .single (by simp [parts, hs]), rfl⟩

/-- The lists of statements of the cleaned-up tree are cleaned-up lists. -/
lemma exists_of_mem_bodies_erase {t : Tree} {body' : List Stmt} (h : body' ∈ t.erase.bodies) :
    ∃ body, body' = eraseStmts body := by
  cases t with
  | expr e => cases h
  | stmt s =>
    obtain ⟨span, kind⟩ := s
    cases kind with
    | block body => exact ⟨body, List.mem_singleton.mp h⟩
    | loop init condition update body => exact ⟨body, List.mem_singleton.mp h⟩
    | switch subject cases =>
      change body' ∈ (eraseCases cases).map (·.body) at h
      rw [eraseCases_eq, List.map_map] at h
      obtain ⟨k, -, rfl⟩ := List.mem_map.mp h
      exact ⟨k.body, rfl⟩
    | _ => cases h
  | literal l =>
    obtain ⟨name, params, body⟩ := l
    exact ⟨body, List.mem_singleton.mp h⟩

/-- The tree is not an expression in parentheses that have a span of their own. -/
def spanlessParens : Tree → Bool
  | .expr ⟨span, .paren _⟩ => span.isSynthetic
  | _ => true

/-- The tree has nothing that the clean-up takes away, but for what its parts may have. -/
structure Clean (t : Tree) : Prop where
  noParens : ∀ span inner, t ≠ .expr ⟨span, .paren inner⟩
  noEmpty : ∀ body ∈ t.bodies, ∀ s ∈ body, s.kind ≠ .empty
  noRest : ∀ body ∈ t.bodies, ∀ s ∈ body.dropLast, s.kind.stops = false

/-- Where no parentheses have a span of their own, the clean-up leaves nothing that it takes away. -/
theorem erase_clean {t : Tree} (h : t.Everywhere fun u => u.spanlessParens = true) :
    t.erase.Everywhere Clean := by
  have horigin : ∀ u, t.erase.Contains u → ∃ v, t.Contains v ∧ u = v.erase := by
    intro u hu
    induction hu with
    | refl => exact ⟨t, .refl, rfl⟩
    | tail _ hpart ih =>
      obtain ⟨v, hv, rfl⟩ := ih
      obtain ⟨v', hv', heq⟩ := exists_of_mem_parts_erase hpart
      exact ⟨v', hv.trans hv', heq⟩
  intro u hu
  obtain ⟨v, hv, rfl⟩ := horigin u hu
  refine ⟨fun span inner heq => ?_, fun body hbody s hs => ?_, fun body hbody s hs => ?_⟩
  · cases v with
    | expr e =>
      obtain ⟨⟨span', kind⟩, hcontains, herase, hkept⟩ := exists_unwrapped e
      rw [erase, herase] at heq
      cases kind with
      | paren inner' =>
        have hspan : span'.isSynthetic = true := h _ (hv.trans hcontains)
        rw [hkept inner' rfl] at hspan
        cases hspan
      | _ => cases heq
    | stmt s => cases heq
    | literal l => cases heq
  · obtain ⟨body, rfl⟩ := exists_of_mem_bodies_erase hbody
    exact (eraseStmts_clean body).1 s hs
  · obtain ⟨body, rfl⟩ := exists_of_mem_bodies_erase hbody
    exact (eraseStmts_clean body).2 s hs

end Tree

end TreeWalk
