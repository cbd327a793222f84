/-
# Where breaks lead

A list of statements is left by a `break` to which one comes through blocks, branches and the first
parts of loops (`Interpreter.LeftBy`), and never through the body of a loop or of a case.  So those
that stand in the body of a loop or of a case end that one, and nothing around it.  A switch is
never left, but a loop is, by a `break` in its first part (`breaks_taken`, `first_part_leaves`).
-/
import Mathlib.Logic.Relation
import TreeWalk.Proofs.Congruence.Calls
import TreeWalk.Proofs.LooseBreaks
import TreeWalk.Proofs.TopLevel
import TreeWalk.Proofs.Trees
import TreeWalk.Proofs.Unbounded

namespace TreeWalk

/-- What follows a step comes to an end if the step is taken. -/
lemma Setting.tick_bind_eq_value {σ : Setting} {α : Type} {x : Action α} {a : α} {s t : State} :
    (Action.tick σ.config.stepLimit >>= fun _ => x) s = .value a t ↔
      σ.MayStep s ∧ x s.ticked = .value a t := by
  rw [Action.bind_eq_value]
  constructor
  · rintro ⟨⟨⟩, u, htick, hx⟩
    obtain ⟨hs, rfl⟩ := tick_eq_value_iff.mp htick
    exact ⟨hs, hx⟩
  · rintro ⟨hs, hx⟩
    exact ⟨(), s.ticked, tick_eq_value_iff.mpr ⟨hs, rfl⟩, hx⟩

namespace Evaluator

variable (ev : Evaluator) (c : ScopeRef)

lemma execAll_singleton (x : Stmt) : ev.execAll c [x] = ev.stmt x c := by
  rw [execAll]
  conv_rhs => rw [← bind_pure (ev.stmt x c)]
  congr 1
  funext flow
  cases flow <;> rfl

/-- A loop executes its first part like a list of one statement at most. -/
lemma execLoop_eq (init : Option Stmt) (condition update : Option Expr) (body : List Stmt) :
    ev.execLoop c init condition update body = (do
      match ← ev.execAll c init.toList with
      | .next => ev.execRounds c condition update body ev.rounds
      | .leave => return .leave
      | .ret v => return .ret v) := by
  cases init with
  | none => rfl
  | some z =>
    rw [Option.toList_some, execAll_singleton]
    rfl

/-- A branch executes the statement that it chooses, if there is one. -/
lemma execBranch_eq (condition : Expr) (whenTrue : Stmt) (whenFalse : Option Stmt) :
    ev.execBranch c condition whenTrue whenFalse = (do
      let v ← ev.expr condition c
      ev.execAll c (if v.truth then [whenTrue] else whenFalse.toList)) := by
  unfold execBranch
  congr 1
  funext v
  cases v.truth with
  | true => exact (execAll_singleton ev c whenTrue).symm
  | false =>
    cases whenFalse with
    | none => rfl
    | some z => exact (execAll_singleton ev c z).symm

end Evaluator

namespace Interpreter

/-- The list of statements is executed up to the break `y`, and left by it.  One comes to a break
from the list that it stands in, from a block, from a branch or from the first part of a loop; there
is no rule for the bodies of loops and cases. -/
inductive LeftBy (y : Stmt) : Interpreter → Store → ScopeRef → List Stmt → State → Prop
  /-- The break stands first. -/
  | here {i : Interpreter} {st : Store} {c : ScopeRef} {rest : List Stmt}
      (hkind : y.kind = .leave) (hbudget : i.MayStep (i.start st)) :
      LeftBy y i st c (y :: rest) (i.ticked.start st)
  /-- The first statement goes on with the next one. -/
  | next {i : Interpreter} {st : Store} {c : ScopeRef} {x : Stmt} {rest : List Stmt} {u t : State}
      (hx : i.Ends st (fun ev => ev.stmt x c) (.value .next u))
      (h : LeftBy y (i.after u) u.store c rest t) : LeftBy y i st c (x :: rest) t
  /-- The first statement is a block that is left. -/
  | block {i : Interpreter} {st : Store} {c : ScopeRef} {x : Stmt} {rest body : List Stmt}
      {t : State} (hkind : x.kind = .block body) (hbudget : i.MayStep (i.start st))
      (h : LeftBy y i.ticked (st.newScope (some c)).2 (st.newScope (some c)).1 body t) :
      LeftBy y i st c (x :: rest) t
  /-- The first statement is a branch, and the statement is left that it chooses. -/
  | branch {i : Interpreter} {st : Store} {c : ScopeRef} {x whenTrue : Stmt}
      {whenFalse : Option Stmt} {rest : List Stmt} {condition : Expr} {v : Value} {u t : State}
      (hkind : x.kind = .branch condition whenTrue whenFalse) (hbudget : i.MayStep (i.start st))
      (hv : i.ticked.Ends st (fun ev => ev.expr condition c) (.value v u))
      (h : LeftBy y (i.after u) u.store c (if v.truth then [whenTrue] else whenFalse.toList) t) :
      LeftBy y i st c (x :: rest) t
  /-- The first statement is a loop whose first part is left. -/
  | first {i : Interpreter} {st : Store} {c : ScopeRef} {x : Stmt} {init : Option Stmt}
      {rest body : List Stmt} {condition update : Option Expr} {t : State}
      (hkind : x.kind = .loop init condition update body) (hbudget : i.MayStep (i.start st))
      (h : LeftBy y i.ticked (st.newScope (some c)).2 (st.newScope (some c)).1 init.toList t) :
      LeftBy y i st c (x :: rest) t

/-- One round of a loop with the scope `c`, from the state `s` to the state `t`: the condition
holds, the body goes on to its end and the update is made. -/
def GoesRound (i : Interpreter) (c : ScopeRef) (condition update : Option Expr)
    (body : List Stmt) (s t : State) : Prop :=
  i.MayStep s ∧ ∃ u u' v,
    (i.after s.ticked).Ends s.store (fun ev => ev.holds c condition) (.value true u) ∧
    (i.after u).Ends u.store (fun ev => ev.execBlock c body) (.value .next u') ∧
    (i.after u').Ends u'.store (fun ev => ev.evalOption c update) (.value v t)

/-- The last round of a loop with the scope `c`, from the state `s` to the state `t`: the condition
does not hold, or it does and the body is left by a break. -/
def LastRound (i : Interpreter) (c : ScopeRef) (condition : Option Expr) (body : List Stmt)
    (s t : State) : Prop :=
  i.MayStep s ∧ ∃ held u,
    (i.after s.ticked).Ends s.store (fun ev => ev.holds c condition) (.value held u) ∧
    if held then
      ∃ y, LeftBy y (i.after u) (u.store.newScope (some c)).2 (u.store.newScope (some c)).1 body t
    else u = t

variable {i : Interpreter} {st : Store} {c : ScopeRef} {x y z : Stmt} {body rest : List Stmt}
  {t : State}

/-- A statement comes to an end if its step is taken and what it does comes to that end. -/
lemma ends_stmt_value_iff {flow : Flow} :
    i.Ends st (fun ev => ev.stmt x c) (.value flow t) ↔ i.MayStep (i.start st) ∧
      i.ticked.Ends st (fun ev => ev.execKind c x.kind) (.value flow t) := by
  have hlevel (ev : Evaluator) : ev.execStmt i.toSetting x c (i.start st) = .value flow t ↔
      i.MayStep (i.start st) ∧ ev.execKind c x.kind (i.ticked.start st) = .value flow t :=
    Action.blame_eq_value.trans Setting.tick_bind_eq_value
  rw [ends_stmt]
  simp only [Ends, hlevel, ne_eq, reduceCtorEq, not_false_eq_true, true_and, exists_and_left]
  rfl

/-- A list is left or returns if its first statement does. -/
lemma Ends.execAll_stops {flow : Flow} (hx : i.Ends st (fun ev => ev.stmt x c) (.value flow t))
    (hflow : flow ≠ .next) : i.Ends st (fun ev => ev.execAll c (x :: rest)) (.value flow t) := by
  obtain ⟨-, n, hn⟩ := hx
  refine ⟨by simp, n, ?_⟩
  simp only [Evaluator.execAll, Action.bind_apply, hn]
  cases flow with
  | next => exact absurd rfl hflow
  | leave => rfl
  | ret v => rfl

/-- Statements without a loose `break` are not left. -/
lemma not_ends_leave (hx : x.loose = false) :
    ¬ i.Ends st (fun ev => ev.stmt x c) (.value .leave t) := by
  rintro ⟨-, n, hn⟩
  exact Evaluator.avoids_level i.toSetting n hx c _ t hn

/-- A loop is left if its first part is, in the scope of the loop. -/
lemma ends_execLoop_leave_iff {init : Option Stmt} {condition update : Option Expr} :
    i.Ends st (fun ev => ev.execLoop c init condition update body) (.value .leave t) ↔
      i.Ends st (fun ev => ev.execAll c init.toList) (.value .leave t) := by
  simp only [Ends, Evaluator.execLoop_eq, Action.bind_apply]
  refine and_congr_right fun _ => exists_congr fun n => ?_
  cases (Evaluator.level i.toSetting n).execAll c init.toList (i.start st) with
  | value flow u =>
    cases flow with
    | next =>
      have hrounds := Evaluator.avoids_execRounds (Evaluator.level i.toSetting n) c condition
        update body (Evaluator.level i.toSetting n).rounds
      simpa using hrounds u t
    | leave => simp
    | ret v => simp
  | error e u => simp
  | unfinished => simp

/-- A loop statement is left if its first part is. -/
lemma ends_loop_leave_iff {span : Span} {init : Option Stmt} {condition update : Option Expr} :
    i.Ends st (fun ev => ev.stmt ⟨span, .loop init condition update body⟩ c) (.value .leave t) ↔
      i.MayStep (i.start st) ∧ i.ticked.Ends (st.newScope (some c)).2
        (fun ev => ev.execAll (st.newScope (some c)).1 init.toList) (.value .leave t) := by
  rw [ends_stmt_value_iff]
  exact and_congr_right fun _ => ends_execLoop_leave_iff

/-! ### Lists that are left -/

namespace LeftBy

/-- What comes after the break is not executed. -/
lemma append (h : LeftBy y i st c body t) (rest : List Stmt) :
    LeftBy y i st c (body ++ rest) t := by
  induction h with
  | here hkind hbudget => exact .here hkind hbudget
  | next hx _ ih => exact .next hx ih
  | block hkind hbudget h => exact .block hkind hbudget h
  | branch hkind hbudget hv h => exact .branch hkind hbudget hv h
  | first hkind hbudget h => exact .first hkind hbudget h

/-- What is left by a break is executed up to there. -/
lemma ends (h : LeftBy y i st c body t) :
    i.Ends st (fun ev => ev.execAll c body) (.value .leave t) := by
  induction h with
  | here hkind hbudget =>
    refine .execAll_stops (ends_stmt_value_iff.mpr ⟨hbudget, ?_⟩) nofun
    rw [hkind]
    exact ⟨by simp, 0, rfl⟩
  | next hx _ ih => exact hx.execAll_cons ih
  | block hkind hbudget _ ih =>
    refine .execAll_stops (ends_stmt_value_iff.mpr ⟨hbudget, ?_⟩) nofun
    rw [hkind]
    exact ih
  | @branch i st c x whenTrue whenFalse rest condition v u t hkind hbudget hv _ ih =>
    refine .execAll_stops (ends_stmt_value_iff.mpr ⟨hbudget, ?_⟩) nofun
    simp only [hkind, Evaluator.execKind, Evaluator.execBranch_eq]
    exact .bind ((growing_operations c).2.1 condition)
      (fun v => (growing_operations c).2.2.2.2.1 _) hv ih
  | @first i st c x init rest body condition update t hkind hbudget _ ih =>
    obtain ⟨span, kind⟩ := x
    obtain rfl : kind = .loop init condition update body := hkind
    exact .execAll_stops (ends_loop_leave_iff.mpr ⟨hbudget, ih⟩) nofun

end LeftBy

/-- A list is left by the break that one of its statements is left by. -/
lemma exists_leftBy_of_items (hitems : ∀ x ∈ body, ∀ i st c t,
      Ends i st (fun ev => ev.stmt x c) (.value .leave t) → ∃ y, LeftBy y i st c [x] t)
    (h : i.Ends st (fun ev => ev.execAll c body) (.value .leave t)) :
    ∃ y, LeftBy y i st c body t := by
  induction body generalizing i st with
  | nil =>
    obtain ⟨-, n, hn⟩ := h
    cases hn
  | cons x rest ih =>
    rcases h.of_execAll_cons with ⟨u, hx, hrest⟩ | ⟨-, hx⟩
    · obtain ⟨y, hy⟩ := ih (fun z hz => hitems z (List.mem_cons_of_mem x hz)) hrest
      exact ⟨y, .next hx hy⟩
    · obtain ⟨y, hy⟩ := hitems x List.mem_cons_self i st c t hx
      exact ⟨y, hy.append rest⟩

/-- A statement that is left is left by a break. -/
lemma exists_leftBy_stmt (x : Stmt) : ∀ (i : Interpreter) (st : Store) (c : ScopeRef) (t : State),
    i.Ends st (fun ev => ev.stmt x c) (.value .leave t) → ∃ y, LeftBy y i st c [x] t := by
  -- a break is reached from a statement through the statements in it
  induction x using Stmt.partsInduction with | _ x ih
  intro i st c t h
  obtain ⟨hbudget, hkind⟩ := ends_stmt_value_iff.mp h
  obtain ⟨span, kind⟩ := x
  cases kind with
  | leave =>
    obtain ⟨-, n, hn⟩ := hkind
    cases hn
    exact ⟨_, .here rfl hbudget⟩
  | block body =>
    obtain ⟨y, hy⟩ := exists_leftBy_of_items ih hkind
    exact ⟨y, .block rfl hbudget hy⟩
  | branch condition whenTrue whenFalse =>
    simp only [Evaluator.execKind, Evaluator.execBranch_eq] at hkind
    rcases hkind.of_bind (x := fun ev => ev.expr condition c) with
      ⟨v, u, hv, hchosen⟩ | ⟨e, u, -, he⟩
    · have hparts : ∀ z ∈ (if v.truth then [whenTrue] else whenFalse.toList),
          z ∈ (StmtKind.branch condition whenTrue whenFalse).stmts := by
        cases v.truth <;> simp +contextual [StmtKind.stmts]
      obtain ⟨y, hy⟩ := exists_leftBy_of_items (fun z hz => ih z (hparts z hz)) hchosen
      exact ⟨y, .branch rfl hbudget hv hy⟩
    · cases he
  | loop init condition update body =>
    obtain ⟨y, hy⟩ := exists_leftBy_of_items
      (fun z hz => ih z (List.mem_append_left body hz)) (ends_loop_leave_iff.mp h).2
    exact ⟨y, .first rfl hbudget hy⟩
  | _ => exact absurd h (not_ends_leave rfl)

/-- A list is left by a break to which one comes without entering the body of a loop or a case, and
by nothing else. -/
lemma ends_leave_iff :
    i.Ends st (fun ev => ev.execAll c body) (.value .leave t) ↔ ∃ y, LeftBy y i st c body t :=
  ⟨exists_leftBy_of_items fun x _ => exists_leftBy_stmt x, fun ⟨_, hy⟩ => hy.ends⟩

/-! ### The end of a loop -/

/-- A step that an evaluator takes is allowed by the budget. -/
lemma tick_level {n : Nat} {u : State}
    (h : (Evaluator.level i.toSetting n).tick u = .value () t) : i.MayStep u ∧ t = u.ticked := by
  cases n with
  | zero => cases h
  | succ n => exact Setting.tick_eq_value_iff.mp h

/-- After some rounds that go on there is a last one. -/
lemma exists_lastRound {condition update : Option Expr} {n m : Nat} {s : State}
    (h : (Evaluator.level i.toSetting n).execRounds c condition update body m s =
      .value .next t) :
    ∃ u, Relation.ReflTransGen (i.GoesRound c condition update body) s u ∧
      i.LastRound c condition body u t := by
  induction m generalizing s with
  | zero => cases h
  | succ m ih =>
    obtain ⟨⟨⟩, u, htick, h⟩ := Action.bind_eq_value.mp h
    obtain ⟨hbudget, rfl⟩ := tick_level htick
    obtain ⟨held, u, hheld, h⟩ := Action.bind_eq_value.mp h
    have hcondition : (i.after s.ticked).Ends s.store (fun ev => ev.holds c condition)
        (.value held u) := ⟨by simp, n, hheld⟩
    cases held with
    | false =>
      cases h
      exact ⟨s, .refl, hbudget, false, t, hcondition, rfl⟩
    | true =>
      obtain ⟨flow, u', hbody, h⟩ := Action.bind_eq_value.mp h
      cases flow with
      | next =>
        obtain ⟨v, w, hupdate, h⟩ := Action.bind_eq_value.mp h
        obtain ⟨w', hrounds, hlast⟩ := ih h
        refine ⟨w', .head ⟨hbudget, u, u', v, hcondition, ?_, ?_⟩ hrounds, hlast⟩
        · exact ⟨by simp, n, hbody⟩
        · exact ⟨by simp, n, hupdate⟩
      | leave =>
        cases h
        exact ⟨s, .refl, hbudget, true, u, hcondition, ends_leave_iff.mp ⟨by simp, n, hbody⟩⟩
      | ret v => cases h

/-- A loop goes on with the next statement after its first part and its rounds. -/
lemma Ends.of_loop {span : Span} {init : Option Stmt} {condition update : Option Expr}
    (h : i.Ends st (fun ev => ev.stmt ⟨span, .loop init condition update body⟩ c)
      (.value .next t)) :
    ∃ s u, i.ticked.Ends (st.newScope (some c)).2
        (fun ev => ev.execAll (st.newScope (some c)).1 init.toList) (.value .next s) ∧
      Relation.ReflTransGen (i.GoesRound (st.newScope (some c)).1 condition update body) s u ∧
      i.LastRound (st.newScope (some c)).1 condition body u t := by
  obtain ⟨-, -, n, hn⟩ := ends_stmt_value_iff.mp h
  obtain ⟨d, s, hd, hn⟩ := Action.bind_eq_value.mp hn
  cases hd
  rw [Evaluator.execLoop_eq] at hn
  obtain ⟨flow, s, hinit, hn⟩ := Action.bind_eq_value.mp hn
  cases flow with
  | next =>
    obtain ⟨u, hrounds, hlast⟩ := exists_lastRound hn
    exact ⟨s, u, ⟨by simp, n, hinit⟩, hrounds, hlast⟩
  | leave => cases hn
  | ret v => cases hn

/-! ### Stray breaks -/

/-- The body of a function fails where a statement of it does, or is left by a break. -/
lemma Ends.of_answer {e : EvalError}
    (h : i.Ends st (fun ev => ev.answer c body) (.error e t)) :
    i.Ends st (fun ev => ev.execAll c body) (.error e t) ∨
      e.fault = .strayBreak ∧ ∃ y, LeftBy y i st c body t := by
  rcases h.of_bind (x := fun ev => ev.execAll c body) with
    ⟨flow, u, hbody, -, n, hn⟩ | ⟨e', u, hbody, he⟩
  · cases flow with
    | leave =>
      cases hn
      exact .inr ⟨rfl, ends_leave_iff.mp hbody⟩
    | next => cases hn
    | ret v => cases hn
  · cases he
    exact .inl hbody

/-- A later statement of a list fails after the first one has gone on. -/
lemma FailsAt.cons {e : EvalError} {u : State}
    (hx : i.Ends st (fun ev => ev.stmt x i.globals) (.value .next u))
    (h : (i.after u).FailsAt u.store rest y e t) : i.FailsAt st (x :: rest) y e t := by
  obtain ⟨first, rest', w, rfl, hfirst, hy⟩ := h
  exact ⟨x :: first, rest', w, rfl, hx.execAll_cons hfirst, hy⟩

/-- An expression statement ends as its expression does after a step. -/
lemma Ends.stmt_of_expr {e : Expr} {o : Outcome Value} (hkind : x.kind = .expr e)
    (h : i.Ends st (fun ev => ev.tick >>= fun _ => ev.expr e c) o) :
    i.Ends st (fun ev => ev.stmt x c) (match o with
      | .value _ u => .value .next u
      | .error e' u => .error (e'.blame x.span) u
      | .unfinished => .unfinished) := by
  obtain ⟨ho, n, hn⟩ := h
  cases n with
  | zero => exact absurd hn.symm ho
  | succ n =>
    rw [ends_stmt]
    refine ⟨by cases o <;> simp at ho ⊢, n + 1, ?_⟩
    -- the step and the expression are one action, after which the statement goes on
    dsimp only at hn ⊢
    rw [Evaluator.execStmt, hkind, Action.blame_apply]
    simp only [Evaluator.execKind, ← bind_assoc]
    rw [Action.bind_apply]
    replace hn : (Action.tick i.config.stepLimit >>=
      fun _ => (Evaluator.level i.toSetting (n + 1)).expr e c) (i.start st) = o := hn
    rw [hn]
    cases o <;> rfl

/-- A program that fails does so where one of its statements fails, or where one is left by a
break. -/
lemma Ends.of_runFrom {program : List Stmt} {last : Value} {e : EvalError}
    (h : i.Ends st (fun ev => ev.runFrom i.globals last program) (.error e t)) :
    (∃ x e', i.FailsAt st program x e' t ∧ e'.fault = e.fault) ∨
      e.fault = .strayBreak ∧
        i.Ends st (fun ev => ev.execAll i.globals program) (.value .leave t) := by
  induction program generalizing i st last with
  | nil =>
    obtain ⟨-, n, hn⟩ := h
    cases hn
  | cons x rest ih =>
    have hnext {w : Value} {u : State}
        (hx : i.Ends st (fun ev => ev.stmt x i.globals) (.value .next u))
        (hrest : (i.after u).Ends u.store (fun ev => ev.runFrom i.globals w rest) (.error e t)) :
        (∃ x' e', i.FailsAt st (x :: rest) x' e' t ∧ e'.fault = e.fault) ∨ e.fault = .strayBreak ∧
          i.Ends st (fun ev => ev.execAll i.globals (x :: rest)) (.value .leave t) := by
      rcases ih hrest with ⟨y, e', hy, he⟩ | ⟨he, hleave⟩
      · exact .inl ⟨y, e', hy.cons hx, he⟩
      · exact .inr ⟨he, hx.execAll_cons hleave⟩
    have hfails {e' : EvalError} (hx : i.Ends st (fun ev => ev.stmt x i.globals) (.error e' t))
        (he : e'.fault = e.fault) :
        ∃ x' e', i.FailsAt st (x :: rest) x' e' t ∧ e'.fault = e.fault :=
      ⟨x, e', ⟨[], rest, _, rfl, ends_execAll_nil, hx⟩, he⟩
    by_cases hkind : ∃ y, x.kind = .expr y
    · obtain ⟨y, hy⟩ := hkind
      simp only [Evaluator.runFrom_expr _ _ hy] at h
      rcases h.of_bind (x := fun ev => ev.tick >>= fun _ => ev.expr y i.globals) with
        ⟨v, u, hv, hrest⟩ | ⟨e', u, hv, he⟩
      · exact hnext (hv.stmt_of_expr hy) hrest
      · cases he
        exact .inl (hfails (hv.stmt_of_expr hy) (EvalError.fault_blame e x.span))
    · simp only [Evaluator.runFrom_cons _ _ fun y hy => hkind ⟨y, hy⟩] at h
      rcases h.of_bind (x := fun ev => ev.stmt x i.globals) with
        ⟨flow, u, hx, hrest⟩ | ⟨e', u, hx, he⟩
      · cases flow with
        | next => exact hnext hx hrest
        | leave =>
          obtain ⟨-, n, hn⟩ := hrest
          cases hn
          exact .inr ⟨EvalError.fault_blame _ x.span, hx.execAll_stops nofun⟩
        | ret v =>
          obtain ⟨-, n, hn⟩ := hrest
          cases hn
      · cases he
        exact .inl (hfails hx rfl)

end Interpreter

open Interpreter Relation

/-- A switch is never left by a `break`, and a loop is if its first part is, in the scope of the
loop.  A loop that goes on with the next statement has come to a round in which its condition does
not hold, or in which its own body is left.  A list of statements, such as the body of a loop, of a
case or of a function, is left by a break to which one comes without entering the body of a loop or
of a case in it, and by nothing else; and only where a program or a function is left in this way
does it fail with a stray break, unless that is how one of its statements fails. -/
theorem breaks_taken (i : Interpreter) (st : Store) (c : ScopeRef) (span : Span) :
    (∀ subject cases t,
      ¬ i.Ends st (fun ev => ev.stmt ⟨span, .switch subject cases⟩ c) (.value .leave t)) ∧
    (∀ init condition update body t,
      i.Ends st (fun ev => ev.stmt ⟨span, .loop init condition update body⟩ c)
          (.value .leave t) ↔
        i.MayStep (i.start st) ∧ i.ticked.Ends (st.newScope (some c)).2
          (fun ev => ev.execAll (st.newScope (some c)).1 init.toList) (.value .leave t)) ∧
    (∀ init condition update body t,
      i.Ends st (fun ev => ev.stmt ⟨span, .loop init condition update body⟩ c)
          (.value .next t) →
        ∃ s u, i.ticked.Ends (st.newScope (some c)).2
            (fun ev => ev.execAll (st.newScope (some c)).1 init.toList) (.value .next s) ∧
          ReflTransGen (i.GoesRound (st.newScope (some c)).1 condition update body) s u ∧
          i.LastRound (st.newScope (some c)).1 condition body u t) ∧
    (∀ body t, i.Ends st (fun ev => ev.execAll c body) (.value .leave t) ↔
      ∃ y, LeftBy y i st c body t) ∧
    (∀ body e t, i.Ends st (fun ev => ev.answer c body) (.error e t) →
      i.Ends st (fun ev => ev.execAll c body) (.error e t) ∨
        e.fault = .strayBreak ∧ ∃ y, LeftBy y i st c body t) ∧
    ∀ program e t, i.Ends st (fun ev => ev.runFrom i.globals .nil program) (.error e t) →
      (∃ x e', i.FailsAt st program x e' t ∧ e'.fault = e.fault) ∨
        e.fault = .strayBreak ∧ ∃ y, LeftBy y i st i.globals program t := by
  refine ⟨fun subject cases t => not_ends_leave rfl,
    fun init condition update body t => ends_loop_leave_iff,
    fun init condition update body t h => h.of_loop, fun body t => ends_leave_iff,
    fun body e t h => h.of_answer, fun program e t h => ?_⟩
  rw [← ends_leave_iff]
  exact h.of_runFrom

/-- A `break` in an inner loop ends that one only: the `break` behind it is the one that ends the
outer loop, or is stray in a function or a program. -/
theorem breaks_taken_inner :
    let leave : Stmt := .synthetic .leave
    let body : List Stmt := [.synthetic (.loop none none none [leave]), leave]
    let i := (Interpreter.create {} {}).1
    let st := (Interpreter.create {} {}).2
    let d := (st.newScope (some i.globals)).1
    (∃ t s u, i.Ends st (fun ev => ev.stmt (.synthetic (.loop none none none body)) i.globals)
        (.value .next t) ∧
      ReflTransGen (i.GoesRound d none none body) s u ∧ i.LastRound d none body u t) ∧
    (∃ e t, i.Ends st (fun ev => ev.answer i.globals body) (.error e t) ∧
      (i.Ends st (fun ev => ev.execAll i.globals body) (.error e t) ∨
        e.fault = .strayBreak ∧ ∃ y, LeftBy y i st i.globals body t)) ∧
    ∃ e t, i.Ends st (fun ev => ev.runFrom i.globals .nil body) (.error e t) ∧
      ((∃ x e', i.FailsAt st body x e' t ∧ e'.fault = e.fault) ∨
        e.fault = .strayBreak ∧ ∃ y, LeftBy y i st i.globals body t) := by
  intro leave body i st d
  obtain ⟨-, -, hloop, -, hfunction, hprogram⟩ := breaks_taken i st i.globals .synthetic
  obtain ⟨flow, t, hends, hflow⟩ := Ends.of_passes i st
    (fun ev => ev.stmt (.synthetic (.loop none none none body)) i.globals)
    (fun flow _ => decide (flow = .next)) 8 (by decide +kernel)
  obtain rfl : flow = .next := of_decide_eq_true hflow
  obtain ⟨s, u, -, hrounds, hlast⟩ := hloop none none none body t hends
  obtain ⟨e, w, hanswer, -⟩ := Ends.of_fails i st (fun ev => ev.answer i.globals body)
    (fun _ => true) 8 (by decide +kernel)
  obtain ⟨e', w', hrun, -⟩ := Ends.of_fails i st (fun ev => ev.runFrom i.globals .nil body)
    (fun _ => true) 8 (by decide +kernel)
  exact ⟨⟨t, s, u, hends, hrounds, hlast⟩, ⟨e, w, hanswer, hfunction body e w hanswer⟩,
    ⟨e', w', hrun, hprogram body e' w' hrun⟩⟩

/-- A loop whose first part is a `break` is left, and the `break` is stray if there is nothing
around the loop. -/
theorem first_part_leaves :
    let loop : Stmt := .synthetic (.loop (some (.synthetic .leave)) none none [])
    let i := (Interpreter.create {} {}).1
    let st := (Interpreter.create {} {}).2
    (∃ t, i.Ends st (fun ev => ev.stmt loop i.globals) (.value .leave t)) ∧
      ∃ e t, i.Ends st (fun ev => ev.runFrom i.globals .nil [loop]) (.error e t) ∧
        e.kind = .generic ∧ e.message = "break outside of loop or switch" := by
  intro loop i st
  obtain ⟨flow, t, hends, hflow⟩ := Ends.of_passes i st (fun ev => ev.stmt loop i.globals)
    (fun flow _ => decide (flow = .leave)) 4 (by decide +kernel)
  obtain rfl : flow = .leave := of_decide_eq_true hflow
  obtain ⟨e, u, hrun, he⟩ := Ends.of_fails i st (fun ev => ev.runFrom i.globals .nil [loop])
    (fun e => decide (e.kind = .generic ∧ e.message = "break outside of loop or switch")) 4
    (by decide +kernel)
  exact ⟨⟨t, hends⟩, e, u, hrun, of_decide_eq_true he⟩

end TreeWalk
