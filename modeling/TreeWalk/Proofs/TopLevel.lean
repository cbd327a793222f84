/-
# A program ends as its statements do

`runFrom`, which runs a program, goes through the statements by itself and keeps the value of the
last expression among them, where `execAll` only executes them.  The two end in the same state and
with the same value (`run_of_execAll`).  A failure is the same one too, up to its place: an
expression at the top of a program is evaluated directly, and its statement is not blamed for what
fails outside of all nodes of the expression, as a step over the limit does (`run_unplaced`).
-/
import TreeWalk.Proofs.Congruence.Statements
import TreeWalk.Proofs.Ending

namespace TreeWalk

namespace Interpreter

variable {i : Interpreter} {st : Store}

/-- The interpreter after one more step. -/
def ticked (i : Interpreter) : Interpreter := { i with steps := i.steps + 1 }

/-- The statements of a list go on, each with the next one, and `v` is the value of the last
expression among them: the one that it has where the statements before it have ended.  If there is
no expression it is `last`. -/
def LastValue (i : Interpreter) (st : Store) (last : Value) (body : List Stmt) (v : Value) : Prop :=
  ((∀ x ∈ body, ∀ e, x.kind ≠ .expr e) ∧ v = last) ∨
    ∃ first x e rest t u, body = first ++ x :: rest ∧ x.kind = .expr e ∧
      (∀ y ∈ rest, ∀ e', y.kind ≠ .expr e') ∧
      i.Ends st (fun ev => ev.execAll i.globals first) (.value .next t) ∧
      (i.after t).ticked.Ends t.store (fun ev => ev.expr e i.globals) (.value v u)

/-- The statement `x` of a list fails, after those before it have gone on, each with the next
one. -/
def FailsAt (i : Interpreter) (st : Store) (body : List Stmt) (x : Stmt) (e : EvalError)
    (s : State) : Prop :=
  ∃ first rest t, body = first ++ x :: rest ∧
    i.Ends st (fun ev => ev.execAll i.globals first) (.value .next t) ∧
    (i.after t).Ends t.store (fun ev => ev.stmt x i.globals) (.error e s)

variable {c : ScopeRef}

lemma ends_execAll_nil : i.Ends st (fun ev => ev.execAll c []) (.value .next (i.start st)) :=
  ⟨by simp, 0, rfl⟩

/-- A list goes on if its first statement and the rest of it do. -/
lemma Ends.execAll_cons {x : Stmt} {rest : List Stmt} {t : State} {o : Outcome Flow}
    (hx : i.Ends st (fun ev => ev.stmt x c) (.value .next t))
    (hrest : (i.after t).Ends t.store (fun ev => ev.execAll c rest) o) :
    i.Ends st (fun ev => ev.execAll c (x :: rest)) o := by
  simp only [Evaluator.execAll]
  refine Ends.bind ((growing_operations c).2.2.2.1 x) (fun flow => ?_) hx hrest
  cases flow with
  | next => exact (growing_operations c).2.2.2.2.1 rest
  | leave => exact fun _ _ _ => .refl _
  | ret v => exact fun _ _ _ => .refl _

/-- A list ends with its first statement, unless that goes on with the rest of the list. -/
lemma Ends.of_execAll_cons {x : Stmt} {rest : List Stmt} {o : Outcome Flow}
    (h : i.Ends st (fun ev => ev.execAll c (x :: rest)) o) :
    (∃ t, i.Ends st (fun ev => ev.stmt x c) (.value .next t) ∧
      (i.after t).Ends t.store (fun ev => ev.execAll c rest) o) ∨
    (∀ t, o ≠ .value .next t) ∧ i.Ends st (fun ev => ev.stmt x c) o := by
  rcases Ends.of_bind (x := fun ev => ev.stmt x c) h with ⟨flow, t, hx, hrest⟩ | ⟨e, t, hx, rfl⟩
  · cases flow with
    | next => exact .inl ⟨t, hx, hrest⟩
    | leave =>
      obtain ⟨-, n, rfl⟩ := hrest
      exact .inr ⟨nofun, hx⟩
    | ret v =>
      obtain ⟨-, n, rfl⟩ := hrest
      exact .inr ⟨nofun, hx⟩
  · exact .inr ⟨nofun, hx⟩

/-- A list that is not gone through to its end ends with one of its statements, after those before
it have gone on. -/
lemma Ends.execAll_split {body : List Stmt} {o : Outcome Flow}
    (h : i.Ends st (fun ev => ev.execAll c body) o) (ho : ∀ t, o ≠ .value .next t) :
    ∃ first x rest t, body = first ++ x :: rest ∧
      i.Ends st (fun ev => ev.execAll c first) (.value .next t) ∧
      (i.after t).Ends t.store (fun ev => ev.stmt x c) o := by
  induction body generalizing i st with
  | nil =>
    obtain ⟨-, n, hn⟩ := h
    exact absurd hn.symm (ho _)
  | cons x rest ih =>
    rcases h.of_execAll_cons with ⟨t, hx, hrest⟩ | ⟨-, hx⟩
    · obtain ⟨first, y, rest', u, rfl, hfirst, hy⟩ := ih hrest
      exact ⟨x :: first, y, rest', u, rfl, hx.execAll_cons hfirst, hy⟩
    · exact ⟨[], x, rest, _, rfl, ends_execAll_nil, hx⟩

/-- A step that can be taken makes the steps one more. -/
lemma Ends.of_tick {a : Unit} {t : State}
    (h : i.Ends st (fun _ => Action.tick i.config.stepLimit) (.value a t)) :
    t = i.ticked.start st := by
  obtain ⟨-, n, hn⟩ := h
  dsimp only [Action.tick] at hn
  split at hn
  · cases hn; rfl
  · split at hn <;> cases hn
    rfl

/-- An expression statement takes a step and evaluates its expression.  It is blamed for a failure
of either. -/
lemma Ends.stmt_expr {x : Stmt} {e : Expr} (hkind : x.kind = .expr e) {o : Outcome Flow}
    (h : i.Ends st (fun ev => ev.stmt x c) o) :
    (∃ v t, o = .value .next t ∧ i.ticked.Ends st (fun ev => ev.expr e c) (.value v t) ∧
      i.Ends st (fun ev => ev.tick >>= fun _ => ev.expr e c) (.value v t)) ∨
    ∃ e' t, o = .error (e'.blame x.span) t ∧
      i.Ends st (fun ev => ev.tick >>= fun _ => ev.expr e c) (.error e' t) := by
  have hgrows : Growing fun ev : Evaluator => ev.tick := fun _ _ h => h.tick
  have hgrows' := (growing_operations c).2.1 e
  have hbody : ∀ o', i.Ends st (fun ev => do Action.tick i.config.stepLimit; ev.execKind c x.kind)
      o' → (∃ v t, o' = .value .next t ∧ i.ticked.Ends st (fun ev => ev.expr e c) (.value v t) ∧
        i.Ends st (fun ev => ev.tick >>= fun _ => ev.expr e c) (.value v t)) ∨
      ∃ e' t, o' = .error e' t ∧
        i.Ends st (fun ev => ev.tick >>= fun _ => ev.expr e c) (.error e' t) := by
    intro o' ho'
    rw [hkind] at ho'
    rcases Ends.of_bind (f := fun _ ev => ev.execKind c (.expr e)) ho' with
      ⟨a, t, htick, hexpr⟩ | ⟨e', t, htick, rfl⟩
    · obtain rfl := htick.of_tick
      rcases Ends.of_bind (f := fun _ _ => pure Flow.next) hexpr with
        ⟨v, u, hv, -, n, rfl⟩ | ⟨e', u, he', rfl⟩
      · exact .inl ⟨v, u, rfl, hv, .bind hgrows (fun _ => hgrows') htick.tick hv⟩
      · exact .inr ⟨e', u, rfl, .bind hgrows (fun _ => hgrows') htick.tick he'⟩
    · exact .inr ⟨e', t, rfl, .bind_error htick.tick⟩
  rcases (ends_stmt.mp h).of_blame with ⟨flow, t, hflow, rfl⟩ | ⟨e', t, he', rfl⟩
  · rcases hbody _ hflow with ⟨v, u, hu, hv⟩ | ⟨e', u, hu, -⟩
    · exact .inl ⟨v, u, hu, hv⟩
    · cases hu
  · rcases hbody _ he' with ⟨v, u, hu, -⟩ | ⟨e'', u, hu, hfail⟩
    · cases hu
    · cases hu
      exact .inr ⟨e', t, rfl, hfail⟩

/-- An expression statement goes on. -/
lemma Ends.kind_ne_expr {x : Stmt} {flow : Flow} {t : State}
    (h : i.Ends st (fun ev => ev.stmt x c) (.value flow t)) (hflow : flow ≠ .next) (e : Expr) :
    x.kind ≠ .expr e := by
  intro hkind
  rcases h.stmt_expr hkind with ⟨v, u, hu, -⟩ | ⟨e', u, hu, -⟩
  · cases hu
    exact hflow rfl
  · cases hu

/-- A program goes on after a statement that is no expression as after any other one. -/
lemma Ends.runFrom_stmt {x : Stmt} (hkind : ∀ e, x.kind ≠ .expr e) {last : Value}
    {rest : List Stmt} {flow : Flow} {t : State} {o : Outcome Value}
    (hx : i.Ends st (fun ev => ev.stmt x c) (.value flow t))
    (hrest : (i.after t).Ends t.store (fun ev => match flow with
      | .next => ev.runFrom c last rest
      | .leave => Action.blame x.span (Action.raise .strayBreak)
      | .ret v => pure v) o) :
    i.Ends st (fun ev => ev.runFrom c last (x :: rest)) o := by
  simp only [Evaluator.runFrom_cons _ _ hkind]
  refine Ends.bind (f := fun flow ev => match flow with
    | .next => ev.runFrom c last rest
    | .leave => Action.blame x.span (Action.raise .strayBreak)
    | .ret v => pure v) ((growing_operations c).2.2.2.1 x) (fun flow => ?_) hx hrest
  cases flow with
  | next => exact (growing_operations c).1 last rest
  | leave => exact fun _ _ _ => .refl _
  | ret v => exact fun _ _ _ => .refl _

/-- A program fails with its first statement, and with the same error unless the statement is an
expression that has not been blamed for it. -/
lemma Ends.runFrom_fails {x : Stmt} {e : EvalError} {s : State}
    (h : i.Ends st (fun ev => ev.stmt x c) (.error e s)) (last : Value) (rest : List Stmt) :
    ∃ e', i.Ends st (fun ev => ev.runFrom c last (x :: rest)) (.error e' s) ∧
      e'.kind = e.kind ∧ e'.message = e.message ∧
      (e' = e ↔ ((∃ y, x.kind = .expr y) → x.span = .synthetic ∨ e'.span ≠ none)) ∧
      (e' ≠ e → e'.span = none ∧ e.span = some x.span) := by
  by_cases hkind : ∃ y, x.kind = .expr y
  · obtain ⟨y, hy⟩ := hkind
    rcases h.stmt_expr hy with ⟨v, u, hu, -⟩ | ⟨e', u, hu, htask⟩ <;> cases hu
    refine ⟨e', ?_, ?_, ?_, ?_, fun hne => e'.span_of_blame_ne x.span hne.symm⟩
    · simp only [Evaluator.runFrom_expr _ _ hy]
      exact .bind_error htask
    · rw [EvalError.kind, EvalError.kind, EvalError.fault_blame]
    · rw [EvalError.message, EvalError.message, EvalError.fault_blame]
    · rw [eq_comm, EvalError.blame_eq_self_iff]
      exact ⟨fun h _ => h, fun h => h ⟨y, hy⟩⟩
  · refine ⟨e, ?_, rfl, rfl, ?_, fun hne => absurd rfl hne⟩
    · simp only [Evaluator.runFrom_cons _ _ fun y hy => hkind ⟨y, hy⟩]
      exact .bind_error h
    · exact ⟨fun _ hexpr => absurd hexpr hkind, fun _ => rfl⟩

namespace LastValue

variable {last v w : Value} {x : Stmt} {body : List Stmt} {t : State}

/-- A statement in front that is no expression makes no difference. -/
lemma cons_stmt (h : (i.after t).LastValue t.store last body v)
    (hx : i.Ends st (fun ev => ev.stmt x i.globals) (.value .next t))
    (hkind : ∀ e, x.kind ≠ .expr e) : i.LastValue st last (x :: body) v := by
  rcases h with ⟨hnone, rfl⟩ | ⟨first, y, e, rest, u, u', rfl, hy, hrest, hfirst, hv⟩
  · exact .inl ⟨List.forall_mem_cons.mpr ⟨hkind, hnone⟩, rfl⟩
  · exact .inr ⟨x :: first, y, e, rest, u, u', rfl, hy, hrest, hx.execAll_cons hfirst, hv⟩

/-- The value of an expression in front is the last one until there is another one. -/
lemma cons_expr (h : (i.after t).LastValue t.store w body v)
    (hx : i.Ends st (fun ev => ev.stmt x i.globals) (.value .next t)) {e : Expr}
    (hkind : x.kind = .expr e)
    (he : i.ticked.Ends st (fun ev => ev.expr e i.globals) (.value w t)) :
    i.LastValue st last (x :: body) v := by
  rcases h with ⟨hnone, rfl⟩ | ⟨first, y, e', rest, u, u', rfl, hy, hrest, hfirst, hv⟩
  · exact .inr ⟨[], x, e, body, i.start st, t, rfl, hkind, hnone, ends_execAll_nil, he⟩
  · exact .inr ⟨x :: first, y, e', rest, u, u', rfl, hy, hrest, hx.execAll_cons hfirst, hv⟩

end LastValue

/-- Where statements go on, each with the next one, a program that starts with them goes on with the
last value among them. -/
lemma Ends.runFrom_append {first : List Stmt} {t : State}
    (h : i.Ends st (fun ev => ev.execAll i.globals first) (.value .next t)) (last : Value) :
    ∃ v, i.LastValue st last first v ∧ ∀ rest o,
      (i.after t).Ends t.store (fun ev => ev.runFrom i.globals v rest) o →
      i.Ends st (fun ev => ev.runFrom i.globals last (first ++ rest)) o := by
  induction first generalizing i st last with
  | nil =>
    obtain ⟨-, n, hn⟩ := h
    cases hn
    exact ⟨last, .inl ⟨nofun, rfl⟩, fun rest o ho => ho⟩
  | cons x first ih =>
    have hgrows := fun v rest => (growing_operations i.globals).1 v rest
    rcases h.of_execAll_cons with ⟨u, hx, hfirst⟩ | ⟨hne, -⟩
    · by_cases hkind : ∃ e, x.kind = .expr e
      · obtain ⟨e, he⟩ := hkind
        rcases hx.stmt_expr he with ⟨w, u', hu, hw, htask⟩ | ⟨e', u', hu, -⟩
        · cases hu
          obtain ⟨v, hlast, hrun⟩ := ih hfirst w
          refine ⟨v, hlast.cons_expr hx he hw, fun rest o ho => ?_⟩
          simp only [List.cons_append, Evaluator.runFrom_expr _ _ he]
          exact .bind (fun ev ev' h => .bind h.tick fun _ => h.expr e _) (fun w => hgrows w _)
            htask (hrun rest o ho)
        · cases hu
      · have hne : ∀ e, x.kind ≠ .expr e := fun e he => hkind ⟨e, he⟩
        obtain ⟨v, hlast, hrun⟩ := ih hfirst last
        refine ⟨v, hlast.cons_stmt hx hne, fun rest o ho => ?_⟩
        exact .runFrom_stmt hne hx (hrun rest o ho)
    · exact absurd rfl (hne t)

end Interpreter

open Interpreter

/-- A program ends as the execution of its statements in the globals does, in the same state: with
the value that a statement returns, with an error where one leaves a loop or switch that is not
there, and else with the last value of an expression among the statements.  Where a statement fails
the program fails in the same way, and it is the same error, unless that statement is an expression
and no node inside of it has been blamed: then the statement, which has a span, is not blamed. -/
theorem run_of_execAll (i : Interpreter) (st : Store) (program : List Stmt) :
    (∀ v s, i.Ends st (fun ev => ev.execAll i.globals program) (.value (.ret v) s) →
      i.Ends st (fun ev => ev.runFrom i.globals .nil program) (.value v s)) ∧
    (∀ s, i.Ends st (fun ev => ev.execAll i.globals program) (.value .leave s) →
      ∃ e, i.Ends st (fun ev => ev.runFrom i.globals .nil program) (.error e s) ∧
        e.kind = .generic ∧ e.message = "break outside of loop or switch") ∧
    (∀ s, i.Ends st (fun ev => ev.execAll i.globals program) (.value .next s) →
      ∃ v, i.Ends st (fun ev => ev.runFrom i.globals .nil program) (.value v s) ∧
        i.LastValue st .nil program v) ∧
    (∀ e s, i.Ends st (fun ev => ev.execAll i.globals program) (.error e s) →
      ∃ x e', i.FailsAt st program x e s ∧
        i.Ends st (fun ev => ev.runFrom i.globals .nil program) (.error e' s) ∧
        e'.kind = e.kind ∧ e'.message = e.message ∧
        (e' = e ↔ ((∃ y, x.kind = .expr y) → x.span = .synthetic ∨ e'.span ≠ none)) ∧
        (e' ≠ e → e'.span = none ∧ e.span = some x.span)) := by
  refine ⟨fun v s h => ?_, fun s h => ?_, fun s h => ?_, fun e s h => ?_⟩
  · obtain ⟨first, x, rest, t, rfl, hfirst, hx⟩ := h.execAll_split nofun
    obtain ⟨w, -, hrun⟩ := hfirst.runFrom_append .nil
    exact hrun _ _ (.runFrom_stmt (hx.kind_ne_expr nofun) hx ⟨by simp, 0, rfl⟩)
  · obtain ⟨first, x, rest, t, rfl, hfirst, hx⟩ := h.execAll_split nofun
    obtain ⟨w, -, hrun⟩ := hfirst.runFrom_append .nil
    refine ⟨(EvalError.ofFault .strayBreak).blame x.span, ?_, ?_, ?_⟩
    · exact hrun _ _ (.runFrom_stmt (hx.kind_ne_expr nofun) hx ⟨by simp, 0, rfl⟩)
    · rw [EvalError.kind, EvalError.fault_blame]
      rfl
    · rw [EvalError.message, EvalError.fault_blame]
      rfl
  · obtain ⟨v, hlast, hrun⟩ := h.runFrom_append .nil
    refine ⟨v, ?_, hlast⟩
    rw [← List.append_nil program]
    exact hrun [] _ ⟨by simp, 0, rfl⟩
  · obtain ⟨first, x, rest, t, rfl, hfirst, hx⟩ := h.execAll_split nofun
    obtain ⟨w, -, hrun⟩ := hfirst.runFrom_append .nil
    obtain ⟨e', he', hsame⟩ := hx.runFrom_fails w rest
    exact ⟨x, e', ⟨first, rest, t, rfl, hfirst, hx⟩, hrun _ _ he', hsame⟩

/-- A program that ends with an empty statement has the value of the expression before it. -/
theorem run_of_execAll_last :
    let x : Expr := .synthetic (.identifier "x")
    let program : List Stmt := [.synthetic (.declare "x" (some (.synthetic (.number 1)))),
      .ofExpr (.synthetic (.step .increment true x)), .ofExpr x, .synthetic .empty]
    let i := (Interpreter.create {} {}).1
    let st := (Interpreter.create {} {}).2
    ∃ s, i.Ends st (fun ev => ev.execAll i.globals program) (.value .next s) ∧
      i.Ends st (fun ev => ev.runFrom i.globals .nil program) (.value (.number 2) s) ∧
      i.LastValue st .nil program (.number 2) := by
  intro x program i st
  obtain ⟨flow, s, hexec, hflow⟩ := Ends.of_passes i st
    (fun ev => ev.execAll i.globals program) (fun flow _ => decide (flow = Flow.next)) 6
    (by decide +kernel)
  obtain rfl := of_decide_eq_true hflow
  obtain ⟨v, hrun, hlast⟩ := (run_of_execAll i st program).2.2.1 s hexec
  obtain ⟨w, s', hrun', hw⟩ := Ends.of_passes i st
    (fun ev => ev.runFrom i.globals .nil program) (fun v _ => decide (v = .number 2)) 6
    (by decide +kernel)
  obtain rfl := of_decide_eq_true hw
  cases hrun.unique ((growing_operations i.globals).1 .nil program) hrun'
  exact ⟨s, hexec, hrun, hlast⟩

/-- A program of one expression, without a step to spend: its statement is blamed when it is
executed as a statement, and nothing is when it is run. -/
theorem run_unplaced :
    let p := Span.point 1 1
    let program : List Stmt := [.ofExpr ⟨p, .number 1⟩]
    let config : Config := { stepLimit := some 0 }
    let i := (Interpreter.create config {}).1
    let st := (Interpreter.create config {}).2
    ∃ e s, i.Ends st (fun ev => ev.execAll i.globals program) (.error e s) ∧ e.span = some p ∧
      ∀ s', ¬ i.Ends st (fun ev => ev.runFrom i.globals .nil program) (.error e s') := by
  intro p program config i st
  obtain ⟨e, s, hexec, he⟩ := Ends.of_fails i st (fun ev => ev.execAll i.globals program)
    (fun e => decide (e.span = some p)) 2 (by decide +kernel)
  obtain ⟨e', s', hrun, he'⟩ := Ends.of_fails i st
    (fun ev => ev.runFrom i.globals .nil program) (fun e => decide (e.span = none)) 2
    (by decide +kernel)
  refine ⟨e, s, hexec, of_decide_eq_true he, fun t ht => ?_⟩
  cases ht.unique ((growing_operations i.globals).1 .nil program) hrun
  have hnone : e.span = none := of_decide_eq_true he'
  rw [of_decide_eq_true he] at hnone
  cases hnone

end TreeWalk
