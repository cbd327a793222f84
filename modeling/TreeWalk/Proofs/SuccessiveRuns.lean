/-
# Successive runs

A program can be split: where the statements of a first part go on, each with the next one, the run
of the whole program is the run of the rest, begun where the run of the first part has ended
(`ends_runFrom_append_iff`).  All that the rest learns from the first part, besides the state, is
the value that a program has if it yields none of its own (`Evaluator.runFrom_eq_ownValue`): so the
two programs, run one after the other, come to the end of the whole (`run_append`).
-/
import TreeWalk.Proofs.TakenBreaks

namespace TreeWalk

namespace Evaluator

variable (ev : Evaluator) (c : ScopeRef)

/-- Execute a program in the scope `c`, with the value that it yields: the one that a statement
returns, or that of its last expression, if there is one. -/
def ownValue : List Stmt → Action (Option Value)
  | [] => pure none
  | s :: rest =>
    match s.kind with
    | .expr e => do
      let v ← ev.tick >>= fun _ => ev.expr e c
      return some ((← ownValue rest).getD v)
    | _ => do
      match ← ev.stmt s c with
      | .next => ownValue rest
      | .leave => Action.blame s.span (Action.raise .strayBreak)
      | .ret v => return some v

lemma ownValue_expr {s : Stmt} {e : Expr} (hkind : s.kind = .expr e) (rest : List Stmt) :
    ev.ownValue c (s :: rest) = (ev.tick >>= fun _ => ev.expr e c) >>= fun v => do
      return some ((← ev.ownValue c rest).getD v) := by
  simp only [ownValue, hkind]

lemma ownValue_cons {s : Stmt} (hkind : ∀ e, s.kind ≠ .expr e) (rest : List Stmt) :
    ev.ownValue c (s :: rest) = (do
      match ← ev.stmt s c with
      | .next => ev.ownValue c rest
      | .leave => Action.blame s.span (Action.raise .strayBreak)
      | .ret v => return some v) := by
  rw [ownValue]
  split
  · next e he => exact absurd he (hkind e)
  · rfl

/-- The value so far is the value of a program that yields none, and makes no other difference. -/
theorem runFrom_eq_ownValue (last : Value) (body : List Stmt) :
    ev.runFrom c last body = do return (← ev.ownValue c body).getD last := by
  induction body generalizing last with
  | nil => rfl
  | cons s rest ih =>
    by_cases hkind : ∃ e, s.kind = .expr e
    · obtain ⟨e, he⟩ := hkind
      simp only [runFrom_expr _ _ he, ownValue_expr _ _ he, bind_assoc, pure_bind, ih,
        Option.getD_some]
    · have hne : ∀ e, s.kind ≠ .expr e := fun e he => hkind ⟨e, he⟩
      rw [runFrom_cons _ _ hne, ownValue_cons _ _ hne, bind_assoc]
      congr 1
      funext flow
      cases flow with
      | next => exact ih last
      | leave =>
        -- a failure has no value to go on with
        funext state
        rfl
      | ret v => rfl

end Evaluator

namespace Interpreter

variable {i : Interpreter} {st : Store} {c : ScopeRef} {x : Stmt} {body first rest : List Stmt}
  {last v w : Value} {s t : State}

/-- The program yields a value: an expression at its top is evaluated, after the statements before
it have gone on, or a statement returns. -/
def Yields (i : Interpreter) (st : Store) (body : List Stmt) : Prop :=
  (∃ before x e after u, body = before ++ x :: after ∧ x.kind = .expr e ∧
      i.Ends st (fun ev => ev.execAll i.globals before) (.value .next u)) ∨
    ∃ v u, i.Ends st (fun ev => ev.execAll i.globals body) (.value (.ret v) u)

/-- A task that goes on where its first part has ended ends as the rest of it does. -/
lemma ends_bind_iff {α β : Type} {p : Evaluator → Action α} {f : α → Evaluator → Action β}
    (hp : Growing p) (hf : ∀ a, Growing (f a)) {a : α} (h : i.Ends st p (.value a t))
    {o : Outcome β} : i.Ends st (fun ev => p ev >>= fun a => f a ev) o ↔
      (i.after t).Ends t.store (f a) o := by
  refine ⟨fun ho => ?_, .bind hp hf h⟩
  rcases ho.of_bind with ⟨b, u, hb, hrest⟩ | ⟨e, u, he, -⟩
  · cases hb.unique hp h
    exact hrest
  · cases he.unique hp h

/-- A program whose first statement goes on ends as the rest of it does. -/
lemma ends_runFrom_cons_iff (hx : i.Ends st (fun ev => ev.stmt x c) (.value .next t))
    (last : Value) : ∃ v, ∀ rest o, i.Ends st (fun ev => ev.runFrom c last (x :: rest)) o ↔
      (i.after t).Ends t.store (fun ev => ev.runFrom c v rest) o := by
  have hgrows := fun v rest => (growing_operations c).1 v rest
  by_cases hkind : ∃ e, x.kind = .expr e
  · obtain ⟨e, he⟩ := hkind
    rcases hx.stmt_expr he with ⟨v, u, hu, -, htask⟩ | ⟨e', u, hu, -⟩
    · cases hu
      refine ⟨v, fun rest o => ?_⟩
      simp only [Evaluator.runFrom_expr _ _ he]
      exact ends_bind_iff (fun ev ev' h => .bind h.tick fun _ => h.expr e c)
        (fun w => hgrows w rest) htask
    · cases hu
  · have hne : ∀ e, x.kind ≠ .expr e := fun e he => hkind ⟨e, he⟩
    refine ⟨last, fun rest o => ?_⟩
    simp only [Evaluator.runFrom_cons _ _ hne]
    refine ends_bind_iff (f := fun flow ev => match flow with
      | .next => ev.runFrom c last rest
      | .leave => Action.blame x.span (Action.raise .strayBreak)
      | .ret v => pure v) ((growing_operations c).2.2.2.1 x) (fun flow => ?_) hx
    cases flow with
    | next => exact hgrows last rest
    | leave => exact fun _ _ _ => .refl _
    | ret v => exact fun _ _ _ => .refl _

/-- A program whose first statements go on, each with the next one, ends as the rest of it does. -/
lemma ends_runFrom_append_iff
    (h : i.Ends st (fun ev => ev.execAll c first) (.value .next t)) (last : Value) :
    ∃ v, ∀ rest o, i.Ends st (fun ev => ev.runFrom c last (first ++ rest)) o ↔
      (i.after t).Ends t.store (fun ev => ev.runFrom c v rest) o := by
  induction first generalizing i st last with
  | nil =>
    obtain ⟨-, n, hn⟩ := h
    cases hn
    exact ⟨last, fun rest o => .rfl⟩
  | cons x first ih =>
    rcases h.of_execAll_cons with ⟨u, hx, hfirst⟩ | ⟨hne, -⟩
    · obtain ⟨w, hw⟩ := ends_runFrom_cons_iff hx last
      obtain ⟨v, hv⟩ := ih hfirst w
      exact ⟨v, fun rest o => (hw (first ++ rest) o).trans (hv rest o)⟩
    · exact absurd rfl (hne t)

/-- Where a program comes to a value its statements go on, each with the next one, or one of them
returns the value. -/
lemma Ends.execAll_of_runFrom (h : i.Ends st (fun ev => ev.runFrom c last body) (.value v t)) :
    i.Ends st (fun ev => ev.execAll c body) (.value .next t) ∨
      i.Ends st (fun ev => ev.execAll c body) (.value (.ret v) t) := by
  induction body generalizing i st last with
  | nil =>
    obtain ⟨-, n, hn⟩ := h
    cases hn
    exact .inl ends_execAll_nil
  | cons x rest ih =>
    have hcons {u : State} {w : Value} (hx : i.Ends st (fun ev => ev.stmt x c) (.value .next u))
        (hrest : (i.after u).Ends u.store (fun ev => ev.runFrom c w rest) (.value v t)) :
        i.Ends st (fun ev => ev.execAll c (x :: rest)) (.value .next t) ∨
          i.Ends st (fun ev => ev.execAll c (x :: rest)) (.value (.ret v) t) :=
      (ih hrest).imp hx.execAll_cons hx.execAll_cons
    by_cases hkind : ∃ e, x.kind = .expr e
    · obtain ⟨e, he⟩ := hkind
      simp only [Evaluator.runFrom_expr _ _ he] at h
      rcases h.of_bind (x := fun ev => ev.tick >>= fun _ => ev.expr e c) with
        ⟨w, u, hw, hrest⟩ | ⟨e', u, -, he'⟩
      · exact hcons (hw.stmt_of_expr he) hrest
      · cases he'
    · simp only [Evaluator.runFrom_cons _ _ fun e he => hkind ⟨e, he⟩] at h
      rcases h.of_bind (x := fun ev => ev.stmt x c) with ⟨flow, u, hx, hrest⟩ | ⟨e', u, -, he'⟩
      · cases flow with
        | next => exact hcons hx hrest
        | leave =>
          obtain ⟨-, n, hn⟩ := hrest
          cases hn
        | ret w =>
          obtain ⟨-, n, hn⟩ := hrest
          cases hn
          exact .inr (hx.execAll_stops nofun)
      · cases he'

/-! ### The value that a program yields -/

/-- A program fails whatever value there is so far, where the execution for its own value does. -/
lemma ends_runFrom_error_iff {e : EvalError} :
    i.Ends st (fun ev => ev.runFrom c last body) (.error e s) ↔
      i.Ends st (fun ev => ev.ownValue c body) (.error e s) := by
  simp only [Evaluator.runFrom_eq_ownValue]
  constructor
  · intro h
    rcases h.of_bind (x := fun ev => ev.ownValue c body) with ⟨o, u, -, -, n, hn⟩ | ⟨e', u, he, heq⟩
    · cases hn
    · cases heq
      exact he
  · exact fun h => .bind_error h

/-- A program has the value so far if it does not yield one of its own. -/
lemma ends_runFrom_value_iff :
    i.Ends st (fun ev => ev.runFrom c last body) (.value v s) ↔
      ∃ o, i.Ends st (fun ev => ev.ownValue c body) (.value o s) ∧ v = o.getD last := by
  simp only [Evaluator.runFrom_eq_ownValue]
  constructor
  · intro h
    rcases h.of_bind (x := fun ev => ev.ownValue c body) with ⟨o, u, ho, -, n, hn⟩ | ⟨e, u, -, he⟩
    · cases hn
      exact ⟨o, ho, rfl⟩
    · cases he
  · rintro ⟨o, ⟨-, n, hn⟩, rfl⟩
    refine ⟨by simp, n, ?_⟩
    dsimp only at hn ⊢
    rw [Action.bind_apply, hn]
    rfl

/-- A program without a value of its own evaluates no expression at its top, and returns none. -/
lemma Ends.not_yields (h : i.Ends st (fun ev => ev.ownValue i.globals body) (.value none s)) :
    ¬ i.Yields st body := by
  -- nothing but statements that go on, none of which is an expression
  have hsilent : i.Ends st (fun ev => ev.execAll i.globals body) (.value .next s) ∧
      ∀ x ∈ body, ∀ e, x.kind ≠ .expr e := by
    induction body generalizing i st with
    | nil =>
      obtain ⟨-, n, hn⟩ := h
      cases hn
      exact ⟨ends_execAll_nil, nofun⟩
    | cons x rest ih =>
      by_cases hkind : ∃ e, x.kind = .expr e
      · obtain ⟨e, he⟩ := hkind
        simp only [Evaluator.ownValue_expr _ _ he] at h
        rcases h.of_bind (x := fun ev => ev.tick >>= fun _ => ev.expr e i.globals) with
          ⟨v, u, -, hrest⟩ | ⟨e', u, -, he'⟩
        · rcases hrest.of_bind (x := fun ev => ev.ownValue i.globals rest) with
            ⟨o, w, -, -, n, hn⟩ | ⟨e', w, -, he'⟩
          · cases hn
          · cases he'
        · cases he'
      · have hne : ∀ e, x.kind ≠ .expr e := fun e he => hkind ⟨e, he⟩
        simp only [Evaluator.ownValue_cons _ _ hne] at h
        rcases h.of_bind (x := fun ev => ev.stmt x i.globals) with
          ⟨flow, u, hx, hrest⟩ | ⟨e', u, -, he'⟩
        · cases flow with
          | next =>
            obtain ⟨hnext, hnone⟩ := ih hrest
            exact ⟨hx.execAll_cons hnext, List.forall_mem_cons.mpr ⟨hne, hnone⟩⟩
          | leave => obtain ⟨-, n, hn⟩ := hrest; cases hn
          | ret v => obtain ⟨-, n, hn⟩ := hrest; cases hn
        · cases he'
  rintro (⟨before, x, e, after, u, rfl, hx, -⟩ | ⟨v, u, hret⟩)
  · exact hsilent.2 x (by simp) e hx
  · cases hsilent.1.unique ((growing_operations i.globals).2.2.2.2.1 body) hret

/-- A program has a value of its own from an expression at its top or from a statement that
returns. -/
lemma Ends.yields (h : i.Ends st (fun ev => ev.ownValue i.globals body) (.value (some v) s)) :
    i.Yields st body := by
  induction body generalizing i st with
  | nil =>
    obtain ⟨-, n, hn⟩ := h
    cases hn
  | cons x rest ih =>
    by_cases hkind : ∃ e, x.kind = .expr e
    · obtain ⟨e, he⟩ := hkind
      exact .inl ⟨[], x, e, rest, _, rfl, he, ends_execAll_nil⟩
    · have hne : ∀ e, x.kind ≠ .expr e := fun e he => hkind ⟨e, he⟩
      simp only [Evaluator.ownValue_cons _ _ hne] at h
      rcases h.of_bind (x := fun ev => ev.stmt x i.globals) with
        ⟨flow, u, hx, hrest⟩ | ⟨e', u, -, he'⟩
      · cases flow with
        | next =>
          rcases ih hrest with ⟨before, y, e, after, w, rfl, hy, hbefore⟩ | ⟨w, u', hret⟩
          · exact .inl ⟨x :: before, y, e, after, w, rfl, hy, hx.execAll_cons hbefore⟩
          · exact .inr ⟨w, u', hx.execAll_cons hret⟩
        | leave => obtain ⟨-, n, hn⟩ := hrest; cases hn
        | ret w => exact .inr ⟨w, u, hx.execAll_stops nofun⟩
      · cases he'

end Interpreter

open Interpreter

/-- A program may be split over successive runs.  Let the run of a first part come to a value, with
statements that all go on, each with the next one.  Then the run of the whole program ends if and
only if the run of the rest does that is begun where the first run has ended: with the same error,
or with a value, in the same state.  The value is that of the run of the rest if that evaluates an
expression at its top or is ended by a statement that returns, and otherwise that of the first
run. -/
theorem run_append (i : Interpreter) (st : Store) (first : List Stmt) (v : Value) (t : State)
    (hrun : i.Ends st (fun ev => ev.runFrom i.globals .nil first) (.value v t))
    (hflow : ∀ flow s, i.Ends st (fun ev => ev.execAll i.globals first) (.value flow s) →
      flow = .next) (rest : List Stmt) :
    (∀ e s, i.Ends st (fun ev => ev.runFrom i.globals .nil (first ++ rest)) (.error e s) ↔
      (i.after t).Ends t.store (fun ev => ev.runFrom i.globals .nil rest) (.error e s)) ∧
    ∀ u s, i.Ends st (fun ev => ev.runFrom i.globals .nil (first ++ rest)) (.value u s) ↔
      ∃ w, (i.after t).Ends t.store (fun ev => ev.runFrom i.globals .nil rest) (.value w s) ∧
        ((i.after t).Yields t.store rest ∧ u = w ∨ ¬ (i.after t).Yields t.store rest ∧ u = v) := by
  have hnext : i.Ends st (fun ev => ev.execAll i.globals first) (.value .next t) :=
    hrun.execAll_of_runFrom.resolve_right fun hret => nomatch hflow _ _ hret
  obtain ⟨v', hsplit⟩ := ends_runFrom_append_iff hnext .nil
  -- the value so far that the rest begins with is that of the first run
  obtain rfl : v' = v := by
    obtain ⟨-, n, hn⟩ := (hsplit [] (.value v t)).mp (by rwa [List.append_nil])
    cases hn
    rfl
  refine ⟨fun e s => ?_, fun u s => ?_⟩
  · rw [hsplit, ends_runFrom_error_iff, ends_runFrom_error_iff]
  · rw [hsplit, ends_runFrom_value_iff]
    constructor
    · rintro ⟨o, ho, rfl⟩
      refine ⟨o.getD .nil, ends_runFrom_value_iff.mpr ⟨o, ho, rfl⟩, ?_⟩
      cases o with
      | none => exact .inr ⟨ho.not_yields, rfl⟩
      | some w => exact .inl ⟨ho.yields, rfl⟩
    · rintro ⟨w, hw, hvalue⟩
      obtain ⟨o, ho, rfl⟩ := ends_runFrom_value_iff.mp hw
      refine ⟨o, ho, ?_⟩
      cases o with
      | none => exact hvalue.elim (fun h => absurd h.1 ho.not_yields) fun h => h.2
      | some w => exact hvalue.elim (fun h => h.2) fun h => absurd ho.yields h.1

/-- The second of two runs goes on with the bindings and with the budget of the first one, and has a
value of its own: that of an expression before its last statement, which is empty. -/
theorem run_append_counted :
    let x : Expr := .synthetic (.identifier "x")
    let first : List Stmt :=
      [.synthetic (.declare "x" (some (.synthetic (.number 1)))), .ofExpr x]
    let rest : List Stmt := [.ofExpr (.synthetic (.step .increment true x)), .synthetic .empty]
    let i := (Interpreter.create { stepLimit := some 9 } {}).1
    let st := (Interpreter.create { stepLimit := some 9 } {}).2
    ∃ t s, i.Ends st (fun ev => ev.runFrom i.globals .nil first) (.value (.number 1) t) ∧
      (∀ flow s, i.Ends st (fun ev => ev.execAll i.globals first) (.value flow s) →
        flow = .next) ∧
      i.Ends st (fun ev => ev.runFrom i.globals .nil (first ++ rest)) (.value (.number 2) s) ∧
      (i.after t).Ends t.store (fun ev => ev.runFrom i.globals .nil rest) (.value (.number 2) s) ∧
      (i.after t).Yields t.store rest := by
  intro x first rest i st
  obtain ⟨v, t, hrun, hv⟩ := Ends.of_passes i st (fun ev => ev.runFrom i.globals .nil first)
    (fun v _ => decide (v = .number 1)) 5 (by decide +kernel)
  obtain rfl := of_decide_eq_true hv
  obtain ⟨flow, t', hexec, hnext⟩ := Ends.of_passes i st (fun ev => ev.execAll i.globals first)
    (fun flow _ => decide (flow = .next)) 5 (by decide +kernel)
  obtain ⟨u, s, hwhole, hu⟩ := Ends.of_passes i st
    (fun ev => ev.runFrom i.globals .nil (first ++ rest))
    (fun u _ => decide (u = .number 2)) 5 (by decide +kernel)
  obtain rfl := of_decide_eq_true hu
  have hflow : ∀ flow s, i.Ends st (fun ev => ev.execAll i.globals first) (.value flow s) →
      flow = .next := by
    intro flow' s' h
    cases h.unique ((growing_operations i.globals).2.2.2.2.1 first) hexec
    exact of_decide_eq_true hnext
  obtain ⟨w, hw, ⟨hyields, rfl⟩ | ⟨-, hsame⟩⟩ :=
    ((run_append i st first _ t hrun hflow rest).2 _ s).mp hwhole
  · exact ⟨t, s, hrun, hflow, hwhole, hw, hyields⟩
  · cases hsame

end TreeWalk
