/-
# To step is to assign

`++e` is `e = e + 1`: both evaluate `e`, and then walk to the target `e` with the number next to the
one that they have got (`step_as_assignment`).  The assignment takes two steps more, one for the sum
and one for the literal, and all that comes after these is done that much later.  So nothing may be
in reach that looks at the number of steps: to an operand that does, the two are not the same
(`step_not_assignment`).
-/
import TreeWalk.Proofs.Intact
import TreeWalk.Proofs.Rejections
import TreeWalk.Proofs.SimpleOperands
import TreeWalk.Proofs.Uncounted

namespace TreeWalk

/-- The operator with two operands that a step is made with. -/
def StepOp.binary : StepOp → BinaryOp
  | .increment => .add
  | .decrement => .sub

/-- The assignment of the number next to the one that the operand has: `e = e + 1` for `++e`. -/
def StepOp.assignment (op : StepOp) (e : Expr) : ExprKind :=
  .assign e (.synthetic (.binary e op.binary (.synthetic (.number 1))))

/-- The second outcome is the first one two steps later, except that an error may come sooner. -/
inductive Outcome.Ahead {α : Type} : Outcome α → Outcome α → Prop
  | value (a : α) (s : State) : Ahead (.value a s) (.value a (s.later 2))
  | error (e : EvalError) (s : State) {d : Nat} (hd : d ≤ 2) :
      Ahead (.error e s) (.error e (s.later d))
  | unfinished : Ahead .unfinished .unfinished

lemma StepOp.apply_binary (op : StepOp) (n : Int64) :
    op.binary.apply (.number n) (.number 1) = .ok (.number (op.apply n)) := by
  cases op <;> rfl

namespace Outcome

variable {α : Type} {o : Outcome α}

lemma blame_eq_value {span : Span} {a : α} {s : State} :
    o.blame span = .value a s ↔ o = .value a s := by
  cases o <;> simp [blame]

lemma blame_eq_error {span : Span} {e : EvalError} {s : State} :
    o.blame span = .error e s ↔ ∃ e', o = .error e' s ∧ e'.blame span = e := by
  cases o <;> simp [blame, and_comm, and_assoc]

lemma ahead_later (o : Outcome α) : o.Ahead (o.later 2) := by
  cases o with
  | value a s => exact .value a s
  | error e s => exact .error e s (Nat.le_refl 2)
  | unfinished => exact .unfinished

lemma ahead_of_no_value (h : ∀ a s, o ≠ .value a s) : o.Ahead (o.later 1) := by
  cases o with
  | value a s => exact absurd rfl (h a s)
  | error e s => exact .error e s (Nat.le_succ 1)
  | unfinished => exact .unfinished

namespace Ahead

variable {o' : Outcome α}

lemma blame (h : o.Ahead o') (span : Span) : (o.blame span).Ahead (o'.blame span) := by
  cases h with
  | value a s => exact .value a s
  | error e s hd => exact .error _ s hd
  | unfinished => exact .unfinished

lemma eq_unfinished_iff (h : o.Ahead o') : o = .unfinished ↔ o' = .unfinished := by
  cases h <;> simp

end Ahead

end Outcome

namespace Evaluator

variable {ev : Evaluator} {c : ScopeRef} {s t : State} {e : Expr} {v : Value} {n : Int64}

lemma evalAssign_apply {value : Expr} (h : ev.expr value c s = .value v t) (target : Expr) :
    ev.evalAssign c target value s = (ev.assign target v c t).answer v := by
  rw [evalAssign, Action.bind_apply, h]
  show (ev.assign target v c >>= fun _ => pure v) t = _
  rw [Action.bind_apply]
  cases ev.assign target v c t <;> rfl

/-- A step comes to a value if the operand has a number and the next one can be written to it. -/
lemma evalStep_eq_value {op : StepOp} {before : Bool} :
    ev.evalStep c op before e s = .value v t ↔ ∃ n u, ev.expr e c s = .value (.number n) u ∧
      ev.assign e (.number (op.apply n)) c u = .value () t ∧
      v = .number (if before then op.apply n else n) := by
  constructor
  · intro h
    cases ho : ev.expr e c s with
    | value w u =>
      cases w with
      | number n =>
        rw [evalStep_number ho] at h
        cases hassign : ev.assign e (.number (op.apply n)) c u <;> rw [hassign] at h <;> cases h
        exact ⟨n, u, rfl, hassign, rfl⟩
      | _ => rw [evalStep, Action.bind_apply, ho] at h; cases h
    | _ => rw [evalStep, Action.bind_apply, ho] at h; cases h
  · rintro ⟨n, u, hread, hassign, rfl⟩
    rw [evalStep_number hread, hassign]
    rfl

/-- A step that answers the number read first ends where the one that answers the next does. -/
lemma evalStep_postfix_eq_value {op : StepOp} :
    ev.evalStep c op false e s = .value v t ↔ ∃ n u, v = .number n ∧
      ev.expr e c s = .value (.number n) u ∧
      ev.evalStep c op true e s = .value (.number (op.apply n)) t := by
  simp only [evalStep_eq_value]
  constructor
  · rintro ⟨n, u, hread, hassign, rfl⟩
    exact ⟨n, u, rfl, hread, n, u, hread, hassign, rfl⟩
  · rintro ⟨n, u, rfl, hread, m, u', hread', hassign, -⟩
    cases hread.symm.trans hread'
    exact ⟨n, u, hread, hassign, rfl⟩

/-- How a step fails does not depend on which value it has. -/
lemma evalStep_error {op : StepOp} {before : Bool} {err : EvalError}
    (h : ev.evalStep c op before e s = .error err t) (before' : Bool) :
    ev.evalStep c op before' e s = .error err t := by
  cases ho : ev.expr e c s with
  | value w u =>
    cases w with
    | number n =>
      rw [evalStep_number ho] at h ⊢
      cases hassign : ev.assign e (.number (op.apply n)) c u <;> rw [hassign] at h <;> cases h
      rfl
    | _ => rw [evalStep, Action.bind_apply, ho] at h ⊢; exact h
  | _ => rw [evalStep, Action.bind_apply, ho] at h ⊢; exact h

lemma evalStep_postfix_eq_error {op : StepOp} {err : EvalError} :
    ev.evalStep c op false e s = .error err t ↔ ev.evalStep c op true e s = .error err t :=
  ⟨fun h => evalStep_error h true, fun h => evalStep_error h false⟩

/-- What is no number is refused. -/
lemma evalStep_failsWith (h : ev.expr e c s = .value v t) (hv : ∀ n, v ≠ .number n) (op : StepOp)
    (before : Bool) :
    (ev.evalStep c op before e s).FailsWith (.notAssignable (t.store.text v)) t := by
  rw [evalStep, Action.bind_apply, h]
  cases v with
  | number n => exact absurd rfl (hv n)
  | _ => exact refuse_failsWith _ _ t

end Evaluator

namespace Setting

open Region

variable {R : Region} {σ : Setting} {w : Store} {c : ScopeRef} {s t : State} {e : Expr} {n : Int64}
  (op : StepOp) (hsteps : ¬ R.allows .steps)
  (hglobals : ∀ {n}, R.allows n → .scope σ.globals ∈ R.start)
  (hlimit : σ.config.stepLimit = none) (hc : R.Inside w c) (hs : R.From w s)
include hsteps hglobals hlimit hc hs

/-- The sum that is assigned is the number next to the one that is read. -/
lemma full_sum_number (h : σ.full.expr e c s = .value (.number n) t) :
    σ.full.expr (.synthetic (.binary e op.binary (.synthetic (.number 1)))) c s =
      .value (.number (op.apply n)) (t.later 2) := by
  -- one step is that of the sum, before the operand, and one that of the literal, after it
  have hread : σ.full.expr e c (s.later 1) = .value (.number n) (t.later 1) := by
    rw [full_expr_later hsteps hglobals hlimit hc hs, h]
    rfl
  have hone : σ.full.expr (.synthetic (.number 1)) c (t.later 1) = .value (.number 1) (t.later 2) :=
    full_expr_apply (mayStep_of_none hlimit _) _ c
  have hsum : σ.full.evalBoth c e op.binary (.synthetic (.number 1)) (s.later 1) =
      .value (.number (op.apply n)) (t.later 2) := by
    rw [Evaluator.evalBoth, Action.bind_apply, hread]
    show (σ.full.expr (.synthetic (.number 1)) c >>= _) (t.later 1) = _
    rw [Action.bind_apply, hone]
    show Action.ofExcept (op.binary.apply (.number n) (.number 1)) (t.later 2) = _
    rw [op.apply_binary]
    rfl
  rw [full_expr_apply (mayStep_of_none hlimit _), Expr.synthetic, Outcome.blame_synthetic]
  cases op <;> exact hsum

/-- Without a value there is nothing to add to. -/
lemma full_sum_of_no_value (h : ∀ v t, σ.full.expr e c s ≠ .value v t) :
    σ.full.expr (.synthetic (.binary e op.binary (.synthetic (.number 1)))) c s =
      (σ.full.expr e c s).later 1 := by
  have hread := full_expr_later hsteps hglobals hlimit hc hs e 1
  have hsum : σ.full.evalBoth c e op.binary (.synthetic (.number 1)) (s.later 1) =
      (σ.full.expr e c s).later 1 := by
    rw [Evaluator.evalBoth, Action.bind_apply, hread]
    cases ho : σ.full.expr e c s with
    | value v t => exact absurd ho (h v t)
    | _ => rfl
  rw [full_expr_apply (mayStep_of_none hlimit _), Expr.synthetic, Outcome.blame_synthetic]
  cases op <;> exact hsum

/-- To assign the next number is to step, two steps later. -/
lemma evalKind_assignment_number (h : σ.full.expr e c s = .value (.number n) t) :
    σ.full.evalKind c (op.assignment e) s = (σ.full.evalStep c op true e s).later 2 := by
  -- the operand may have changed what is in reach, but nothing in it has come from outside
  have run : R.Run s t :=
    (full_expr_kept hsteps hglobals hlimit hc hs e).run (by rw [h]; constructor)
  have hassign := full_assign_later hsteps hglobals hlimit (hc.mono (hs.run run).le)
    ⟨le_rfl, run.valid⟩ e (inside_of_node?_eq_none (v := .number (op.apply n)) rfl) 2
  rw [Evaluator.evalStep_number h]
  refine (Evaluator.evalAssign_apply
    (full_sum_number op hsteps hglobals hlimit hc hs h) e).trans ?_
  rw [hassign]
  cases σ.full.assign e (.number (op.apply n)) c t <;> rfl

lemma evalKind_assignment_of_no_value (h : ∀ v t, σ.full.expr e c s ≠ .value v t) :
    σ.full.evalKind c (op.assignment e) s = (σ.full.evalStep c op true e s).later 1 := by
  have hsum := full_sum_of_no_value op hsteps hglobals hlimit hc hs h
  show σ.full.evalAssign c e _ s = _
  rw [Evaluator.evalAssign, Action.bind_apply, hsum, Evaluator.evalStep, Action.bind_apply]
  cases ho : σ.full.expr e c s with
  | value v t => exact absurd ho (h v t)
  | _ => rfl

/-- Where there is a number to step, if any value, the step comes to its end ahead of the
assignment. -/
lemma evalStep_ahead (h : ∀ v t, σ.full.expr e c s = .value v t → ∃ n, v = .number n) :
    (σ.full.evalStep c op true e s).Ahead (σ.full.evalKind c (op.assignment e) s) := by
  cases ho : σ.full.expr e c s with
  | value v t =>
    obtain ⟨n, rfl⟩ := h v t ho
    rw [evalKind_assignment_number op hsteps hglobals hlimit hc hs ho]
    exact Outcome.ahead_later _
  | _ =>
    have hno : ∀ v t, σ.full.expr e c s ≠ .value v t := by simp [ho]
    rw [evalKind_assignment_of_no_value op hsteps hglobals hlimit hc hs hno]
    refine Outcome.ahead_of_no_value fun v t hstep => ?_
    rw [Evaluator.evalStep, Action.bind_apply, ho] at hstep
    cases hstep

end Setting

open Interpreter Region in
/-- Without a step limit, and without a builtin in reach that looks at the number of steps, a step
is the assignment of the next number: if the first evaluation of the operand comes to a number, or
to no value, then both come to an end or neither does, with the same value, two steps later for the
assignment, or with the same error, and in the same store.  A step that answers the number read
first is the same with that number for its value.  If the first evaluation comes to another value,
the step fails in the state that this has left. -/
theorem step_as_assignment (i : Interpreter) (st : Store) (c : ScopeRef) (span : Span) (op : StepOp)
    (e : Expr) (hlimit : i.config.stepLimit = none)
    (hsteps : ∀ r, st.Reaches (.scope c) (.builtin r) → (st.builtin r).native ≠ .steps)
    (hglobals : ∀ r r', st.Reaches (.scope c) (.builtin r) →
      st.Reaches (.scope i.globals) (.builtin r') → (st.builtin r').native ≠ .steps) :
    let Read o := i.ticked.Ends st (fun ev => ev.expr e c) o
    let Stepped before o := i.Ends st (fun ev => ev.expr ⟨span, .step op before e⟩ c) o
    let Assigned o := i.Ends st (fun ev => ev.expr ⟨span, op.assignment e⟩ c) o
    ((∀ v t, Read (.value v t) → ∃ n, v = .number n) →
      (∀ o, Stepped true o → ∃ o', Assigned o' ∧ o.Ahead o') ∧
      ∀ o', Assigned o' → ∃ o, Stepped true o ∧ o.Ahead o') ∧
    ((∀ v s, Stepped false (.value v s) ↔ ∃ n t, v = .number n ∧ Read (.value (.number n) t) ∧
        Stepped true (.value (.number (op.apply n)) s)) ∧
      ∀ err s, Stepped false (.error err s) ↔ Stepped true (.error err s)) ∧
    ∀ v t, Read (.value v t) → (∀ n, v ≠ .number n) → ∀ before,
      i.FailsWith st ⟨span, .step op before e⟩ c (.notAssignable (t.store.text v)) t := by
  intro Read Stepped Assigned
  have hbudget : i.MayStep (i.start st) := Setting.mayStep_of_none hlimit _
  have hread (o : Outcome Value) :
      Read o ↔ o ≠ .unfinished ∧ i.full.expr e c (i.start st).ticked = o := ends_expr_iff
  have hstepped (before : Bool) (o : Outcome Value) : Stepped before o ↔ o ≠ .unfinished ∧
      (i.full.evalStep c op before e (i.start st).ticked).blame span = o :=
    ends_expr_iff_evalKind hbudget
  have hassigned (o : Outcome Value) : Assigned o ↔ o ≠ .unfinished ∧
      (i.full.evalKind c (op.assignment e) (i.start st).ticked).blame span = o :=
    ends_expr_iff_evalKind hbudget
  refine ⟨fun hnumber => ?_, ⟨fun v s => ?_, fun err s => ?_⟩, fun v t h hv before => ?_⟩
  · -- nobody counts steps in the region of all that the two evaluations may come across
    have hahead := (Setting.evalStep_ahead (σ := i.toSetting) op
      (not_allows_reached hsteps hglobals) (globals_mem_reached hsteps hglobals) hlimit
      (inside_reached hsteps hglobals) (s := (i.start st).ticked) ⟨le_rfl, valid_base _⟩
      fun v t h => hnumber v t ((hread _).mpr ⟨by simp, h⟩)).blame span
    refine ⟨fun o h => ?_, fun o' h => ?_⟩
    · obtain ⟨ho, rfl⟩ := (hstepped true o).mp h
      exact ⟨_, (hassigned _).mpr ⟨mt hahead.eq_unfinished_iff.mpr ho, rfl⟩, hahead⟩
    · obtain ⟨ho, rfl⟩ := (hassigned o').mp h
      exact ⟨_, (hstepped true _).mpr ⟨mt hahead.eq_unfinished_iff.mp ho, rfl⟩, hahead⟩
  · simp [hstepped, hread, Outcome.blame_eq_value, Evaluator.evalStep_postfix_eq_value]
  · simp [hstepped, Outcome.blame_eq_error, Evaluator.evalStep_postfix_eq_error]
  · exact failsWith_of_evalKind hbudget
      (Evaluator.evalStep_failsWith ((hread _).mp h).2 hv op before)

open Interpreter in
/-- With `n` at one, `++[n++][0]` is two, and so is `[n++][0] = [n++][0] + 1`; both walk to the
target as well, so that `n` comes to be three. -/
theorem step_as_assignment_effect :
    let e : Expr := .synthetic (.index (.synthetic (.array [.synthetic
      (.step .increment false (.synthetic (.identifier "n")))])) (.synthetic (.number 0)))
    let i := (Interpreter.create {} {}).1
    let st := (Interpreter.create {} {}).2.define i.globals "n" (.number 1)
    i.config.stepLimit = none ∧ (∀ r, ¬ st.Reaches (.scope i.globals) (.builtin r)) ∧
      ∃ s s', i.Ends st (fun ev => ev.expr (.synthetic (.step .increment true e)) i.globals)
          (.value (.number 2) s) ∧
        i.Ends st (fun ev => ev.expr (.synthetic (StepOp.increment.assignment e)) i.globals)
          (.value (.number 2) s') ∧
        s'.store = s.store ∧ s'.steps = s.steps + 2 ∧
        s.store.lookup i.globals "n" = .found (.number 3) := by
  intro e i st
  have hst : st.Intact := (Interpreter.intact_create Store.intact_empty {}).of_edits
    (Store.edits_define _ _ _ _) (by nofun)
  have hnone := hst.not_reaches_builtin (n := .scope i.globals) rfl (by decide)
  obtain ⟨v, t, hread, hv⟩ := Ends.of_passes i.ticked st (fun ev => ev.expr e i.globals)
    (fun v _ => decide (v = .number 1)) 5 (by decide +kernel)
  obtain rfl := of_decide_eq_true hv
  obtain ⟨v, s, hstep, hv⟩ := Ends.of_passes i st
    (fun ev => ev.expr (.synthetic (.step .increment true e)) i.globals)
    (fun v s => decide (v = .number 2 ∧ s.store.lookup i.globals "n" = .found (.number 3))) 6
    (by decide +kernel)
  obtain ⟨rfl, hthree⟩ := of_decide_eq_true hv
  have hnumber : ∀ v t, i.ticked.Ends st (fun ev => ev.expr e i.globals) (.value v t) →
      ∃ n, v = .number n := fun v t h => by
    cases hread.unique ((growing_operations _).2.1 e) h
    exact ⟨1, rfl⟩
  obtain ⟨o', hassign, hahead⟩ := ((step_as_assignment i st i.globals .synthetic .increment e rfl
    (fun r hr => absurd hr (hnone r)) fun r _ hr => absurd hr (hnone r)).1 hnumber).1 _ hstep
  cases hahead with
  | value => exact ⟨rfl, hnone, s, _, hstep, hassign, rfl, rfl, hthree⟩

open Interpreter in
/-- With the number of steps taken for an operand, the assignment finds another number than the step
does. -/
theorem step_not_assignment :
    let e : Expr := .synthetic (.index (.synthetic (.array [.synthetic
      (.call (.synthetic (.identifier "steps")) [])])) (.synthetic (.number 0)))
    let i := (Interpreter.create {} {}).1
    let st := i.defineBuiltin (Interpreter.create {} {}).2 ⟨"steps", .steps⟩
    i.config.stepLimit = none ∧
      (∃ t, i.ticked.Ends st (fun ev => ev.expr e i.globals) (.value (.number 5) t)) ∧
      (∃ s, i.Ends st (fun ev => ev.expr (.synthetic (.step .increment true e)) i.globals)
        (.value (.number 6) s)) ∧
      (∃ s, i.Ends st (fun ev => ev.expr (.synthetic (StepOp.increment.assignment e)) i.globals)
        (.value (.number 7) s)) ∧
      ∀ s, ¬ i.Ends st (fun ev => ev.expr (.synthetic (StepOp.increment.assignment e)) i.globals)
        (.value (.number 6) s) := by
  intro e i st
  obtain ⟨v, t, hread, hv⟩ := Ends.of_passes i.ticked st (fun ev => ev.expr e i.globals)
    (fun v _ => decide (v = .number 5)) 6 (by decide +kernel)
  obtain rfl := of_decide_eq_true hv
  -- the second walk along the operand evaluates it again, but writes to an array of its own
  obtain ⟨v, s, hstep, hv⟩ := Ends.of_passes i st
    (fun ev => ev.expr (.synthetic (.step .increment true e)) i.globals)
    (fun v _ => decide (v = .number 6)) 6 (by decide +kernel)
  obtain rfl := of_decide_eq_true hv
  obtain ⟨v, s', hassign, hv⟩ := Ends.of_passes i st
    (fun ev => ev.expr (.synthetic (StepOp.increment.assignment e)) i.globals)
    (fun v _ => decide (v = .number 7)) 7 (by decide +kernel)
  obtain rfl := of_decide_eq_true hv
  refine ⟨rfl, ⟨t, hread⟩, ⟨s, hstep⟩, ⟨s', hassign⟩, fun u h => ?_⟩
  cases hassign.unique ((growing_operations _).2.1 _) h

end TreeWalk
