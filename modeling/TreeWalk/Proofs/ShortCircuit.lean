/-
# The laws of short-circuit logic

To join conditions is to join the actions that evaluate them, and these joins obey De Morgan's laws
and are associative, whatever the actions do (`Action.negation_conjunction` and the lemmas after
it).  Expressions evaluate as such joins of their operands do, up to the steps that are taken for
the operators in between (`Region.SameUncounted`).  So the laws hold for expressions as long as
nobody looks at the number of steps (`shortCircuit_laws`); to an operand that does, the two sides of
a law are not the same (`disjunction_counted`).
-/
import TreeWalk.Proofs.Intact
import TreeWalk.Proofs.Uncounted

namespace TreeWalk

/-! ### Conditions that were made and not read -/

namespace Expr

/-- The negation `!e`. -/
def not (e : Expr) : Expr := synthetic (.unary .not e)

/-- The conjunction `a && b`. -/
def and (a b : Expr) : Expr := synthetic (.binary a .and b)

/-- The disjunction `a || b`. -/
def or (a b : Expr) : Expr := synthetic (.binary a .or b)

/-- The conditional `a ? b : d`. -/
def cond (a b d : Expr) : Expr := synthetic (.conditional a b d)

/-- The literal of a boolean. -/
def bool (b : Bool) : Expr := synthetic (.bool b)

/-- The expression in parentheses. -/
def parens (e : Expr) : Expr := synthetic (.paren e)

end Expr

/-! ### Joins of conditions -/

lemma Value.truth_bool (b : Bool) : (Value.bool b).truth = b := rfl

namespace Action

/-- Whether `x` does not hold. -/
def negation (x : Action Value) : Action Value := do return .bool !(← x).truth

/-- Whether both hold, where `y` is asked only if `x` holds. -/
def conjunction (x y : Action Value) : Action Value := do
  if (← x).truth then return .bool (← y).truth else return .bool false

/-- The first of the two that holds, or the second one. -/
def disjunction (x y : Action Value) : Action Value := do
  let v ← x
  if v.truth then return v else y

/-- The one or the other of two actions. -/
def choice (x y z : Action Value) : Action Value := do if (← x).truth then y else z

variable (x y z : Action Value)

lemma negation_conjunction :
    negation (conjunction x y) = disjunction (negation x) (negation y) := by
  simp only [negation, conjunction, disjunction, bind_assoc, pure_bind]
  refine bind_congr fun v => ?_
  cases h : v.truth <;> simp [Value.truth_bool]

lemma negation_disjunction :
    negation (disjunction x y) = conjunction (negation x) (negation y) := by
  simp only [negation, conjunction, disjunction, bind_assoc, pure_bind]
  refine bind_congr fun v => ?_
  cases h : v.truth <;> simp [Value.truth_bool, h]

/-- A conjunction answers the truth of its second operand, which is what a double negation does. -/
lemma conjunction_eq_choice :
    conjunction x y = choice x (negation (negation y)) (pure (.bool false)) := by
  simp only [negation, conjunction, choice, bind_assoc, pure_bind]
  refine bind_congr fun v => ?_
  cases h : v.truth <;> simp [Value.truth_bool]

lemma conjunction_assoc :
    conjunction (conjunction x y) z = conjunction x (conjunction y z) := by
  simp only [conjunction, bind_assoc]
  refine bind_congr fun v => ?_
  cases h : v.truth with
  | false => simp [Value.truth_bool]
  | true =>
    simp only [if_true, bind_assoc]
    refine bind_congr fun u => ?_
    cases h : u.truth <;> simp [Value.truth_bool]

lemma disjunction_assoc :
    disjunction (disjunction x y) z = disjunction x (disjunction y z) := by
  simp only [disjunction, bind_assoc]
  refine bind_congr fun v => ?_
  cases h : v.truth <;> simp [h]

end Action

/-! ### The same but for the steps -/

/-- The state without the number of steps. -/
def State.uncounted (s : State) : State := { s with steps := 0 }

/-- The outcome without the number of steps. -/
def Outcome.uncounted {α : Type} : Outcome α → Outcome α
  | .value a s => .value a s.uncounted
  | .error e s => .error e s.uncounted
  | .unfinished => .unfinished

namespace Outcome

variable {α : Type} {o : Outcome α}

lemma uncounted_later (d : Nat) (o : Outcome α) : (o.later d).uncounted = o.uncounted := by
  cases o <;> rfl

lemma uncounted_eq_value {a : α} {s : State} (h : o.uncounted = .value a s) :
    ∃ t, o = .value a t ∧ t.uncounted = s := by
  cases o with
  | value b t =>
    cases h
    exact ⟨t, rfl, rfl⟩
  | _ => cases h

lemma uncounted_eq_error {e : EvalError} {s : State} (h : o.uncounted = .error e s) :
    ∃ t, o = .error e t ∧ t.uncounted = s := by
  cases o with
  | error e t =>
    cases h
    exact ⟨t, rfl, rfl⟩
  | _ => cases h

lemma uncounted_eq_unfinished : o.uncounted = .unfinished ↔ o = .unfinished := by
  cases o <;> simp [uncounted]

end Outcome

/-- Of two states that are the same but for the steps, one is the other one some steps later. -/
lemma State.later_of_uncounted_eq {s s' : State} (h : s'.uncounted = s.uncounted) :
    (∃ d, s' = s.later d) ∨ ∃ d, s = s'.later d := by
  obtain ⟨store, depth, steps⟩ := s
  obtain ⟨store', depth', steps'⟩ := s'
  obtain ⟨rfl, rfl⟩ : store' = store ∧ depth' = depth := by simpa [uncounted] using h
  rcases Nat.le_total steps steps' with hle | hle
  · exact .inl ⟨steps' - steps, by simp [later, Nat.add_sub_cancel' hle]⟩
  · exact .inr ⟨steps - steps', by simp [later, Nat.add_sub_cancel' hle]⟩

namespace Region

variable {R : Region} {w w' : Store} {α β : Type} [Placed α] [Placed β]

/-- The actions stay inside of the region and do the same, up to steps that one of them takes and
the other does not. -/
structure SameUncounted (R : Region) (w : Store) (x y : Action α) : Prop where
  sound : R.Sound w x
  same : ∀ s t, R.From w s → t.uncounted = s.uncounted → (y t).uncounted = (x s).uncounted

namespace SameUncounted

lemma of_uncounted {x : Action α} (h : ∀ d, R.Uncounted d w x) : R.SameUncounted w x x where
  sound := (h 0).sound
  same s t hs ht := by
    rcases State.later_of_uncounted_eq ht with ⟨d, rfl⟩ | ⟨d, rfl⟩
    · rw [(h d).later s hs, Outcome.uncounted_later]
    · rw [(h d).later t ⟨hs.le, hs.valid⟩, Outcome.uncounted_later]

lemma pure {a : α} (ha : R.Inside w a) : R.SameUncounted w (Pure.pure a) (Pure.pure a) where
  sound _ hs := .value (.refl hs.valid) (ha.mono hs.le)
  same _ _ _ ht := congrArg (Outcome.value a) ht

lemma weaken {x y : Action α} (h : R.SameUncounted w x y) (hw : w ≤ w') :
    R.SameUncounted w' x y :=
  ⟨h.sound.weaken hw, fun s t hs => h.same s t (hs.mono hw)⟩

lemma bind {x y : Action α} {f g : α → Action β} (h : R.SameUncounted w x y)
    (hf : ∀ w', w ≤ w' → ∀ a, R.Inside w' a → R.SameUncounted w' (f a) (g a)) :
    R.SameUncounted w (x >>= f) (y >>= g) where
  sound := h.sound.bind fun w' hw a ha => (hf w' hw a ha).sound
  same s t hs ht := by
    have hkept := h.sound s hs
    have hsame := h.same s t hs ht
    rw [Action.bind_apply, Action.bind_apply]
    generalize x s = o at hkept hsame ⊢
    cases hkept with
    | @value a u run inside =>
      obtain ⟨u', hu', hcount⟩ := Outcome.uncounted_eq_value hsame
      rw [hu']
      exact (hf u.store (hs.run run).le a inside).same u u' ⟨le_rfl, run.valid⟩ hcount
    | @error e u run =>
      obtain ⟨u', hu', hcount⟩ := Outcome.uncounted_eq_error hsame
      rw [hu']
      exact congrArg (Outcome.error e) hcount
    | unfinished =>
      rw [Outcome.uncounted_eq_unfinished.mp hsame]

/-! #### Joins -/

variable {x y z x' y' z' : Action Value}

lemma bool (b : Bool) : R.SameUncounted w (Pure.pure (Value.bool b)) (Pure.pure (Value.bool b)) :=
  .pure (inside_of_node?_eq_none rfl)

lemma negation (hx : R.SameUncounted w x x') :
    R.SameUncounted w (Action.negation x) (Action.negation x') :=
  hx.bind fun _ _ _ _ => .bool _

lemma conjunction (hx : R.SameUncounted w x x') (hy : R.SameUncounted w y y') :
    R.SameUncounted w (Action.conjunction x y) (Action.conjunction x' y') := by
  refine hx.bind fun w' hw v _ => ?_
  split
  · exact (hy.weaken hw).bind fun _ _ _ _ => .bool _
  · exact .bool false

lemma disjunction (hx : R.SameUncounted w x x') (hy : R.SameUncounted w y y') :
    R.SameUncounted w (Action.disjunction x y) (Action.disjunction x' y') := by
  refine hx.bind fun w' hw v hv => ?_
  split
  · exact .pure hv
  · exact hy.weaken hw

lemma choice (hx : R.SameUncounted w x x') (hy : R.SameUncounted w y y')
    (hz : R.SameUncounted w z z') :
    R.SameUncounted w (Action.choice x y z) (Action.choice x' y' z') := by
  refine hx.bind fun w' hw v _ => ?_
  split
  · exact hy.weaken hw
  · exact hz.weaken hw

end SameUncounted

end Region

open Region

/-- An evaluation in the scope `c`, which is inside of the region, is not limited in its steps, and
no builtin in its reach looks at their number. -/
structure Setting.Unwatched (σ : Setting) (R : Region) (w : Store) (c : ScopeRef) : Prop where
  limit : σ.config.stepLimit = none
  steps : ¬ R.allows .steps
  globals : ∀ {n}, R.allows n → .scope σ.globals ∈ R.start
  inside : R.Inside w c

/-- In the scope `c` the expression evaluates as the action does, up to the steps. -/
def Setting.EvaluatesAs (σ : Setting) (R : Region) (w : Store) (c : ScopeRef) (e : Expr)
    (x : Action Value) : Prop :=
  R.SameUncounted w (σ.full.expr e c) x

namespace Setting.Unwatched

variable {R : Region} {σ : Setting} {w : Store} {c : ScopeRef} (hw : σ.Unwatched R w c)
include hw

lemma kept (e : Expr) : R.Sound w (σ.full.expr e c) := fun _ hs =>
  full_expr_kept hw.steps hw.globals hw.limit hw.inside hs e

lemma operand (e : Expr) : σ.EvaluatesAs R w c e (σ.full.expr e c) :=
  .of_uncounted fun d => ⟨hw.kept e, fun _ hs =>
    full_expr_later hw.steps hw.globals hw.limit hw.inside hs e d⟩

/-- A node that was made takes a step, and is not blamed for what fails in it. -/
lemma synthetic {kind : ExprKind} {x : Action Value}
    (h : R.SameUncounted w (σ.full.evalKind c kind) x) :
    σ.EvaluatesAs R w c (.synthetic kind) x where
  sound := hw.kept _
  same s t hs ht := by
    rw [full_expr_apply (mayStep_of_none hw.limit s), Expr.synthetic, Outcome.blame_synthetic]
    exact h.same s.ticked t ⟨hs.le, hs.valid⟩ ht

variable {a b d : Expr} {x y z : Action Value}

lemma not (h : σ.EvaluatesAs R w c a x) : σ.EvaluatesAs R w c a.not (Action.negation x) :=
  hw.synthetic (SameUncounted.negation h)

lemma and (ha : σ.EvaluatesAs R w c a x) (hb : σ.EvaluatesAs R w c b y) :
    σ.EvaluatesAs R w c (a.and b) (Action.conjunction x y) :=
  hw.synthetic (SameUncounted.conjunction ha hb)

lemma or (ha : σ.EvaluatesAs R w c a x) (hb : σ.EvaluatesAs R w c b y) :
    σ.EvaluatesAs R w c (a.or b) (Action.disjunction x y) :=
  hw.synthetic (SameUncounted.disjunction ha hb)

lemma cond (ha : σ.EvaluatesAs R w c a x) (hb : σ.EvaluatesAs R w c b y)
    (hd : σ.EvaluatesAs R w c d z) : σ.EvaluatesAs R w c (a.cond b d) (Action.choice x y z) :=
  hw.synthetic (SameUncounted.choice ha hb hd)

lemma bool (b : Bool) : σ.EvaluatesAs R w c (.bool b) (pure (.bool b)) :=
  hw.synthetic (SameUncounted.bool b)

lemma parens (h : σ.EvaluatesAs R w c a x) : σ.EvaluatesAs R w c a.parens x :=
  hw.synthetic h

end Setting.Unwatched

namespace Interpreter

/-- The two tasks come to an end or neither does, with the same value or the same error and in the
same state but for the steps. -/
def EndAlike {α : Type} (i : Interpreter) (st : Store) (x y : Evaluator → Action α) : Prop :=
  (∀ o, i.Ends st x o → ∃ o', i.Ends st y o' ∧ o'.uncounted = o.uncounted) ∧
    ∀ o', i.Ends st y o' → ∃ o, i.Ends st x o ∧ o'.uncounted = o.uncounted

/-- Expressions that evaluate as the same action does, up to the steps, end alike. -/
lemma endAlike_of_evaluatesAs {i : Interpreter} {st : Store} {c : ScopeRef} {R : Region}
    (hs : R.From st (i.start st)) {e e' : Expr} {x y : Action Value}
    (h : i.EvaluatesAs R st c e x) (h' : i.EvaluatesAs R st c e' y) (hxy : x = y) :
    i.EndAlike st (fun ev => ev.expr e c) (fun ev => ev.expr e' c) := by
  subst hxy
  have hsame : (i.full.expr e' c (i.start st)).uncounted =
      (i.full.expr e c (i.start st)).uncounted :=
    (h'.same _ _ hs rfl).symm.trans (h.same _ _ hs rfl)
  have hfinish : i.full.expr e' c (i.start st) = .unfinished ↔
      i.full.expr e c (i.start st) = .unfinished := by
    rw [← Outcome.uncounted_eq_unfinished, hsame, Outcome.uncounted_eq_unfinished]
  refine ⟨fun o ho => ?_, fun o' ho' => ?_⟩
  · obtain ⟨hends, rfl⟩ := ends_expr_iff.mp ho
    exact ⟨_, ends_expr_iff.mpr ⟨mt hfinish.mp hends, rfl⟩, hsame⟩
  · obtain ⟨hends, rfl⟩ := ends_expr_iff.mp ho'
    exact ⟨_, ends_expr_iff.mpr ⟨mt hfinish.mpr hends, rfl⟩, hsame⟩

end Interpreter

open Interpreter in
/-- Without a step limit, and without a builtin in reach that looks at the number of steps, De
Morgan's laws hold for conditions of any kind, conjunction is the conditional with a double negation
for its first branch, and conjunction and disjunction are associative: both sides come to an end or
neither does, with the same value or the same error and in the same store. -/
theorem shortCircuit_laws (i : Interpreter) (st : Store) (c : ScopeRef) (a b d : Expr)
    (hlimit : i.config.stepLimit = none)
    (hsteps : ∀ r, st.Reaches (.scope c) (.builtin r) → (st.builtin r).native ≠ .steps)
    (hglobals : ∀ r r', st.Reaches (.scope c) (.builtin r) →
      st.Reaches (.scope i.globals) (.builtin r') → (st.builtin r').native ≠ .steps) :
    let Alike e e' := i.EndAlike st (fun ev => ev.expr e c) (fun ev => ev.expr e' c)
    Alike (a.and b).parens.not (a.not.or b.not) ∧
    Alike (a.or b).parens.not (a.not.and b.not) ∧
    Alike (a.and b) (a.cond b.not.parens.not (.bool false)) ∧
    Alike ((a.and b).parens.and d) (a.and (b.and d).parens) ∧
    Alike ((a.or b).parens.or d) (a.or (b.or d).parens) := by
  intro Alike
  have hw : i.Unwatched (reached hsteps hglobals) st c :=
    ⟨hlimit, not_allows_reached hsteps hglobals, globals_mem_reached hsteps hglobals,
      inside_reached hsteps hglobals⟩
  have hs : (reached hsteps hglobals).From st (i.start st) := ⟨le_rfl, valid_base _⟩
  have ha := hw.operand a
  have hb := hw.operand b
  have hd := hw.operand d
  refine ⟨?_, ?_, ?_, ?_, ?_⟩
  · exact endAlike_of_evaluatesAs hs (hw.not (hw.parens (hw.and ha hb)))
      (hw.or (hw.not ha) (hw.not hb)) (Action.negation_conjunction _ _)
  · exact endAlike_of_evaluatesAs hs (hw.not (hw.parens (hw.or ha hb)))
      (hw.and (hw.not ha) (hw.not hb)) (Action.negation_disjunction _ _)
  · exact endAlike_of_evaluatesAs hs (hw.and ha hb)
      (hw.cond ha (hw.not (hw.parens (hw.not hb))) (hw.bool false)) (Action.conjunction_eq_choice _ _)
  · exact endAlike_of_evaluatesAs hs (hw.and (hw.parens (hw.and ha hb)) hd)
      (hw.and ha (hw.parens (hw.and hb hd))) (Action.conjunction_assoc _ _ _)
  · exact endAlike_of_evaluatesAs hs (hw.or (hw.parens (hw.or ha hb)) hd)
      (hw.or ha (hw.parens (hw.or hb hd))) (Action.disjunction_assoc _ _ _)

open Interpreter in
/-- With `n` at one, both operands of `n++ && n++` are evaluated and hold, and so are those of
`!n++ || !n++`, neither of which holds; `n` comes to be three. -/
theorem shortCircuit_laws_effect :
    let n : Expr := .synthetic (.step .increment false (.synthetic (.identifier "n")))
    let i := (Interpreter.create {} {}).1
    let st := (Interpreter.create {} {}).2.define i.globals "n" (.number 1)
    i.config.stepLimit = none ∧ (∀ r, ¬ st.Reaches (.scope i.globals) (.builtin r)) ∧
      ∃ s s', i.Ends st (fun ev => ev.expr (n.and n).parens.not i.globals)
          (.value (.bool false) s) ∧
        i.Ends st (fun ev => ev.expr (n.not.or n.not) i.globals) (.value (.bool false) s') ∧
        s'.uncounted = s.uncounted ∧ s.store.lookup i.globals "n" = .found (.number 3) := by
  intro n i st
  have hst : st.Intact := (Interpreter.intact_create Store.intact_empty {}).of_edits
    (Store.edits_define _ _ _ _) (by nofun)
  have hnone := hst.not_reaches_builtin (n := .scope i.globals) rfl (by decide)
  obtain ⟨v, s, hand, hv⟩ := Ends.of_passes i st
    (fun ev => ev.expr (n.and n).parens.not i.globals)
    (fun v s => decide (v = .bool false ∧ s.store.lookup i.globals "n" = .found (.number 3))) 6
    (by decide +kernel)
  obtain ⟨rfl, hthree⟩ := of_decide_eq_true hv
  obtain ⟨o, hor, hsame⟩ := (shortCircuit_laws i st i.globals n n n rfl
    (fun r hr => absurd hr (hnone r)) fun r _ hr => absurd hr (hnone r)).1.1 _ hand
  obtain ⟨s', rfl, hs'⟩ := Outcome.uncounted_eq_value hsame
  exact ⟨rfl, hnone, s, s', hand, hor, hs', hthree⟩

open Interpreter in
/-- With the number of steps taken for an operand, the two sides find different numbers. -/
theorem disjunction_counted :
    let a : Expr := .synthetic (.call (.synthetic (.identifier "steps")) [])
    let b : Expr := .bool false
    let i := (Interpreter.create {} {}).1
    let st := i.defineBuiltin (Interpreter.create {} {}).2 ⟨"steps", .steps⟩
    i.config.stepLimit = none ∧
      (∃ s, i.Ends st (fun ev => ev.expr ((a.or b).parens.or b) i.globals)
        (.value (.number 5) s)) ∧
      (∃ s, i.Ends st (fun ev => ev.expr (a.or (b.or b).parens) i.globals)
        (.value (.number 3) s)) ∧
      ¬ i.EndAlike st (fun ev => ev.expr ((a.or b).parens.or b) i.globals)
        (fun ev => ev.expr (a.or (b.or b).parens) i.globals) := by
  intro a b i st
  obtain ⟨v, s, hleft, hv⟩ := Ends.of_passes i st
    (fun ev => ev.expr ((a.or b).parens.or b) i.globals) (fun v _ => decide (v = .number 5)) 6
    (by decide +kernel)
  obtain rfl := of_decide_eq_true hv
  obtain ⟨v, s', hright, hv⟩ := Ends.of_passes i st
    (fun ev => ev.expr (a.or (b.or b).parens) i.globals) (fun v _ => decide (v = .number 3)) 4
    (by decide +kernel)
  obtain rfl := of_decide_eq_true hv
  refine ⟨rfl, ⟨s, hleft⟩, ⟨s', hright⟩, fun h => ?_⟩
  obtain ⟨o, ho, hsame⟩ := h.1 _ hleft
  cases hright.unique ((growing_operations _).2.1 _) ho
  cases hsame

end TreeWalk
