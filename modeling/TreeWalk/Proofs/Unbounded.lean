/-
# The evaluator without a level

The evaluators of all levels come to one evaluator (`Setting.full`): where that one ends, those of
high enough levels end in the same way, and where it does not end, none of them does.  It evaluates
an expression as one level does, leaving what is below to itself (`full_expr`).  So what is said
about how expressions evaluate can be said and proved of it by equations, without levels, and holds
of the ends of evaluations (`ends_expr_iff`).
-/
import TreeWalk.Proofs.Ending

namespace TreeWalk

/-- The outcome, with the node at `span` blamed for a failure that no inner node is blamed for. -/
def Outcome.blame {α : Type} (span : Span) : Outcome α → Outcome α
  | .value a s => .value a s
  | .error e s => .error (e.blame span) s
  | .unfinished => .unfinished

lemma Outcome.blame_synthetic {α : Type} (o : Outcome α) : o.blame .synthetic = o := by
  cases o with
  | error e s => simp [blame, EvalError.blame_eq_self_iff]
  | _ => rfl

namespace Action

variable {α β : Type}

/-- The actions come to `x`: each ends as `x` does or not at all, and where `x` ends, all of them
do from some one on. -/
structure ComeTo (f : Nat → Action α) (x : Action α) : Prop where
  le : ∀ n, Le (f n) x
  ends : ∀ s, x s ≠ .unfinished → ∃ n, ∀ m, n ≤ m → f m s = x s

open Classical in
/-- What growing actions come to. -/
noncomputable def limit (f : Nat → Action α) : Action α := fun s =>
  if h : ∃ n, f n s ≠ .unfinished then f h.choose s else .unfinished

namespace ComeTo

variable {f g : Nat → Action α} {x y : Action α}

lemma limit (hf : ∀ ⦃n m⦄, n ≤ m → Le (f n) (f m)) : ComeTo f (limit f) where
  le n s := by
    unfold Action.limit
    split
    · next h =>
      -- of two levels that end, the higher one ends as the lower one does
      rcases Nat.le_total n h.choose with hn | hn
      · exact hf hn s
      · exact .inr ((hf hn).eq h.choose_spec)
    · next h => exact .inl (Classical.not_not.mp fun hn => h ⟨n, hn⟩)
  ends s hs := by
    unfold Action.limit at hs ⊢
    split at hs
    · next h => exact ⟨h.choose, fun m hm => by rw [dif_pos h]; exact (hf hm).eq h.choose_spec⟩
    · exact absurd rfl hs

/-- Actions come to one action only. -/
lemma unique (h : ComeTo f x) (h' : ComeTo f y) : x = y := by
  funext s
  have hle {x y : Action α} (h : ComeTo f x) (h' : ComeTo f y) (hx : x s ≠ .unfinished) :
      x s = y s := by
    obtain ⟨n, hn⟩ := h.ends s hx
    rcases h'.le n s with hy | hy
    · exact absurd ((hn n (Nat.le_refl n)).symm.trans hy) hx
    · exact (hn n (Nat.le_refl n)).symm.trans hy
  by_cases hx : x s = .unfinished
  · by_cases hy : y s = .unfinished
    · rw [hx, hy]
    · exact (hle h' h hy).symm
  · exact hle h h' hx

lemma const (x : Action α) : ComeTo (fun _ => x) x :=
  ⟨fun _ => .refl x, fun _ _ => ⟨0, fun _ _ => rfl⟩⟩

lemma succ (h : ComeTo f x) : ComeTo (fun n => f (n + 1)) x where
  le n := h.le (n + 1)
  ends s hs := by
    obtain ⟨n, hn⟩ := h.ends s hs
    exact ⟨n, fun m hm => hn (m + 1) (by omega)⟩

lemma bind {f : Nat → Action α} {x : Action α} {g : Nat → α → Action β} {y : α → Action β}
    (h : ComeTo f x) (hg : ∀ a, ComeTo (fun n => g n a) (y a)) :
    ComeTo (fun n => f n >>= g n) (x >>= y) where
  le n := (h.le n).bind fun a => (hg a).le n
  ends s hs := by
    rw [bind_apply] at hs ⊢
    have hx : x s ≠ .unfinished := fun hx => hs (by rw [hx])
    obtain ⟨n, hn⟩ := h.ends s hx
    cases hxs : x s with
    | value a t =>
      rw [hxs] at hs
      obtain ⟨m, hm⟩ := (hg a).ends t hs
      refine ⟨max n m, fun k hk => ?_⟩
      rw [bind_apply, hn k (by omega), hxs]
      exact hm k (by omega)
    | error e t => exact ⟨n, fun k hk => by rw [bind_apply, hn k hk, hxs]⟩
    | unfinished => exact absurd hxs hx

/-- What follows is the same action for all. -/
lemma andThen (h : ComeTo f x) (y : α → Action β) : ComeTo (fun n => f n >>= y) (x >>= y) :=
  h.bind fun a => const (y a)

lemma ite {p : Prop} [Decidable p] (h : ComeTo f x) (h' : ComeTo g y) :
    ComeTo (fun n => if p then f n else g n) (if p then x else y) := by
  split
  · exact h
  · exact h'

lemma blame (h : ComeTo f x) (span : Span) :
    ComeTo (fun n => Action.blame span (f n)) (Action.blame span x) where
  le n := (h.le n).blame span
  ends s hs := by
    obtain ⟨n, hn⟩ := h.ends s fun hx => hs (by unfold Action.blame; rw [hx])
    exact ⟨n, fun m hm => by unfold Action.blame; rw [hn m hm]⟩

end ComeTo

end Action

namespace Evaluator

/-- The evaluators come to `full`, activity by activity.  How many rounds a loop has is not looked
at. -/
structure ComeTo (ev : Nat → Evaluator) (full : Evaluator) : Prop where
  expr : ∀ e c, Action.ComeTo (fun n => (ev n).expr e c) (full.expr e c)
  assign : ∀ target v c, Action.ComeTo (fun n => (ev n).assign target v c) (full.assign target v c)
  stmt : ∀ s c, Action.ComeTo (fun n => (ev n).stmt s c) (full.stmt s c)
  invoke : ∀ f args, Action.ComeTo (fun n => (ev n).invoke f args) (full.invoke f args)

namespace ComeTo

variable {ev : Nat → Evaluator} {full : Evaluator} (h : ComeTo ev full)
include h

/-! ### Expressions -/

lemma evalAll (c : ScopeRef) (es : List Expr) :
    Action.ComeTo (fun n => (ev n).evalAll c es) (full.evalAll c es) := by
  unfold Evaluator.evalAll
  generalize (#[] : Array Value) = vs
  induction es generalizing vs with
  | nil => exact .const _
  | cons e es ih => exact .bind ((h.expr e c).andThen _) fun _ => ih _

lemma evalEntries (c : ScopeRef) (entries : List (String × Expr)) :
    Action.ComeTo (fun n => (ev n).evalEntries c entries) (full.evalEntries c entries) := by
  unfold Evaluator.evalEntries
  generalize (∅ : Table) = t
  induction entries generalizing t with
  | nil => exact .const _
  | cons p ps ih => exact .bind ((h.expr p.2 c).andThen _) fun _ => ih _

lemma evalIndex (c : ScopeRef) (container key : Expr) :
    Action.ComeTo (fun n => (ev n).evalIndex c container key) (full.evalIndex c container key) :=
  (h.expr container c).bind fun _ => (h.expr key c).andThen _

lemma assignIndex (c : ScopeRef) (container key : Expr) (v : Value) :
    Action.ComeTo (fun n => (ev n).assignIndex c container key v)
      (full.assignIndex c container key v) :=
  (h.expr container c).bind fun _ => .ite ((h.expr key c).andThen _) (.const _)

lemma call (f : Value) (args : List Value) :
    Action.ComeTo (fun n => (ev n).call f args) (full.call f args) :=
  .ite (h.invoke f args) (.const _)

lemma evalCall (c : ScopeRef) (callee : Expr) (args : List Expr) :
    Action.ComeTo (fun n => (ev n).evalCall c callee args) (full.evalCall c callee args) :=
  (h.expr callee c).bind fun v => (Action.ComeTo.const (Evaluator.resolve c v)).bind fun _ =>
    .ite ((h.evalAll c args).bind fun _ => h.invoke _ _) (.const _)

lemma evalStep (c : ScopeRef) (op : StepOp) (before : Bool) (operand : Expr) :
    Action.ComeTo (fun n => (ev n).evalStep c op before operand)
      (full.evalStep c op before operand) := by
  refine (h.expr operand c).bind fun v => ?_
  cases v with
  | number n => exact (h.assign operand _ c).andThen _
  | _ => exact .const _

lemma evalBinary (c : ScopeRef) (left : Expr) (op : BinaryOp) (right : Expr) :
    Action.ComeTo (fun n => (ev n).evalBinary c left op right)
      (full.evalBinary c left op right) := by
  cases op with
  | and => exact (h.expr left c).bind fun _ => .ite ((h.expr right c).andThen _) (.const _)
  | or => exact (h.expr left c).bind fun l => .ite (.const _) (h.expr right c)
  | _ => exact (h.expr left c).bind fun _ => (h.expr right c).andThen _

lemma evalConditional (c : ScopeRef) (condition whenTrue whenFalse : Expr) :
    Action.ComeTo (fun n => (ev n).evalConditional c condition whenTrue whenFalse)
      (full.evalConditional c condition whenTrue whenFalse) :=
  (h.expr condition c).bind fun _ => .ite (h.expr whenTrue c) (h.expr whenFalse c)

lemma evalKind (c : ScopeRef) (kind : ExprKind) :
    Action.ComeTo (fun n => (ev n).evalKind c kind) (full.evalKind c kind) := by
  cases kind with
  | object entries => exact (h.evalEntries c entries).andThen _
  | array items => exact (h.evalAll c items).andThen _
  | call callee args => exact h.evalCall c callee args
  | index container key => exact h.evalIndex c container key
  | unary op operand => exact (h.expr operand c).andThen _
  | step op before operand => exact h.evalStep c op before operand
  | binary left op right => exact h.evalBinary c left op right
  | conditional condition whenTrue whenFalse =>
    exact h.evalConditional c condition whenTrue whenFalse
  | assign target value => exact (h.expr value c).bind fun v => (h.assign target v c).andThen _
  | paren inner => exact h.expr inner c
  | _ => exact .const _

lemma assignTarget (c : ScopeRef) (target : Expr) (v : Value) :
    Action.ComeTo (fun n => (ev n).assignTarget c target v) (full.assignTarget c target v) := by
  unfold Evaluator.assignTarget
  split
  · exact .const _
  · exact h.assignIndex c _ _ v
  · exact h.assign _ v c
  · exact (h.expr target c).andThen _

/-! ### One level -/

lemma evalExpr (σ : Setting) (e : Expr) (c : ScopeRef) :
    Action.ComeTo (fun n => (ev n).evalExpr σ e c) (full.evalExpr σ e c) :=
  ((Action.ComeTo.const _).bind fun _ => h.evalKind c e.kind).blame e.span

lemma assignExpr (target : Expr) (v : Value) (c : ScopeRef) :
    Action.ComeTo (fun n => (ev n).assignExpr target v c) (full.assignExpr target v c) :=
  (h.assignTarget c target v).blame target.span

end ComeTo

end Evaluator

namespace Setting

open Evaluator (level level_mono level_succ)

variable (σ : Setting)

/-- What the evaluators of all levels come to.  It has no rounds for the loops of a statement that
is not left to it: its statements, loops included, are what those of all levels come to. -/
noncomputable def full : Evaluator where
  rounds := 0
  tick := Action.tick σ.config.stepLimit
  expr e c := Action.limit fun n => (level σ n).expr e c
  assign target v c := Action.limit fun n => (level σ n).assign target v c
  stmt s c := Action.limit fun n => (level σ n).stmt s c
  invoke f args := Action.limit fun n => (level σ n).invoke f args

theorem level_comeTo : Evaluator.ComeTo (level σ) σ.full where
  expr e c := .limit fun _ _ h => (level_mono σ h).expr e c
  assign target v c := .limit fun _ _ h => (level_mono σ h).assign target v c
  stmt s c := .limit fun _ _ h => (level_mono σ h).stmt s c
  invoke f args := .limit fun _ _ h => (level_mono σ h).invoke f args

/-- An expression is evaluated as one level does it, leaving what is below to the evaluator
itself. -/
theorem full_expr (e : Expr) (c : ScopeRef) : σ.full.expr e c = σ.full.evalExpr σ e c := by
  have h := (σ.level_comeTo.expr e c).succ
  simp only [level_succ] at h
  exact h.unique (σ.level_comeTo.evalExpr σ e c)

theorem full_assign (target : Expr) (v : Value) (c : ScopeRef) :
    σ.full.assign target v c = σ.full.assignExpr target v c := by
  have h := (σ.level_comeTo.assign target v c).succ
  simp only [level_succ] at h
  exact h.unique (σ.level_comeTo.assignExpr target v c)

/-- The budget allows one more step. -/
def MayStep (s : State) : Prop := ∀ l, σ.config.stepLimit = some l → s.ticked.counter ≤ l

variable {σ}

lemma mayStep_of_none (h : σ.config.stepLimit = none) (s : State) : σ.MayStep s := by
  intro l hl
  rw [h] at hl
  cases hl

/-- A step is taken if the budget allows it, and changes nothing but the number of steps. -/
lemma tick_eq_value_iff {s t : State} :
    Action.tick σ.config.stepLimit s = .value () t ↔ σ.MayStep s ∧ t = s.ticked := by
  unfold Action.tick MayStep
  cases σ.config.stepLimit with
  | none => simp [eq_comm]
  | some l =>
    by_cases hl : l < s.ticked.counter
    · have hspent : ¬ s.ticked.counter ≤ l := UInt64.not_le.mpr hl
      simp only [if_pos hl]
      exact ⟨nofun, fun h => absurd (h.1 l rfl) hspent⟩
    · have hleft : s.ticked.counter ≤ l := UInt64.not_lt.mp hl
      simp [hl, hleft, eq_comm]

/-- An expression takes a step, and is blamed for what fails in it. -/
lemma full_expr_apply {s : State} (hs : σ.MayStep s) (e : Expr) (c : ScopeRef) :
    σ.full.expr e c s = (σ.full.evalKind c e.kind s.ticked).blame e.span := by
  rw [full_expr]
  unfold Evaluator.evalExpr Action.blame
  rw [Action.bind_apply, tick_eq_value_iff.mpr ⟨hs, rfl⟩]
  rfl

lemma full_assign_apply (target : Expr) (v : Value) (c : ScopeRef) (s : State) :
    σ.full.assign target v c s = (σ.full.assignTarget c target v s).blame target.span := by
  rw [full_assign]
  rfl

/-- A call that comes to an end before anything below it is evaluated. -/
lemma full_invoke_apply {f : Value} {args : List Value} {s : State}
    (h : Evaluator.stuck.enter σ f args s ≠ .unfinished) :
    σ.full.invoke f args s = Evaluator.stuck.enter σ f args s := by
  have hlevel := (σ.level_comeTo.invoke f args).le 1 s
  exact (hlevel.resolve_left h).symm

end Setting

namespace Interpreter

variable {i : Interpreter} {st : Store} {c : ScopeRef}

/-- A task ends with what it comes to. -/
lemma ends_iff {α : Type} {task : Evaluator → Action α} {x : Action α} {o : Outcome α}
    (h : Action.ComeTo (fun n => task (Evaluator.level i.toSetting n)) x) :
    i.Ends st task o ↔ o ≠ .unfinished ∧ x (i.start st) = o := by
  constructor
  · rintro ⟨ho, n, hn⟩
    refine ⟨ho, ?_⟩
    rcases h.le n (i.start st) with hs | hs
    · exact absurd (hn.symm.trans hs) ho
    · exact hs.symm.trans hn
  · rintro ⟨ho, hx⟩
    obtain ⟨n, hn⟩ := h.ends (i.start st) (hx ▸ ho)
    exact ⟨ho, n, (hn n (Nat.le_refl n)).trans hx⟩

lemma ends_expr_iff {e : Expr} {o : Outcome Value} :
    i.Ends st (fun ev => ev.expr e c) o ↔
      o ≠ .unfinished ∧ i.toSetting.full.expr e c (i.start st) = o :=
  ends_iff (i.toSetting.level_comeTo.expr e c)

/-- An expression ends with what is done for it after its step. -/
lemma ends_expr_iff_evalKind (hbudget : i.MayStep (i.start st)) {e : Expr} {o : Outcome Value} :
    i.Ends st (fun ev => ev.expr e c) o ↔ o ≠ .unfinished ∧
      (i.toSetting.full.evalKind c e.kind (i.start st).ticked).blame e.span = o := by
  rw [ends_expr_iff, Setting.full_expr_apply hbudget]

end Interpreter

end TreeWalk
