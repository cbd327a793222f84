/-
# How evaluations end

The evaluator of a level may be too low for an evaluation to end.  An evaluation ends with an
outcome if the evaluators of some level end with it (`Interpreter.Ends`); those of all higher levels
then do too, so that there is no other outcome (`Ends.unique`), and so does the evaluator of a host,
unless the evaluation is too deep for it (`Ends.perform`).
-/
import TreeWalk.Interpreter
import TreeWalk.Proofs.Monotone

namespace TreeWalk

/-- An outcome is an end, in the given state. -/
inductive Outcome.EndsIn {α : Type} : Outcome α → State → Prop
  | value (a : α) (s : State) : EndsIn (.value a s) s
  | error (e : EvalError) (s : State) : EndsIn (.error e s) s

lemma Outcome.EndsIn.of_value {α : Type} {o : Outcome α} {a : α} {s : State}
    (h : o = .value a s) : o.EndsIn s :=
  h ▸ .value a s

lemma Outcome.EndsIn.of_error {α : Type} {o : Outcome α} {e : EvalError} {s : State}
    (h : o = .error e s) : o.EndsIn s :=
  h ▸ .error e s

lemma Outcome.EndsIn.unique {α : Type} {o : Outcome α} {s t : State} (h : o.EndsIn s)
    (h' : o.EndsIn t) : s = t := by
  cases h <;> cases h' <;> rfl

/-- An action that goes on with the value of another one ends where the rest of it does, or where
the other one fails. -/
lemma Action.endsIn_bind {α β : Type} {x : Action α} {f : α → Action β} {s t : State}
    (h : ((x >>= f) s).EndsIn t) :
    (∃ a u, x s = .value a u ∧ (f a u).EndsIn t) ∨ (x s).EndsIn t := by
  rw [bind_apply] at h
  cases hx : x s with
  | value a u =>
    rw [hx] at h
    exact .inl ⟨a, u, rfl, h⟩
  | error e u =>
    rw [hx] at h
    cases h
    exact .inr (.error e t)
  | unfinished =>
    rw [hx] at h
    cases h

/-- To blame a node changes no state. -/
lemma Action.endsIn_blame {α : Type} {span : Span} {x : Action α} {s t : State}
    (h : (Action.blame span x s).EndsIn t) : (x s).EndsIn t := by
  unfold blame at h
  cases hx : x s <;> rw [hx] at h <;> cases h <;> constructor

namespace EvalError

variable (e : EvalError) (span : Span)

/-- Nobody else is blamed for an error that has been placed already, or by a node without a span. -/
lemma blame_eq_self_iff : e.blame span = e ↔ span = .synthetic ∨ e.span ≠ none := by
  obtain ⟨fault, placed⟩ := e
  cases placed with
  | none =>
    by_cases hspan : span = .synthetic <;> simp [blame, Span.isSynthetic, hspan]
  | some p => simp [blame]

lemma span_of_blame_ne (h : e.blame span ≠ e) : e.span = none ∧ (e.blame span).span = some span := by
  unfold blame at h ⊢
  split
  · next hblame =>
    rw [Bool.and_eq_true, Option.isNone_iff_eq_none] at hblame
    exact ⟨hblame.1, rfl⟩
  · next hblame => exact absurd (if_neg hblame) h

end EvalError

/-- The outcome is a value, and passes a test with it. -/
def Outcome.passes {α : Type} (p : α → State → Bool) : Outcome α → Bool
  | .value a s => p a s
  | .error _ _ | .unfinished => false

/-- The outcome is an error, and passes a test. -/
def Outcome.fails {α : Type} (p : EvalError → Bool) : Outcome α → Bool
  | .error e _ => p e
  | .value _ _ | .unfinished => false

/-- Outcomes that stay what they are once they are an end have no more than one end. -/
lemma Outcome.eq_of_growing {α : Type} {x : Nat → Outcome α}
    (h : ∀ {n m}, n ≤ m → x n ≠ .unfinished → x m = x n) {n m : Nat} (hn : x n ≠ .unfinished)
    (hm : x m ≠ .unfinished) : x n = x m := by
  rcases Nat.le_total n m with hnm | hmn
  · exact (h hnm hn).symm
  · exact h hmn hm

namespace Interpreter

variable {α : Type} {i : Interpreter} {st : Store} {task : Evaluator → Action α} {o o' : Outcome α}

/-- The state in which an evaluation starts. -/
def start (i : Interpreter) (st : Store) : State :=
  { store := st, depth := i.depth, steps := i.steps }

/-- A task ends with the outcome `o`. -/
def Ends (i : Interpreter) (st : Store) (task : Evaluator → Action α) (o : Outcome α) : Prop :=
  o ≠ .unfinished ∧ ∃ n, task (Evaluator.level i.toSetting n) (i.start st) = o

/-- What an interpreter ends with is the end of the task. -/
lemma Ends.of_perform (h : i.perform st task = o) (ho : o ≠ .unfinished) : i.Ends st task o :=
  ⟨ho, hostLevel, h⟩

/-- An evaluation ends with a value that passes a test if the evaluator of some level gets there. -/
lemma Ends.of_passes (i : Interpreter) (st : Store) (task : Evaluator → Action α)
    (p : α → State → Bool) (n : Nat)
    (h : (task (Evaluator.level i.toSetting n) (i.start st)).passes p = true) :
    ∃ a s, i.Ends st task (.value a s) ∧ p a s = true := by
  generalize ho : task (Evaluator.level i.toSetting n) (i.start st) = o at h
  cases o with
  | value a s => exact ⟨a, s, ⟨by simp, n, ho⟩, h⟩
  | error e s => cases h
  | unfinished => cases h

/-- An evaluation fails with an error that passes a test if the evaluator of some level does. -/
lemma Ends.of_fails (i : Interpreter) (st : Store) (task : Evaluator → Action α)
    (p : EvalError → Bool) (n : Nat)
    (h : (task (Evaluator.level i.toSetting n) (i.start st)).fails p = true) :
    ∃ e s, i.Ends st task (.error e s) ∧ p e = true := by
  generalize ho : task (Evaluator.level i.toSetting n) (i.start st) = o at h
  cases o with
  | value a s => cases h
  | error e s => exact ⟨e, s, ⟨by simp, n, ho⟩, h⟩
  | unfinished => cases h

/-- A task that ends with a better evaluator as it does with a worse one. -/
def Growing (task : Evaluator → Action α) : Prop :=
  ∀ ⦃ev ev' : Evaluator⦄, Evaluator.Below ev ev' → Action.Le (task ev) (task ev')

/-- An evaluation has no more than one end. -/
theorem Ends.unique (htask : Growing task) (h : i.Ends st task o) (h' : i.Ends st task o') :
    o = o' := by
  obtain ⟨ho, n, rfl⟩ := h
  obtain ⟨ho', m, rfl⟩ := h'
  exact Outcome.eq_of_growing (x := fun n => task (Evaluator.level i.toSetting n) (i.start st))
    (fun hnm => (htask (Evaluator.level_mono _ hnm)).eq) ho ho'

/-- What an interpreter comes to is the end of the task, unless it is too deep for it. -/
theorem Ends.perform (htask : Growing task) (h : i.Ends st task o) :
    i.perform st task = .unfinished ∨ i.perform st task = o := by
  by_cases hp : i.perform st task = .unfinished
  · exact .inl hp
  · exact .inr ((Ends.of_perform rfl hp).unique htask h)

/-- All that an interpreter does are such tasks. -/
theorem growing_operations (c : ScopeRef) :
    (∀ last program, Growing fun ev => ev.runFrom c last program) ∧
    (∀ e, Growing fun ev => ev.expr e c) ∧
    (∀ target v, Growing fun ev => ev.assign target v c) ∧
    (∀ s, Growing fun ev => ev.stmt s c) ∧
    (∀ body, Growing fun ev => ev.execAll c body) ∧
    (∀ body, Growing fun ev => ev.execBlock c body) ∧
    (∀ f args, Growing fun ev => ev.call f args) ∧
    (∀ σ f args, Growing fun ev => ev.execute σ f c args) := by
  refine ⟨fun last program _ _ h => ?_, fun e _ _ h => ?_, fun target v _ _ h => ?_,
    fun s _ _ h => ?_, fun body _ _ h => ?_, fun body _ _ h => ?_, fun f args _ _ h => ?_,
    fun σ f args _ _ h => ?_⟩
  · exact h.runFrom c last program
  · exact h.expr e c
  · exact h.assign target v c
  · exact h.stmt s c
  · exact h.execAll c body
  · exact h.execBlock c body
  · exact h.call f args
  · exact h.execute σ f c args

/-! ### Ends of parts -/

section Parts

variable {β : Type}

/-- A task goes on where the one before it has ended. -/
lemma Ends.bind {x : Evaluator → Action α} {f : α → Evaluator → Action β} (hx : Growing x)
    (hf : ∀ a, Growing (f a)) {a : α} {t : State} {o : Outcome β}
    (h : i.Ends st x (.value a t)) (h' : (i.after t).Ends t.store (f a) o) :
    i.Ends st (fun ev => x ev >>= fun a => f a ev) o := by
  obtain ⟨-, n, hn⟩ := h
  obtain ⟨ho, m, rfl⟩ := h'
  -- both parts end as they do at the higher one of their levels
  have hfirst := (hx (Evaluator.level_mono i.toSetting (Nat.le_max_left n m))).eq
    (s := i.start st) (by rw [hn]; simp)
  have hrest := (hf a (Evaluator.level_mono i.toSetting (Nat.le_max_right n m))).eq ho
  refine ⟨ho, max n m, ?_⟩
  show (x _ >>= fun a => f a _) (i.start st) = _
  rw [Action.bind_apply, hfirst, hn]
  exact hrest

/-- A task ends where its first part fails. -/
lemma Ends.bind_error {x : Evaluator → Action α} {f : α → Evaluator → Action β} {e : EvalError}
    {t : State} (h : i.Ends st x (.error e t)) :
    i.Ends st (fun ev => x ev >>= fun a => f a ev) (.error e t) := by
  obtain ⟨-, n, hn⟩ := h
  refine ⟨by simp, n, ?_⟩
  show (x _ >>= fun a => f a _) (i.start st) = _
  rw [Action.bind_apply, hn]

/-- A task that goes on with the value of another one ends where that one fails, or goes on from
where that one has ended. -/
lemma Ends.of_bind {x : Evaluator → Action α} {f : α → Evaluator → Action β} {o : Outcome β}
    (h : i.Ends st (fun ev => x ev >>= fun a => f a ev) o) :
    (∃ a t, i.Ends st x (.value a t) ∧ (i.after t).Ends t.store (f a) o) ∨
      ∃ e t, i.Ends st x (.error e t) ∧ o = .error e t := by
  obtain ⟨ho, n, hn⟩ := h
  dsimp only at hn
  rw [Action.bind_apply] at hn
  cases hx : x (Evaluator.level i.toSetting n) (i.start st) with
  | value a t =>
    rw [hx] at hn
    exact .inl ⟨a, t, ⟨by simp, n, hx⟩, ho, n, hn⟩
  | error e t =>
    rw [hx] at hn
    exact .inr ⟨e, t, ⟨by simp, n, hx⟩, hn.symm⟩
  | unfinished =>
    rw [hx] at hn
    exact absurd hn.symm ho

/-- A task that blames a node ends where what it does ends, and blames the node for its failure. -/
lemma Ends.of_blame {span : Span} {x : Evaluator → Action α} {o : Outcome α}
    (h : i.Ends st (fun ev => Action.blame span (x ev)) o) :
    (∃ a t, i.Ends st x (.value a t) ∧ o = .value a t) ∨
      ∃ e t, i.Ends st x (.error e t) ∧ o = .error (e.blame span) t := by
  obtain ⟨ho, n, hn⟩ := h
  dsimp only [Action.blame] at hn
  cases hx : x (Evaluator.level i.toSetting n) (i.start st) with
  | value a t =>
    rw [hx] at hn
    exact .inl ⟨a, t, ⟨by simp, n, hx⟩, hn.symm⟩
  | error e t =>
    rw [hx] at hn
    exact .inr ⟨e, t, ⟨by simp, n, hx⟩, hn.symm⟩
  | unfinished =>
    rw [hx] at hn
    exact absurd hn.symm ho

/-- The evaluation of an expression is the work of one level. -/
lemma ends_expr {e : Expr} {c : ScopeRef} {o : Outcome Value} :
    i.Ends st (fun ev => ev.expr e c) o ↔
      i.Ends st (fun ev => ev.evalExpr i.toSetting e c) o := by
  constructor
  · rintro ⟨ho, n, hn⟩
    cases n with
    | zero => exact absurd hn.symm ho
    | succ n =>
      rw [Evaluator.level_succ] at hn
      exact ⟨ho, n, hn⟩
  · rintro ⟨ho, n, hn⟩
    refine ⟨ho, n + 1, ?_⟩
    rw [Evaluator.level_succ]
    exact hn

/-- The execution of a statement is the work of one level. -/
lemma ends_stmt {x : Stmt} {c : ScopeRef} {o : Outcome Flow} :
    i.Ends st (fun ev => ev.stmt x c) o ↔
      i.Ends st (fun ev => ev.execStmt i.toSetting x c) o := by
  constructor
  · rintro ⟨ho, n, hn⟩
    cases n with
    | zero => exact absurd hn.symm ho
    | succ n =>
      rw [Evaluator.level_succ] at hn
      exact ⟨ho, n, hn⟩
  · rintro ⟨ho, n, hn⟩
    refine ⟨ho, n + 1, ?_⟩
    rw [Evaluator.level_succ]
    exact hn

/-- A step is the same at every level but the lowest one, which does nothing. -/
lemma Ends.tick {o : Outcome Unit} (h : i.Ends st (fun _ => Action.tick i.config.stepLimit) o) :
    i.Ends st (fun ev => ev.tick) o := by
  obtain ⟨ho, n, hn⟩ := h
  exact ⟨ho, 1, hn⟩

end Parts

end Interpreter

end TreeWalk
