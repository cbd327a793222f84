/-
# What holds throughout an evaluation

A watch looks at the parts of an evaluation, which are the evaluations of expressions, the writes to
targets, the executions of statements and the calls: at the state that a part starts in and at the
outcome that it comes to.  Where a part is not as it should be the watched evaluator puts an alarm
in its place.  A property holds throughout an evaluation if no alarm, whatever it does, makes a
difference to the evaluators of any level (`Interpreter.Throughout`); this says something about
evaluations that do not end as well.

To see that something holds throughout it is enough to have a property of stores that the parts keep
(`Region.Watched`).
-/
import TreeWalk.Proofs.Primitives

namespace TreeWalk

/-- What is asked of a part of an evaluation: of the state that it starts in and of its outcome. -/
def Watch : Type 1 := (α : Type) → State → Outcome α → Prop

/-- What takes the place of a part of an evaluation. -/
def Alarm : Type 1 := (α : Type) → State → Outcome α

section

open Classical

variable (P : Watch) (alarm : Alarm)

/-- Do `x`, but raise the alarm if that is not as it should be. -/
noncomputable def Action.watched {α : Type} (x : Action α) : Action α := fun s =>
  if P α s (x s) then x s else alarm α s

namespace Evaluator

/-- The evaluator with all its parts watched. -/
noncomputable def watched (ev : Evaluator) : Evaluator where
  rounds := ev.rounds
  tick := ev.tick
  expr e c := (ev.expr e c).watched P alarm
  assign target v c := (ev.assign target v c).watched P alarm
  stmt s c := (ev.stmt s c).watched P alarm
  invoke f args := (ev.invoke f args).watched P alarm

/-- The evaluator of level `n`, with all parts of its parts watched. -/
noncomputable def watchedLevel (σ : Setting) : Nat → Evaluator
  | 0 => stuck.watched P alarm
  | n + 1 => ((watchedLevel σ n).above σ).watched P alarm

/-- To be watched makes no difference to the number of rounds. -/
lemma rounds_watchedLevel (σ : Setting) (n : Nat) (b : Bool) :
    (cond b (watchedLevel P alarm σ n) (level σ n)).rounds = n := by
  have hwatched : (watchedLevel P alarm σ n).rounds = n := by
    induction n with
    | zero => rfl
    | succ n ih => exact congrArg (· + 1) ih
  cases b with
  | false => exact rounds_level σ n
  | true => exact hwatched

end Evaluator

end

/-- All parts of a task are as they should be: whatever takes the place of those that are not, the
task comes to what it comes to without being watched. -/
def Interpreter.Throughout {α : Type} (i : Interpreter) (st : Store) (task : Evaluator → Action α)
    (P : Watch) : Prop :=
  ∀ (alarm : Alarm) (n : Nat), task (Evaluator.watchedLevel P alarm i.toSetting n) (i.start st) =
    task (Evaluator.level i.toSetting n) (i.start st)

namespace Region

variable {R : Region} {I : Store → Prop} {F : Fault → Prop} {w w' : Store} {α β : Type}
  [Placed α] [Placed β]

/-- An outcome to which an evaluation inside the region can come from the state `s`, in a store with
the property `I`, that is no failure but for one of the faults `F`. -/
inductive Safe (R : Region) (I : Store → Prop) (F : Fault → Prop) (s : State) : Outcome α → Prop
  | value {a : α} {t : State} (run : R.Run s t) (inside : R.Inside t.store a) (store : I t.store) :
      Safe R I F s (.value a t)
  | error {e : EvalError} {t : State} (run : R.Run s t) (store : I t.store) (fault : F e.fault) :
      Safe R I F s (.error e t)
  | unfinished : Safe R I F s .unfinished

namespace Safe

variable {s t : State} {o : Outcome α}

lemma of_run (h : R.Run s t) (ho : R.Safe I F t o) : R.Safe I F s o := by
  cases ho with
  | value run inside store => exact .value (h.trans run) inside store
  | error run store fault => exact .error (h.trans run) store fault
  | unfinished => exact .unfinished

/-- What was kept is safe if its store has the property, and its fault is one of those. -/
lemma of_kept (h : R.Kept s o) (hI : ∀ t, R.Run s t → o.EndsIn t → I t.store)
    (hF : ∀ e t, o = .error e t → F e.fault) : R.Safe I F s o := by
  cases h with
  | value run inside => exact .value run inside (hI _ run (.value _ _))
  | error run => exact .error run (hI _ run (.error _ _)) (hF _ _ rfl)
  | unfinished => exact .unfinished

lemma run_store (h : R.Safe I F s o) (ho : o.EndsIn t) : R.Run s t ∧ I t.store := by
  cases h with
  | value run _ store => cases ho; exact ⟨run, store⟩
  | error run store _ => cases ho; exact ⟨run, store⟩
  | unfinished => cases ho

lemma fault {e : EvalError} (h : R.Safe I F s (.error e t : Outcome α)) : F e.fault := by
  cases h with
  | error _ _ fault => exact fault

section

variable {x : Action α}

lemma blame (h : R.Safe I F s (x s)) (span : Span) : R.Safe I F s (Action.blame span x s) := by
  rw [Action.blame_apply]
  generalize x s = o at h ⊢
  cases h with
  | value run inside store => exact .value run inside store
  | error run store fault => exact .error run store (by rwa [EvalError.fault_blame])
  | unfinished => exact .unfinished

lemma attempt (h : R.Safe I F s (x s)) : R.Safe I F s (Action.attempt x s) := by
  rw [Action.attempt_apply]
  generalize x s = o at h ⊢
  cases h with
  | value run inside store => exact .value run (inside_ok inside) store
  | error run store _ => exact .value run (inside_error trivial) store
  | unfinished => exact .unfinished

lemma nested (h : R.Safe I F { s with depth := s.depth + 1 } (x { s with depth := s.depth + 1 })) :
    R.Safe I F s (Action.nested x s) := by
  rw [Action.nested_apply]
  generalize x { s with depth := s.depth + 1 } = o at h ⊢
  cases h with
  | value run inside store => exact .value run.of_nested inside store
  | error run store fault => exact .error run.of_nested store fault
  | unfinished => exact .unfinished

lemma tick {w : Store} (limit : Option UInt64) (hs : R.From w s) (hI : I s.store)
    (hF : ∀ l, F (.stepLimit l)) : R.Safe I F s (Action.tick limit s) := by
  cases limit with
  | none => exact .value (.of_tick hs.valid) trivial hI
  | some l =>
    rw [Action.tick_some]
    split
    · exact .error (.of_tick hs.valid) hI (hF l)
    · exact .value (.of_tick hs.valid) trivial hI

end

end Safe

/-- From a store with the property `I` the first action comes to an outcome that is safe, and the
second one to the same outcome. -/
structure Watched (R : Region) (I : Store → Prop) (F : Fault → Prop) (w : Store)
    (x y : Action α) : Prop where
  safe : ∀ s, R.From w s → I s.store → R.Safe I F s (x s)
  same : ∀ s, R.From w s → I s.store → y s = x s

namespace Watched

lemma weaken {x y : Action α} (h : R.Watched I F w x y) (hw : w ≤ w') :
    R.Watched I F w' x y where
  safe s hs := h.safe s (hs.mono hw)
  same s hs := h.same s (hs.mono hw)

lemma unfinished : R.Watched I F w (Action.unfinished : Action α) Action.unfinished where
  safe _ _ _ := .unfinished
  same _ _ _ := rfl

lemma pure {a : α} (ha : R.Inside w a) :
    R.Watched I F w (Pure.pure a : Action α) (Pure.pure a) where
  safe _ hs hI := .value (.refl hs.valid) (ha.mono hs.le) hI
  same _ _ _ := rfl

/-- The rest of an action starts in a store that has the property again, with a value of the first
part of it. -/
lemma bind_values {x y : Action α} {f g : α → Action β} (h : R.Watched I F w x y)
    (hf : ∀ w', w ≤ w' → ∀ a, R.Inside w' a → (∃ s t, x s = .value a t) →
      R.Watched I F w' (f a) (g a)) : R.Watched I F w (x >>= f) (y >>= g) where
  safe s hs hI := by
    have hx := h.safe s hs hI
    rw [Action.bind_apply]
    cases ho : x s with
    | value a t =>
      rw [ho] at hx
      cases hx with
      | value run inside store =>
        have ha := hf t.store (hs.run run).le a inside ⟨s, t, ho⟩
        exact .of_run run (ha.safe t ⟨le_rfl, run.valid⟩ store)
    | error e t =>
      rw [ho] at hx
      cases hx with
      | error run store fault => exact .error run store fault
    | unfinished => exact .unfinished
  same s hs hI := by
    have hx := h.safe s hs hI
    rw [Action.bind_apply, Action.bind_apply, h.same s hs hI]
    cases ho : x s with
    | value a t =>
      rw [ho] at hx
      cases hx with
      | value run inside store =>
        have ha := hf t.store (hs.run run).le a inside ⟨s, t, ho⟩
        exact ha.same t ⟨le_rfl, run.valid⟩ store
    | error e t => rfl
    | unfinished => rfl

lemma bind {x y : Action α} {f g : α → Action β} (h : R.Watched I F w x y)
    (hf : ∀ w', w ≤ w' → ∀ a, R.Inside w' a → R.Watched I F w' (f a) (g a)) :
    R.Watched I F w (x >>= f) (y >>= g) :=
  h.bind_values fun w' hw a ha _ => hf w' hw a ha

lemma blame {x y : Action α} (h : R.Watched I F w x y) (span : Span) :
    R.Watched I F w (Action.blame span x) (Action.blame span y) where
  safe s hs hI := (h.safe s hs hI).blame span
  same s hs hI := by rw [Action.blame_apply, Action.blame_apply, h.same s hs hI]

lemma attempt {x y : Action α} (h : R.Watched I F w x y) :
    R.Watched I F w (Action.attempt x) (Action.attempt y) where
  safe s hs hI := (h.safe s hs hI).attempt
  same s hs hI := by rw [Action.attempt_apply, Action.attempt_apply, h.same s hs hI]

lemma nested {x y : Action α} (h : R.Watched I F w x y) :
    R.Watched I F w (Action.nested x) (Action.nested y) where
  safe s hs hI := (h.safe { s with depth := s.depth + 1 } ⟨hs.le, hs.valid⟩ hI).nested
  same s hs hI := by
    have hsame := h.same { s with depth := s.depth + 1 } ⟨hs.le, hs.valid⟩ hI
    rw [Action.nested_apply, Action.nested_apply, hsame]

lemma limited {x y : Action α} (h : R.Watched I F w x y) {max : UInt64} (hF : F (.callDepth max)) :
    R.Watched I F w (Action.limited max x) (Action.limited max y) where
  safe s hs hI := by
    rw [Action.limited_apply]
    split
    · exact .error (.refl hs.valid) hI hF
    · exact h.nested.safe s hs hI
  same s hs hI := by rw [Action.limited_apply, Action.limited_apply, h.nested.same s hs hI]

lemma tick (limit : Option UInt64) (hF : ∀ l, F (.stepLimit l)) :
    R.Watched I F w (Action.tick limit) (Action.tick limit) where
  safe _ hs hI := .tick limit hs hI hF
  same _ _ _ := rfl

/-- An alarm that is raised for nothing that is safe makes no difference. -/
lemma watched {x y : Action α} (h : R.Watched I F w x y) {P : Watch} (alarm : Alarm)
    (hP : ∀ {s : State} {o : Outcome α}, I s.store → R.Safe I F s o → P α s o) :
    R.Watched I F w x (y.watched P alarm) where
  safe := h.safe
  same s hs hI := by
    unfold Action.watched
    rw [h.same s hs hI, if_pos (hP hI (h.safe s hs hI))]

end Watched

end Region

end TreeWalk
