/-
# Actions that stay inside a region

An action is sound for a region if, from any state that has what it works with inside, it does no
more than `Region.Run` allows and its value is inside again.  Soundness passes from the parts of an
action to the whole; the laws below are one for each way to put actions together.
-/
import TreeWalk.Evaluator.Calls
import TreeWalk.Proofs.Ending
import TreeWalk.Proofs.Run

namespace TreeWalk

namespace Action

variable {α β : Type}

/-- Do `x` one call deeper, if that is allowed. -/
def limited (max : UInt64) (x : Action α) : Action α := do
  if max.toNat ≤ (← callDepth) then raise (.callDepth max) else nested x

/-- Do `x` until it answers something, at most `n` times. -/
def repeated (x : Action (Option β)) : Nat → Action β
  | 0 => unfinished
  | n + 1 => do
    match ← x with
    | some b => return b
    | none => repeated x n

lemma blame_apply (span : Span) (x : Action α) (s : State) :
    blame span x s =
      match x s with
      | .value a t => .value a t
      | .error e t => .error (e.blame span) t
      | .unfinished => .unfinished := rfl

lemma bind_eq_value {x : Action α} {f : α → Action β} {b : β} {s t : State} :
    (x >>= f) s = .value b t ↔ ∃ a u, x s = .value a u ∧ f a u = .value b t := by
  rw [bind_apply]
  cases x s <;> simp

lemma blame_eq_value {span : Span} {x : Action α} {a : α} {s t : State} :
    blame span x s = .value a t ↔ x s = .value a t := by
  rw [blame_apply]
  cases x s <;> simp

lemma attempt_apply (x : Action α) (s : State) :
    attempt x s =
      match x s with
      | .value a t => .value (.ok a) t
      | .error e t => .value (.error e) t
      | .unfinished => .unfinished := rfl

lemma nested_apply (x : Action α) (s : State) :
    nested x s =
      match x { s with depth := s.depth + 1 } with
      | .value a t => .value a { t with depth := t.depth - 1 }
      | .error e t => .error e { t with depth := t.depth - 1 }
      | .unfinished => .unfinished := rfl

lemma limited_apply (max : UInt64) (x : Action α) (s : State) :
    limited max x s =
      if max.toNat ≤ s.depth then .error (.ofFault (.callDepth max)) s else nested x s := by
  rw [limited, bind_apply]
  simp only [callDepth]
  split <;> rfl

lemma tick_none (s : State) : tick none s = .value () s.ticked := rfl

lemma tick_some (l : UInt64) (s : State) :
    tick (some l) s =
      if l < s.ticked.counter then .error (.ofFault (.stepLimit l)) s.ticked
      else .value () s.ticked := rfl

end Action

namespace Region

variable {R : Region} {w w' : Store} {α β : Type} [Placed α] [Placed β]

/-- A state from which the things that are inside in the store `w` are still inside. -/
structure From (R : Region) (w : Store) (s : State) : Prop where
  le : w ≤ s.store
  valid : R.Valid s.store

lemma From.mono {s : State} (hs : R.From w' s) (h : w ≤ w') : R.From w s :=
  ⟨h.trans hs.le, hs.valid⟩

lemma From.run {s t : State} (hs : R.From w s) (h : R.Run s t) : R.From w t :=
  ⟨hs.le.trans h.le, h.valid⟩

/-- An outcome to which an evaluation inside the region can come from the state `s`. -/
inductive Kept (R : Region) (s : State) : Outcome α → Prop
  | value {a : α} {t : State} (run : R.Run s t) (inside : R.Inside t.store a) :
      Kept R s (.value a t)
  | error {e : EvalError} {t : State} (run : R.Run s t) : Kept R s (.error e t)
  | unfinished : Kept R s .unfinished

lemma Kept.of_run {s t : State} {o : Outcome α} (h : R.Run s t) (ho : R.Kept t o) :
    R.Kept s o := by
  cases ho with
  | value run inside => exact .value (h.trans run) inside
  | error run => exact .error (h.trans run)
  | unfinished => exact .unfinished

lemma Kept.run {s t : State} {o : Outcome α} (h : R.Kept s o) (ho : o.EndsIn t) : R.Run s t := by
  cases h with
  | value run => cases ho; exact run
  | error run => cases ho; exact run
  | unfinished => cases ho

/-- The action stays inside the region. -/
def Sound (R : Region) (w : Store) (x : Action α) : Prop := ∀ s, R.From w s → R.Kept s (x s)

namespace Sound

lemma weaken {x : Action α} (hx : R.Sound w x) (h : w ≤ w') : R.Sound w' x :=
  fun s hs => hx s (hs.mono h)

lemma bind {x : Action α} {f : α → Action β} (hx : R.Sound w x)
    (hf : ∀ w', w ≤ w' → ∀ a, R.Inside w' a → R.Sound w' (f a)) : R.Sound w (x >>= f) := by
  intro s hs
  have h := hx s hs
  rw [Action.bind_apply]
  generalize x s = o at h ⊢
  cases h with
  | @value a t run inside =>
    -- the value is inside in the store in which `x` left it, and so the rest is sound from there
    exact .of_run run (hf t.store (hs.run run).le a inside t ⟨le_rfl, run.valid⟩)
  | error run => exact .error run
  | unfinished => exact .unfinished

lemma blame {x : Action α} (hx : R.Sound w x) (span : Span) :
    R.Sound w (Action.blame span x) := by
  intro s hs
  have h := hx s hs
  rw [Action.blame_apply]
  generalize x s = o at h ⊢
  cases h with
  | value run inside => exact .value run inside
  | error run => exact .error run
  | unfinished => exact .unfinished

lemma attempt {x : Action α} (hx : R.Sound w x) : R.Sound w (Action.attempt x) := by
  intro s hs
  have h := hx s hs
  rw [Action.attempt_apply]
  generalize x s = o at h ⊢
  cases h with
  | value run inside => exact .value run (inside_ok inside)
  | error run => exact .value run (inside_error trivial)
  | unfinished => exact .unfinished

lemma nested {x : Action α} (hx : R.Sound w x) : R.Sound w (Action.nested x) := by
  intro s hs
  have h := hx { s with depth := s.depth + 1 } ⟨hs.le, hs.valid⟩
  rw [Action.nested_apply]
  generalize x { s with depth := s.depth + 1 } = o at h ⊢
  cases h with
  | value run inside => exact .value run.of_nested inside
  | error run => exact .error run.of_nested
  | unfinished => exact .unfinished

lemma limited {x : Action α} (hx : R.Sound w x) (max : UInt64) :
    R.Sound w (Action.limited max x) := by
  intro s hs
  rw [Action.limited_apply]
  split
  · exact .error (.refl hs.valid)
  · exact hx.nested s hs

lemma tick (limit : Option UInt64) : R.Sound w (Action.tick limit) := by
  intro s hs
  cases limit with
  | none => exact .value (.of_tick hs.valid) trivial
  | some l =>
    rw [Action.tick_some]
    split
    · exact .error (.of_tick hs.valid)
    · exact .value (.of_tick hs.valid) trivial

end Sound

end Region

end TreeWalk
