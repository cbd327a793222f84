/-
# Two runs that look the same from inside a region

Two actions are twins for a region if, from two states that differ in nothing inside, both end with
the same value or with the same error, or neither ends, and the states still differ in nothing
inside.  Like soundness, this passes from the parts of the actions to the whole.
-/
import TreeWalk.Proofs.Sound

namespace TreeWalk.Region

variable {R : Region} {w w' : Store} {α β : Type}

/-- Two outcomes that differ in nothing that can be seen from inside the region. -/
inductive Meets (R : Region) : Outcome α → Outcome α → Prop
  | value {a : α} {t t' : State} (h : R.Alike t t') : Meets R (.value a t) (.value a t')
  | error {e : EvalError} {t t' : State} (h : R.Alike t t') : Meets R (.error e t) (.error e t')
  | unfinished : Meets R .unfinished .unfinished

variable [Placed α] [Placed β]

/-- Two actions of which the first stays inside the region and the second cannot be told from it
there. -/
structure Twin (R : Region) (w : Store) (x y : Action α) : Prop where
  sound : R.Sound w x
  meets : ∀ s s', R.From w s → R.Alike s s' → R.Meets (x s) (y s')

namespace Twin

lemma weaken {x y : Action α} (h : R.Twin w x y) (hw : w ≤ w') : R.Twin w' x y where
  sound := h.sound.weaken hw
  meets s s' hs := h.meets s s' (hs.mono hw)

lemma bind {x y : Action α} {f g : α → Action β} (h : R.Twin w x y)
    (hf : ∀ w', w ≤ w' → ∀ a, R.Inside w' a → R.Twin w' (f a) (g a)) :
    R.Twin w (x >>= f) (y >>= g) where
  sound := h.sound.bind fun w' hw a ha => (hf w' hw a ha).sound
  meets s s' hs ha := by
    have hk := h.sound s hs
    have hm := h.meets s s' hs ha
    rw [Action.bind_apply, Action.bind_apply]
    generalize x s = o at hk hm ⊢
    generalize y s' = o' at hm ⊢
    -- both go on with one value, so the rests are compared from the states that they go on in
    cases hm with
    | @value a t t' ht =>
      cases hk with
      | value run inside =>
        exact (hf t.store (hs.run run).le a inside).meets t t' ⟨le_rfl, run.valid⟩ ht
    | error ht => exact .error ht
    | unfinished => exact .unfinished

lemma blame {x y : Action α} (h : R.Twin w x y) (span : Span) :
    R.Twin w (Action.blame span x) (Action.blame span y) where
  sound := h.sound.blame span
  meets s s' hs ha := by
    have hm := h.meets s s' hs ha
    rw [Action.blame_apply, Action.blame_apply]
    generalize x s = o, y s' = o' at hm ⊢
    cases hm with
    | value ht => exact .value ht
    | error ht => exact .error ht
    | unfinished => exact .unfinished

lemma attempt {x y : Action α} (h : R.Twin w x y) :
    R.Twin w (Action.attempt x) (Action.attempt y) where
  sound := h.sound.attempt
  meets s s' hs ha := by
    have hm := h.meets s s' hs ha
    rw [Action.attempt_apply, Action.attempt_apply]
    generalize x s = o, y s' = o' at hm ⊢
    cases hm with
    | value ht => exact .value ht
    | error ht => exact .value ht
    | unfinished => exact .unfinished

lemma nested {x y : Action α} (h : R.Twin w x y) :
    R.Twin w (Action.nested x) (Action.nested y) where
  sound := h.sound.nested
  meets s s' hs ha := by
    have hm := h.meets { s with depth := s.depth + 1 } { s' with depth := s'.depth + 1 }
      ⟨hs.le, hs.valid⟩ ⟨congrArg (· + 1) ha.depth, ha.steps, ha.store⟩
    rw [Action.nested_apply, Action.nested_apply]
    generalize x { s with depth := s.depth + 1 } = o,
      y { s' with depth := s'.depth + 1 } = o' at hm ⊢
    cases hm with
    | value ht => exact .value ⟨congrArg (· - 1) ht.depth, ht.steps, ht.store⟩
    | error ht => exact .error ⟨congrArg (· - 1) ht.depth, ht.steps, ht.store⟩
    | unfinished => exact .unfinished

lemma limited {x y : Action α} (h : R.Twin w x y) (max : UInt64) :
    R.Twin w (Action.limited max x) (Action.limited max y) where
  sound := h.sound.limited max
  meets s s' hs ha := by
    rw [Action.limited_apply, Action.limited_apply, ha.depth]
    split
    · exact .error ha
    · exact h.nested.meets s s' hs ha

lemma tick (limit : Option UInt64) :
    R.Twin w (Action.tick limit) (Action.tick limit) where
  sound := .tick limit
  meets s s' _ ha := by
    cases limit with
    | none => exact .value ha.ticked
    | some l =>
      rw [Action.tick_some, Action.tick_some, ha.ticked.counter]
      split
      · exact .error ha.ticked
      · exact .value ha.ticked

end Twin

end TreeWalk.Region
