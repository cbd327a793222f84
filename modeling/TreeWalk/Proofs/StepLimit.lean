/-
# The step limit is exact, and otherwise invisible

An evaluation with a step limit does what the evaluation without one does, as long as that takes no
more steps than the limit allows, and fails with the next step (`run_withStepLimit`).  This is a law
that relates the evaluations in two settings: what the one does with its budget is cut off from what
the other one does (`Region.Cut`).  A builtin that catches errors would go on after the cut, so the
law holds only where none can be reached.  And it says nothing of evaluations with more steps than
the counter can show, as a step that is not allowed may be granted after the counter has gone on
with zero.
-/
import TreeWalk.Proofs.Law
import TreeWalk.Proofs.Spanned

namespace TreeWalk

lemma Fault.kind_stepLimit (l : UInt64) : (Fault.stepLimit l).kind = .resourceExhausted := rfl

lemma Fault.message_stepLimit (l : UInt64) :
    (Fault.stepLimit l).message = "step limit exceeded (" ++ Nat.repr l.toNat ++ ")" := rfl

/-- The second outcome is the first one, cut off after `m` steps because of the limit `l`, unless
there have been more steps than the counter can show. -/
inductive Outcome.CutOff {α : Type} (l : UInt64) (m : Nat) : Outcome α → Outcome α → Prop
  | within {o : Outcome α} {t : State} (ends : o.EndsIn t) (le : t.steps ≤ m) : CutOff l m o o
  | beyond {o : Outcome α} {t u : State} {e : EvalError} (ends : o.EndsIn t) (lt : m < t.steps)
      (fault : e.fault = .stepLimit l) (steps : u.steps = m + 1) : CutOff l m o (.error e u)
  | beyondCounter {o o' : Outcome α} {t : State} (ends : o.EndsIn t) (le : 2 ^ 64 ≤ t.steps) :
      CutOff l m o o'
  | unfinished {o : Outcome α} : CutOff l m .unfinished o

/-- Whether an end is cut off depends on the number of its steps alone. -/
lemma Outcome.CutOff.of_endsIn {α : Type} {l : UInt64} {m : Nat} {o o' : Outcome α} {s : State}
    (h : o.CutOff l m o') (hs : o.EndsIn s) (hshown : s.steps < 2 ^ 64) :
    (s.steps ≤ m ∧ o' = o) ∨
      (m < s.steps ∧ ∃ e u, o' = .error e u ∧ e.fault = .stepLimit l ∧ u.steps = m + 1) := by
  cases h with
  | within ends le => exact .inl ⟨ends.unique hs ▸ le, rfl⟩
  | beyond ends lt fault steps =>
    exact .inr ⟨ends.unique hs ▸ lt, _, _, rfl, fault, steps⟩
  | beyondCounter ends le => exact absurd (ends.unique hs ▸ le) (Nat.not_le_of_lt hshown)
  | unfinished => cases hs

namespace Region

variable {R : Region} {w w' : Store} {α β : Type} [Placed α] [Placed β] {l : UInt64}

/-- A state in which the budget is spent has the steps it has; another one has the whole budget. -/
def allowance (l : UInt64) (s : State) : Nat := max l.toNat s.steps

/-- The second action is the first one with a step limit, where the first one has none. -/
structure Cut (R : Region) (l : UInt64) (w : Store) (x y : Action α) : Prop where
  sound : R.Sound w x
  cutOff : ∀ s, R.From w s → (x s).CutOff l (allowance l s) (y s)

/-- What has gone beyond the allowance is cut off, however it goes on. -/
lemma Kept.cutOff_of_lt {s u : State} {o : Outcome α} {e : EvalError} {m : Nat} (h : R.Kept s o)
    (hs : m < s.steps) (he : e.fault = .stepLimit l) (hu : u.steps = m + 1) :
    o.CutOff l m (.error e u) := by
  cases h with
  | @value a t run inside => exact .beyond (.value a t) (hs.trans_le run.steps) he hu
  | @error e' t run => exact .beyond (.error e' t) (hs.trans_le run.steps) he hu
  | unfinished => exact .unfinished

/-- Nothing is said of what comes after more steps than the counter can show. -/
lemma Kept.cutOff_of_beyondCounter {s : State} {o o' : Outcome α} {m : Nat} (h : R.Kept s o)
    (hs : 2 ^ 64 ≤ s.steps) : o.CutOff l m o' := by
  cases h with
  | @value a t run inside => exact .beyondCounter (.value a t) (hs.trans run.steps)
  | @error e t run => exact .beyondCounter (.error e t) (hs.trans run.steps)
  | unfinished => exact .unfinished

namespace Cut

lemma weaken {x y : Action α} (h : R.Cut l w x y) (hw : w ≤ w') : R.Cut l w' x y where
  sound := h.sound.weaken hw
  cutOff s hs := h.cutOff s (hs.mono hw)

/-- An action that takes no step is never cut off. -/
lemma of_contained {p : Action α} (hp : R.Contained w p) : R.Cut l w p p where
  sound := hp.sound
  cutOff s hs := by
    have hsteps := hp.steps s
    generalize p s = o at hsteps ⊢
    cases o with
    | value a t =>
      have ht := hsteps t hs (.value a t)
      exact .within (.value a t) (ht.le.trans (le_max_right _ _))
    | error e t =>
      have ht := hsteps t hs (.error e t)
      exact .within (.error e t) (ht.le.trans (le_max_right _ _))
    | unfinished => exact .unfinished

lemma bind {x y : Action α} {f g : α → Action β} (h : R.Cut l w x y)
    (hf : ∀ w', w ≤ w' → ∀ a, R.Inside w' a → R.Cut l w' (f a) (g a)) :
    R.Cut l w (x >>= f) (y >>= g) where
  sound := h.sound.bind fun w' hw a ha => (hf w' hw a ha).sound
  cutOff s hs := by
    have hk := h.sound s hs
    have hc := h.cutOff s hs
    rw [Action.bind_apply, Action.bind_apply]
    generalize x s = o at hk hc ⊢
    generalize y s = o' at hc ⊢
    cases hk with
    | @value a t run inside =>
      have hrest := hf t.store (hs.run run).le a inside
      have hfrom : R.From t.store t := ⟨le_rfl, run.valid⟩
      cases hc with
      | @within _ u ends le =>
        cases ends
        -- the rest of the evaluation has the same allowance
        have hall : allowance l t = allowance l s := by
          have hst := run.steps
          unfold allowance at le ⊢
          omega
        exact hall ▸ hrest.cutOff t hfrom
      | @beyond _ u u' e ends lt fault steps =>
        cases ends
        exact (hrest.sound t hfrom).cutOff_of_lt lt fault steps
      | beyondCounter ends le =>
        cases ends
        exact (hrest.sound t hfrom).cutOff_of_beyondCounter le
    | @error e t run =>
      cases hc with
      | within ends le =>
        cases ends
        exact .within (.error _ _) le
      | beyond ends lt fault steps =>
        cases ends
        exact .beyond (.error _ _) lt fault steps
      | beyondCounter ends le =>
        cases ends
        exact .beyondCounter (.error _ _) le
    | unfinished => exact .unfinished

lemma blame {x y : Action α} (h : R.Cut l w x y) (span : Span) :
    R.Cut l w (Action.blame span x) (Action.blame span y) where
  sound := h.sound.blame span
  cutOff s hs := by
    have hc := h.cutOff s hs
    rw [Action.blame_apply, Action.blame_apply]
    generalize x s = o, y s = o' at hc ⊢
    cases hc with
    | within ends le =>
      cases ends with
      | value a _ => exact .within (.value a _) le
      | error e _ => exact .within (.error _ _) le
    | beyond ends lt fault steps =>
      cases ends with
      | value a _ => exact .beyond (.value a _) lt ((EvalError.fault_blame _ _).trans fault) steps
      | error e _ => exact .beyond (.error _ _) lt ((EvalError.fault_blame _ _).trans fault) steps
    | beyondCounter ends le =>
      cases ends with
      | value a _ => exact .beyondCounter (.value a _) le
      | error e _ => exact .beyondCounter (.error _ _) le
    | unfinished => exact .unfinished

lemma nested {x y : Action α} (h : R.Cut l w x y) :
    R.Cut l w (Action.nested x) (Action.nested y) where
  sound := h.sound.nested
  cutOff s hs := by
    have hc := h.cutOff { s with depth := s.depth + 1 } ⟨hs.le, hs.valid⟩
    rw [Action.nested_apply, Action.nested_apply]
    generalize x { s with depth := s.depth + 1 } = o,
      y { s with depth := s.depth + 1 } = o' at hc ⊢
    cases hc with
    | within ends le =>
      cases ends with
      | value a _ => exact .within (.value a _) le
      | error e _ => exact .within (.error e _) le
    | beyond ends lt fault steps =>
      cases ends with
      | value a _ => exact .beyond (.value a _) lt fault steps
      | error e _ => exact .beyond (.error e _) lt fault steps
    | beyondCounter ends le =>
      cases ends with
      | value a _ => exact .beyondCounter (.value a _) le
      | error e _ => exact .beyondCounter (.error e _) le
    | unfinished => exact .unfinished

lemma limited {x y : Action α} (h : R.Cut l w x y) (max : UInt64) :
    R.Cut l w (Action.limited max x) (Action.limited max y) where
  sound := h.sound.limited max
  cutOff s hs := by
    rw [Action.limited_apply, Action.limited_apply]
    split
    · exact .within (.error _ s) (le_max_right _ _)
    · exact h.nested.cutOff s hs

/-- The one step of a tick is where an evaluation is cut off. -/
lemma tick : R.Cut l w (Action.tick none) (Action.tick (some l)) where
  sound := .tick none
  cutOff s _ := by
    have ht : (Action.tick none s).EndsIn s.ticked := .value () _
    by_cases hshown : 2 ^ 64 ≤ s.ticked.steps
    · exact .beyondCounter ht hshown
    have hcounter : s.ticked.counter.toNat = s.steps + 1 :=
      UInt64.toNat_ofNat_of_lt' (Nat.lt_of_not_le hshown)
    rw [Action.tick_some]
    split
    · next hlt =>
      have hlt' : l.toNat < s.steps + 1 := hcounter ▸ UInt64.lt_iff_toNat_lt.mp hlt
      have hall : allowance l s = s.steps := max_eq_right (Nat.le_of_lt_succ hlt')
      exact .beyond ht (hall ▸ Nat.lt_succ_self _) rfl (hall ▸ rfl)
    · next hle =>
      have hle' : s.steps + 1 ≤ l.toNat :=
        hcounter ▸ UInt64.le_iff_toNat_le.mp (UInt64.not_lt.mp hle)
      exact .within ht (le_max_of_le_left hle')

end Cut

end Region

namespace Interpreter

/-- The interpreter with another step limit, or with none. -/
def withStepLimit (i : Interpreter) (limit : Option UInt64) : Interpreter :=
  { i with config := { i.config with stepLimit := limit } }

/-- The settings of an interpreter without and with a step limit. -/
def limitSettings (i : Interpreter) (l : UInt64) (b : Bool) : Setting :=
  (i.withStepLimit (cond b (some l) none)).toSetting

end Interpreter

/-- The law that relates the evaluations without and with a step limit, where errors are not
caught. -/
def Law.cut {R : Region} (i : Interpreter) (l : UInt64) (hattempt : ¬ R.allows .attempt)
    (hglobals : .scope i.globals ∈ R.start) : Law R (i.limitSettings l) where
  Holds w x := R.Cut l w (x false) (x true)
  weaken h hw := h.weaken hw
  contained h := .of_contained h
  bind hx hf := hx.bind hf
  blame span _ h := h.blame span
  limited h := h.limited i.config.maxCallDepth
  attempt h := absurd h hattempt
  globals _ := ⟨i.globals, hglobals, fun _ => rfl⟩
  arguments f _ _ hc _ ha := .of_contained (.bindArguments _ f hc ha)

lemma Law.cut_level {R : Region} (i : Interpreter) (l : UInt64) (hattempt : ¬ R.allows .attempt)
    (hglobals : .scope i.globals ∈ R.start) (n : Nat) :
    (cut i l hattempt hglobals).Obeys fun b => Evaluator.level (i.limitSettings l b) n := by
  have hstuck : ∀ {α : Type} [Placed α] (w : Store),
      R.Cut l w (Action.unfinished : Action α) Action.unfinished :=
    fun w => ⟨fun _ _ => .unfinished, fun _ _ => .unfinished⟩
  exact obeys_level (cut i l hattempt hglobals) hstuck (fun w => Region.Cut.tick) n

/-- A program with a step limit ends as it does without one, if that takes no more steps than are
allowed or none at all; otherwise it fails with the first step that is not allowed.  The counter has
to be able to show the steps without the limit. -/
theorem run_withStepLimit (i : Interpreter) (st : Store) (program : List Stmt) (limit : UInt64)
    (hcatch : ∀ r, st.Reaches (.scope i.globals) (.builtin r) →
      (st.builtin r).native ≠ .attempt)
    (o : Outcome Value) (s : State)
    (hrun : (i.withStepLimit none).Ends st (fun ev => ev.runFrom i.globals .nil program) o)
    (hs : o.EndsIn s) (hshown : s.steps < 2 ^ 64) :
    if s.steps ≤ limit.toNat ∨ s.steps = i.steps then
      (i.withStepLimit (some limit)).Ends st (fun ev => ev.runFrom i.globals .nil program) o
    else
      ∃ e t, (i.withStepLimit (some limit)).Ends st
          (fun ev => ev.runFrom i.globals .nil program) (.error e t) ∧
        e.kind = .resourceExhausted ∧
        e.message = "step limit exceeded (" ++ Nat.repr limit.toNat ++ ")" ∧
        t.steps = max limit.toNat i.steps + 1 := by
  obtain ⟨ho, n, hn⟩ := hrun
  let R := Region.spanned st (· = .scope i.globals) (· ≠ .attempt)
    fun _ r hm hr => hcatch r (hm ▸ hr)
  have hglobals : .scope i.globals ∈ R.start := ⟨_, rfl, .refl⟩
  have hnil : R.Inside st Value.nil := Region.inside_of_node?_eq_none rfl
  have hcut := (Law.cut_level (R := R) i limit (fun h => h rfl) hglobals n).runFrom
    (w := st) (.inl hglobals) hnil program
  have hfrom : R.From st (i.start st) := ⟨le_rfl, R.valid_base⟩
  -- a program that has taken no step may have started with more steps than are allowed
  have hsteps : i.steps ≤ s.steps := by
    have hkept : R.Kept (i.start st) o := hn ▸ hcut.sound _ hfrom
    exact (hkept.run hs).steps
  have hoff : o.CutOff limit (max limit.toNat i.steps)
      ((Evaluator.level (i.withStepLimit (some limit)).toSetting n).runFrom i.globals .nil program
        (i.start st)) := hn ▸ hcut.cutOff _ hfrom
  rcases hoff.of_endsIn hs hshown with ⟨hle, hn'⟩ | ⟨hlt, e, t, hn', hfault, ht⟩
  · rw [if_pos (by omega)]
    exact ⟨ho, n, hn'⟩
  · rw [if_neg (by omega)]
    refine ⟨e, t, ⟨by simp, n, hn'⟩, ?_, ?_, ht⟩
    · rw [EvalError.kind, hfault, Fault.kind_stepLimit]
    · rw [EvalError.message, hfault, Fault.message_stepLimit]

/-- A loop that counts to two takes 21 steps with what is around it. -/
theorem run_withStepLimit_count :
    let n : Expr := .synthetic (.identifier "n")
    let program : List Stmt := [
      .synthetic (.declare "n" (some (.synthetic (.number 0)))),
      .synthetic (.loop none (some (.synthetic (.binary n .lt (.synthetic (.number 2)))))
        (some (.synthetic (.step .increment false n))) []),
      .ofExpr n]
    let i := (Interpreter.create {} {}).1
    let st := (Interpreter.create {} {}).2
    (∀ r, st.Reaches (.scope i.globals) (.builtin r) → (st.builtin r).native ≠ .attempt) ∧
    ∃ s, s.steps = 21 ∧
      (i.withStepLimit none).Ends st (fun ev => ev.runFrom i.globals .nil program)
        (.value (.number 2) s) ∧
      (i.withStepLimit (some 21)).Ends st (fun ev => ev.runFrom i.globals .nil program)
        (.value (.number 2) s) ∧
      ∃ e t, (i.withStepLimit (some 20)).Ends st
          (fun ev => ev.runFrom i.globals .nil program) (.error e t) ∧
        e.kind = .resourceExhausted ∧ e.message = "step limit exceeded (20)" ∧ t.steps = 21 := by
  intro n program i st
  have hcatch : ∀ r, st.Reaches (.scope i.globals) (.builtin r) →
      (st.builtin r).native ≠ .attempt := fun r hr => by
    cases Interpreter.reaches_create hr
  obtain ⟨v, s, hrun, hv⟩ := Interpreter.Ends.of_passes (i.withStepLimit none) st
    (fun ev => ev.runFrom i.globals .nil program)
    (fun v s => decide (v = .number 2 ∧ s.steps = 21)) 10 (by decide +kernel)
  obtain ⟨rfl, hs⟩ := of_decide_eq_true hv
  have hshown : s.steps < 2 ^ 64 := by rw [hs]; decide
  have h₂₁ := run_withStepLimit i st program 21 hcatch _ s hrun (.value _ s) hshown
  have h₂₀ := run_withStepLimit i st program 20 hcatch _ s hrun (.value _ s) hshown
  rw [if_pos (by rw [hs]; decide)] at h₂₁
  rw [if_neg (by rw [hs]; decide)] at h₂₀
  exact ⟨hcatch, s, hs, hrun, h₂₁, h₂₀⟩

end TreeWalk
