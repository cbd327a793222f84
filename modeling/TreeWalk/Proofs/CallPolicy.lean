/-
# Looser call policies

An evaluation that no call policy stops does the same under looser policies: with a larger call
depth, and with arguments bound leniently instead of strictly (`run_withConfig`).  Like that of the
step limit this is a law that relates the evaluations in two settings, and it needs errors not to be
caught, since a builtin that catches the refusal of a call would go on where the other evaluation
makes the call.
-/
import TreeWalk.Proofs.Law
import TreeWalk.Proofs.Spanned

namespace TreeWalk

/-- The fault of a call that is refused because of the policies: it is deeper than `max`, or it has
the wrong number of arguments. -/
def Fault.RefusesCall (max : UInt64) : Fault → Prop
  | .callDepth m => m = max
  | .argumentCount _ _ _ => True
  | _ => False

/-- The second outcome is the first one, unless that is a call that was refused. -/
inductive Outcome.Follows {α : Type} (max : UInt64) : Outcome α → Outcome α → Prop
  | same {o : Outcome α} : Follows max o o
  | refused {e : EvalError} {t : State} {o : Outcome α} (h : e.fault.RefusesCall max) :
      Follows max (.error e t) o
  | unfinished {o : Outcome α} : Follows max .unfinished o

lemma Outcome.Follows.eq {α : Type} {max : UInt64} {o o' : Outcome α} (h : o.Follows max o')
    (hended : o ≠ .unfinished)
    (hrefused : ∀ e t, o = .error e t → ¬ e.fault.RefusesCall max) : o' = o := by
  cases h with
  | same => rfl
  | refused hfault => exact absurd hfault (hrefused _ _ rfl)
  | unfinished => exact absurd rfl hended

/-- The configuration `C'` has the step limit of `C`, and its call policies are no stricter. -/
structure Config.Loosens (C C' : Config) : Prop where
  stepLimit : C'.stepLimit = C.stepLimit
  maxCallDepth : C.maxCallDepth ≤ C'.maxCallDepth
  arity : C'.arity = C.arity ∨ C.arity = .strict ∧ C'.arity = .lenient

namespace Region

variable {R : Region} {w w' : Store} {α β : Type} [Placed α] [Placed β] {max : UInt64}

/-- The second action does what the first one does, unless a call is refused in that. -/
structure Looser (R : Region) (max : UInt64) (w : Store) (x y : Action α) : Prop where
  sound : R.Sound w x
  follows : ∀ s, R.From w s → (x s).Follows max (y s)

namespace Looser

lemma weaken {x y : Action α} (h : R.Looser max w x y) (hw : w ≤ w') : R.Looser max w' x y where
  sound := h.sound.weaken hw
  follows s hs := h.follows s (hs.mono hw)

lemma of_contained {p : Action α} (hp : R.Contained w p) : R.Looser max w p p where
  sound := hp.sound
  follows _ _ := .same

lemma bind {x y : Action α} {f g : α → Action β} (h : R.Looser max w x y)
    (hf : ∀ w', w ≤ w' → ∀ a, R.Inside w' a → R.Looser max w' (f a) (g a)) :
    R.Looser max w (x >>= f) (y >>= g) where
  sound := h.sound.bind fun w' hw a ha => (hf w' hw a ha).sound
  follows s hs := by
    have hk := h.sound s hs
    have hxy := h.follows s hs
    rw [Action.bind_apply, Action.bind_apply]
    generalize x s = o at hk hxy ⊢
    generalize y s = o' at hxy ⊢
    cases hxy with
    | same =>
      cases hk with
      | @value a t run inside =>
        exact (hf t.store (hs.run run).le a inside).follows t ⟨le_rfl, run.valid⟩
      | error _ => exact .same
      | unfinished => exact .unfinished
    | refused hfault => exact .refused hfault
    | unfinished => exact .unfinished

lemma blame {x y : Action α} (h : R.Looser max w x y) (span : Span) :
    R.Looser max w (Action.blame span x) (Action.blame span y) where
  sound := h.sound.blame span
  follows s hs := by
    have hxy := h.follows s hs
    rw [Action.blame_apply, Action.blame_apply]
    generalize x s = o, y s = o' at hxy ⊢
    cases hxy with
    | same => exact .same
    | refused hfault => exact .refused (by rwa [EvalError.fault_blame])
    | unfinished => exact .unfinished

lemma nested {x y : Action α} (h : R.Looser max w x y) :
    R.Looser max w (Action.nested x) (Action.nested y) where
  sound := h.sound.nested
  follows s hs := by
    have hxy := h.follows { s with depth := s.depth + 1 } ⟨hs.le, hs.valid⟩
    rw [Action.nested_apply, Action.nested_apply]
    generalize x { s with depth := s.depth + 1 } = o,
      y { s with depth := s.depth + 1 } = o' at hxy ⊢
    cases hxy with
    | same => exact .same
    | refused hfault => exact .refused hfault
    | unfinished => exact .unfinished

/-- A call that the smaller depth allows is allowed by the larger one. -/
lemma limited {x y : Action α} (h : R.Looser max w x y) {max' : UInt64} (hmax : max ≤ max') :
    R.Looser max w (Action.limited max x) (Action.limited max' y) where
  sound := h.sound.limited max
  follows s hs := by
    have hle : max.toNat ≤ max'.toNat := hmax
    rw [Action.limited_apply, Action.limited_apply]
    split
    · exact .refused rfl
    · next hlt =>
      rw [if_neg (by omega)]
      exact h.nested.follows s hs

/-- Arguments that are bound strictly are bound leniently in the same way. -/
lemma bindArguments {policy policy' : ArityPolicy}
    (harity : policy' = policy ∨ policy = .strict ∧ policy' = .lenient) (f : Closure)
    {c : ScopeRef} (hc : R.Inside w c) {args : List Value} (ha : R.Inside w args) :
    R.Looser max w (Evaluator.bindArguments policy f c args)
      (Evaluator.bindArguments policy' f c args) where
  sound := (Contained.bindArguments policy f hc ha).sound
  follows s _ := by
    obtain rfl | ⟨rfl, rfl⟩ := harity
    · exact .same
    · unfold Evaluator.bindArguments
      split
      · exact .refused trivial
      · exact .same

end Looser

end Region

namespace Law

variable {R : Region} (i : Interpreter) {C : Config} (hC : i.config.Loosens C)

/-- The settings of an interpreter with its own configuration and with another one. -/
def configSettings (i : Interpreter) (C : Config) (b : Bool) : Setting :=
  { i.toSetting with config := cond b C i.config }

include hC in
/-- The law that relates the evaluations under two call policies, where errors are not caught. -/
def loosens (hattempt : ¬ R.allows .attempt) (hglobals : .scope i.globals ∈ R.start) :
    Law R (configSettings i C) where
  Holds w x := R.Looser i.config.maxCallDepth w (x false) (x true)
  weaken h hw := h.weaken hw
  contained h := .of_contained h
  bind hx hf := hx.bind hf
  blame span _ h := h.blame span
  limited h := h.limited hC.maxCallDepth
  attempt h := absurd h hattempt
  globals _ := ⟨i.globals, hglobals, fun _ => rfl⟩
  arguments f _ _ hc _ ha := .bindArguments hC.arity f hc ha

lemma loosens_level (hattempt : ¬ R.allows .attempt) (hglobals : .scope i.globals ∈ R.start)
    (n : Nat) :
    (loosens i hC hattempt hglobals).Obeys fun b => Evaluator.level (configSettings i C b) n := by
  have hstuck : ∀ {α : Type} [Placed α] (w : Store),
      R.Looser i.config.maxCallDepth w (Action.unfinished : Action α) Action.unfinished :=
    fun w => ⟨fun _ _ => .unfinished, fun _ _ => .unfinished⟩
  refine obeys_level (loosens i hC hattempt hglobals) hstuck (fun w => ?_) n
  have htick : R.Looser i.config.maxCallDepth w (Action.tick i.config.stepLimit)
    (Action.tick C.stepLimit) := ⟨.tick _, fun s _ => hC.stepLimit ▸ .same⟩
  exact htick

end Law

namespace Interpreter

/-- The interpreter with another configuration. -/
def withConfig (i : Interpreter) (C : Config) : Interpreter := { i with config := C }

end Interpreter

/-- A program that ends under some call policies, and not with the refusal of a call, ends under
looser policies in the same way, in the same store and after the same number of steps. -/
theorem run_withConfig (i : Interpreter) (st : Store) (program : List Stmt) (C : Config)
    (hC : i.config.Loosens C)
    (hcatch : ∀ r, st.Reaches (.scope i.globals) (.builtin r) →
      (st.builtin r).native ≠ .attempt)
    (o : Outcome Value) (hrun : i.Ends st (fun ev => ev.runFrom i.globals .nil program) o)
    (hrefused : ∀ e s, o = .error e s → ¬ e.fault.RefusesCall i.config.maxCallDepth) :
    (i.withConfig C).Ends st (fun ev => ev.runFrom i.globals .nil program) o := by
  obtain ⟨ho, n, hn⟩ := hrun
  let R := Region.spanned st (· = .scope i.globals) (· ≠ .attempt)
    fun _ r hm hr => hcatch r (hm ▸ hr)
  have hglobals : .scope i.globals ∈ R.start := ⟨_, rfl, .refl⟩
  have hnil : R.Inside st Value.nil := Region.inside_of_node?_eq_none rfl
  have hlooser := (Law.loosens_level (R := R) i hC (fun h => h rfl) hglobals n).runFrom
    (w := st) (.inl hglobals) hnil program
  have hfollows : o.Follows i.config.maxCallDepth
      ((Evaluator.level (i.withConfig C).toSetting n).runFrom i.globals .nil program
        (i.start st)) := hn ▸ hlooser.follows (i.start st) ⟨le_rfl, R.valid_base⟩
  exact ⟨ho, n, hfollows.eq ho hrefused⟩

/-- A function that is called with one argument, for its parameter, from depth zero. -/
theorem run_withConfig_identity :
    let x : Expr := .synthetic (.identifier "x")
    let f : FunctionLit := ⟨some "f", ["x"], [.synthetic (.ret (some x))]⟩
    let program : List Stmt := [
      .synthetic (.function f),
      .ofExpr (.synthetic (.call (.synthetic (.identifier "f")) [.synthetic (.number 7)]))]
    let strict : Config := { maxCallDepth := 1, arity := .strict }
    let i := (Interpreter.create strict {}).1
    let st := (Interpreter.create strict {}).2
    strict.Loosens {} ∧
    (∀ r, st.Reaches (.scope i.globals) (.builtin r) → (st.builtin r).native ≠ .attempt) ∧
    ∃ s, i.Ends st (fun ev => ev.runFrom i.globals .nil program) (.value (.number 7) s) ∧
      (i.withConfig {}).Ends st (fun ev => ev.runFrom i.globals .nil program)
        (.value (.number 7) s) := by
  intro x f program strict i st
  have hC : strict.Loosens {} := ⟨rfl, by decide, .inr ⟨rfl, rfl⟩⟩
  have hcatch : ∀ r, st.Reaches (.scope i.globals) (.builtin r) →
      (st.builtin r).native ≠ .attempt := fun r hr => by
    cases Interpreter.reaches_create hr
  obtain ⟨v, s, hrun, hv⟩ := Interpreter.Ends.of_passes i st
    (fun ev => ev.runFrom i.globals .nil program) (fun v _ => decide (v = .number 7)) 6
    (by decide +kernel)
  obtain rfl := of_decide_eq_true hv
  exact ⟨hC, hcatch, s, hrun, run_withConfig i st program {} hC hcatch _ hrun nofun⟩

end TreeWalk
