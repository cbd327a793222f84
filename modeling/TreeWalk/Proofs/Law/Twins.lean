/-
# The law of twins

Two evaluators of the same level, under the same configuration, are twins for every region: what
they do cannot be told apart from inside, and stays inside.
-/
import TreeWalk.Proofs.Law

namespace TreeWalk.Law

variable {R : Region} {σ : Bool → Setting}

/-- The law that relates the evaluations in two settings. -/
def twins (hconfig : (σ false).config = (σ true).config)
    (hglobals : ∀ {n}, R.allows n → ∃ g : ScopeRef, .scope g ∈ R.start ∧ ∀ b, (σ b).globals = g) :
    Law R σ where
  Holds w x := R.Twin w (x false) (x true)
  weaken h hw := h.weaken hw
  contained h := h.toTwin
  bind hx hf := hx.bind hf
  blame span _ h := h.blame span
  limited h := by simpa only [hconfig] using h.limited (σ true).config.maxCallDepth
  attempt _ h := h.attempt
  globals := hglobals
  arguments f _ _ hc _ ha := by
    simp only [hconfig]
    exact (Region.Contained.bindArguments _ f hc ha).toTwin

theorem twins_level (hconfig : (σ false).config = (σ true).config)
    (hglobals : ∀ {n}, R.allows n → ∃ g : ScopeRef, .scope g ∈ R.start ∧ ∀ b, (σ b).globals = g)
    (n : Nat) : (twins hconfig hglobals).Obeys fun b => Evaluator.level (σ b) n := by
  have hstuck : ∀ {α : Type} [Placed α] (w : Store),
      R.Twin w (Action.unfinished : Action α) Action.unfinished :=
    fun w => ⟨fun _ _ => .unfinished, fun _ _ _ _ => .unfinished⟩
  refine obeys_level (twins hconfig hglobals) hstuck (fun w => ?_) n
  have htick : R.Twin w (Action.tick (σ true).config.stepLimit)
    (Action.tick (σ true).config.stepLimit) := .tick _
  simpa only [twins, hconfig] using htick

end TreeWalk.Law
