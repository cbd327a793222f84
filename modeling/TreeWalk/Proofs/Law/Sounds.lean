/-
# The law of soundness

Whatever an evaluator of any level does with things that are inside a region stays inside.
-/
import TreeWalk.Proofs.Law

namespace TreeWalk.Law

variable {R : Region} {σ : Setting}

/-- The law that evaluations stay inside of a region. -/
def sounds (hglobals : ∀ {n}, R.allows n → .scope σ.globals ∈ R.start) :
    Law R (fun _ : Unit => σ) where
  Holds w x := R.Sound w (x ())
  weaken h hw := h.weaken hw
  contained h := h.sound
  bind hx hf := hx.bind hf
  blame span _ h := h.blame span
  limited h := h.limited _
  attempt _ h := h.attempt
  globals h := ⟨σ.globals, hglobals h, fun _ => rfl⟩
  arguments f _ _ hc _ ha := (Region.Contained.bindArguments _ f hc ha).sound

lemma sounds_unfinished (hglobals : ∀ {n}, R.allows n → .scope σ.globals ∈ R.start) {α : Type}
    [Placed α] (w : Store) :
    (sounds hglobals).Holds w fun _ => (Action.unfinished : Action α) :=
  fun _ _ => .unfinished

theorem sounds_level (hglobals : ∀ {n}, R.allows n → .scope σ.globals ∈ R.start) (n : Nat) :
    (sounds hglobals).Obeys fun _ => Evaluator.level σ n :=
  obeys_level (sounds hglobals) (sounds_unfinished hglobals) (fun _ => Region.Sound.tick _) n

end TreeWalk.Law
