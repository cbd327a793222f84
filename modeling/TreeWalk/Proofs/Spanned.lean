/-
# What can be reached

The cells that can be reached from some nodes are a region.  An evaluation that works inside of it
leads to nothing but what could be reached before and what is new (`Valid.has_of_reaches`).
-/
import TreeWalk.Interpreter
import TreeWalk.Proofs.Region

namespace TreeWalk

/-- The cell at a node can be reached from one of the values. -/
def Store.ReachableFrom (st : Store) (vs : List Value) (n : Node) : Prop :=
  ∃ m, (∃ v ∈ vs, v.node? = some m) ∧ st.Reaches m n

/-- What no reference leads out of is not left. -/
lemma Store.Reaches.of_closed {st : Store} {S : Node → Prop}
    (hS : ∀ n m, S n → (st.cell n).Refers m → S m) {n m : Node} (hn : S n)
    (h : st.Reaches n m) : S m := by
  induction h with
  | refl => exact hn
  | tail _ hm ih => exact hS _ _ ih hm

/-- A new interpreter can reach nothing but its globals. -/
lemma Interpreter.reaches_create {config : Config} {st : Store} {n : Node}
    (h : (create config st).2.Reaches (.scope (create config st).1.globals) n) :
    n = .scope (create config st).1.globals := by
  refine h.of_closed (S := (· = .scope (create config st).1.globals)) ?_ rfl
  rintro _ m rfl hm
  have hcell : (create config st).2.cell (.scope (create config st).1.globals) =
      .scope { parent := none } := (st.makes_newScope none).cell
  rw [hcell] at hm
  cases hm with
  | parent hp => cases hp
  | binding hb => simp at hb

namespace Region

/-- The region of all that can be reached from the roots. -/
def spanned (st : Store) (roots : Node → Prop) (allows : Native → Prop)
    (h : ∀ m r, roots m → st.Reaches m (.builtin r) → allows (st.builtin r).native) : Region where
  base := st
  start := {n | ∃ m, roots m ∧ st.Reaches m n}
  allows := allows
  closed := by
    rintro n m ⟨k, hk, hn⟩ hm
    exact ⟨k, hk, hn.tail hm⟩
  native := by
    rintro r ⟨m, hm, hr⟩
    exact h m r hm hr

section

variable {st : Store} {c globals : ScopeRef} {native : Native}
  (hc : ∀ r, st.Reaches (.scope c) (.builtin r) → (st.builtin r).native ≠ native)
  (hglobals : ∀ r r', st.Reaches (.scope c) (.builtin r) →
    st.Reaches (.scope globals) (.builtin r') → (st.builtin r').native ≠ native)

/-- The region of what an evaluation in the scope `c` may come across: of all that can be reached
from there and, if this includes a builtin, from the globals, which builtins may look at.  None of
its builtins behaves as `native`. -/
def reached : Region :=
  spanned st
    (fun m => m = .scope c ∨ (m = .scope globals ∧ ∃ r, st.Reaches (.scope c) (.builtin r)))
    (fun n => n ≠ native ∧ ∃ r, st.Reaches (.scope c) (.builtin r)) (by
      rintro m r (rfl | ⟨rfl, r₀, hr₀⟩) hr
      · exact ⟨hc r hr, r, hr⟩
      · exact ⟨hglobals r₀ r hr₀ hr, r₀, hr₀⟩)

lemma inside_reached : (reached hc hglobals).Inside st c := .inl ⟨_, .inl rfl, .refl⟩

lemma not_allows_reached : ¬ (reached hc hglobals).allows native := fun h => h.1 rfl

lemma globals_mem_reached {n : Native} (h : (reached hc hglobals).allows n) :
    .scope globals ∈ (reached hc hglobals).start :=
  ⟨_, .inr ⟨rfl, h.2⟩, .refl⟩

end

variable {R : Region} {st : Store}

/-- No path leads out of a region. -/
lemma Valid.has_of_reaches (hst : R.Valid st) {n m : Node} (hn : R.Has st n)
    (h : st.Reaches n m) : R.Has st m :=
  h.of_closed hst.closed hn

lemma Valid.has_of_reachableFrom (hst : R.Valid st) {vs : List Value} (hvs : R.Inside st vs)
    {n : Node} (h : st.ReachableFrom vs n) : R.Has st n := by
  obtain ⟨m, ⟨v, hv, hm⟩, hn⟩ := h
  exact hst.has_of_reaches ((hvs v hv).has hm) hn

end Region

end TreeWalk
