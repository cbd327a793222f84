/-
# Stores that look the same from inside a region

Two stores agree on a region when they have cells at the same nodes and the cells of the region
hold the same.  Whatever is read inside the region is then the same in both: the value of a name,
an entry, an element, and also the text of a value, which prints whole containers.
-/
import TreeWalk.Action
import TreeWalk.Proofs.Rendering
import TreeWalk.Proofs.Region

namespace TreeWalk.Region

/-- Two stores have cells at the same nodes, and those of the region hold the same. -/
structure Agree (R : Region) (st st' : Store) : Prop where
  extent : st.SameExtent st'
  cell : ∀ n, R.Has st n → (st.cell n).Same (st'.cell n)

/-- Two states differ in nothing that can be seen from inside the region. -/
structure Alike (R : Region) (s s' : State) : Prop where
  depth : s.depth = s'.depth
  steps : s.steps = s'.steps
  store : R.Agree s.store s'.store

variable {R : Region} {st st' : Store}

lemma Alike.counter {s s' : State} (h : R.Alike s s') : s.counter = s'.counter :=
  congrArg UInt64.ofNat h.steps

lemma Alike.ticked {s s' : State} (h : R.Alike s s') : R.Alike s.ticked s'.ticked :=
  ⟨h.depth, congrArg (· + 1) h.steps, h.store⟩

namespace Agree

variable (h : R.Agree st st')
include h

lemma symbols {c : ScopeRef} (hc : R.Inside st c) :
    (st.scope c).symbols.Equiv (st'.scope c).symbols := by
  cases h.cell _ hc with
  | scope hs _ => exact hs

lemma parent {c : ScopeRef} (hc : R.Inside st c) :
    (st.scope c).parent = (st'.scope c).parent := by
  cases h.cell _ hc with
  | scope _ hp => exact hp

lemma object {r : ObjectRef} (hr : R.Has st (.object r)) :
    (st.object r).Equiv (st'.object r) := by
  cases h.cell _ hr with
  | object ht => exact ht

lemma array {r : ArrayRef} (hr : R.Has st (.array r)) : st.array r = st'.array r := by
  have hc := h.cell _ hr
  simp only [Store.cell] at hc
  generalize st.array r = a, st'.array r = b at hc
  cases hc
  rfl

lemma closure {r : FunctionRef} (hr : R.Has st (.function r)) :
    st.closure r = st'.closure r := by
  have hc := h.cell _ hr
  simp only [Store.cell] at hc
  generalize st.closure r = a, st'.closure r = b at hc
  cases hc
  rfl

lemma builtin {r : BuiltinRef} (hr : R.Has st (.builtin r)) :
    st.builtin r = st'.builtin r := by
  have hc := h.cell _ hr
  simp only [Store.cell] at hc
  generalize st.builtin r = a, st'.builtin r = b at hc
  cases hc
  rfl

lemma entry {r : ObjectRef} (hr : R.Has st (.object r)) (key : String) :
    st.entry r key = st'.entry r key :=
  (h.object hr).getD_eq

lemma element? {r : ArrayRef} (hr : R.Has st (.array r)) (i : Int64) :
    st.element? r i = st'.element? r i := by
  rw [Store.element?, Store.element?, h.array hr]

/-- A name means the same in both stores. -/
lemma search (hst : R.Valid st) {c : ScopeRef} (hc : R.Inside st c) (name : String) :
    st.search c name = st'.search c name := by
  unfold Store.search
  rw [h.extent.scopes]
  generalize st'.scopes.size + 1 = n
  induction n generalizing c with
  | zero => rfl
  | succ n ih =>
    rw [Store.searchFrom, Store.searchFrom, (h.symbols hc).getElem?_eq, h.parent hc]
    cases hd : (st'.scope c).parent with
    | none => rfl
    | some d =>
      simp only
      rw [ih (hst.parent hc ((h.parent hc).trans hd))]

lemma leaf {v : Value} (hv : R.Inside st v) : st.leaf v = st'.leaf v := by
  cases v with
  | function r => simp [Store.leaf, Store.label, h.closure (hv.has rfl)]
  | builtin r => simp [Store.leaf, Store.label, h.builtin (hv.has rfl)]
  | _ => rfl

/-- A value unfolds into the same tree in both stores. -/
lemma unfoldBelow (hst : R.Valid st) (room : Nat) {path : List Value} {v : Value}
    (hv : R.Inside st v) : st.unfoldBelow room path v = st'.unfoldBelow room path v := by
  -- tables that hold the same list their entries in the same order
  induction room generalizing path v with
  | zero =>
    cases v with
    | object r => rfl
    | array r => rfl
    | _ => exact h.leaf hv
  | succ room ih =>
    cases v with
    | object r =>
      have hr : R.Has st (.object r) := hv.has rfl
      rw [Store.unfoldBelow, Store.unfoldBelow, ← (h.object hr).toList_eq]
      congr 2
      refine List.map_congr_left fun e he => ?_
      rw [ih]
      exact hst.object hr e.1 e.2 (Std.TreeMap.mem_toList_iff_getElem?_eq_some.mp he)
    | array r =>
      have hr : R.Has st (.array r) := hv.has rfl
      rw [Store.unfoldBelow, Store.unfoldBelow, ← h.array hr]
      congr 2
      refine List.map_congr_left fun w hw => ?_
      rw [ih]
      exact hst.array hr w (Array.mem_toList_iff.mp hw)
    | _ => exact h.leaf hv

lemma text (hst : R.Valid st) {v : Value} (hv : R.Inside st v) : st.text v = st'.text v := by
  rw [st.text_eq, st'.text_eq]
  exact congrArg Shown.text (h.unfoldBelow hst Store.shownDepth hv)

lemma debugText (hst : R.Valid st) {v : Value} (hv : R.Inside st v) :
    st.debugText v = st'.debugText v := by
  cases v <;> simp [Store.debugText, h.text hst hv]

end Agree

end TreeWalk.Region
