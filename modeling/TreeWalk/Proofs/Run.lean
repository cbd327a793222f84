/-
# What stays inside a region

`Region.Run s t` says what an evaluation that works inside a region does to a state: no cell outside
is touched, no reference leads out, cells stay, no scope is moved, no array becomes longer unless
builtins may push, chains of scopes that end go on to end, and the counters are in order.  It holds of the making of a cell with contents from the region
(`Run.of_makes`) and of the change of a cell of the region (`Run.of_edits`), and both keep two
stores in agreement (`Agree.of_makes`, `Agree.of_edits`).
-/
import TreeWalk.Proofs.Agreement

namespace TreeWalk

namespace Region

variable {R : Region} {st st' : Store} {n₀ : Node} {x : Cell} {e : Edit}

/-- All scopes of the region exist, and their chains end. -/
def Grounded (R : Region) (st : Store) : Prop :=
  ∀ c, R.Has st (.scope c) → st.Has (.scope c) ∧ st.Rooted c

/-- What an evaluation inside the region may do to a state. -/
structure Run (R : Region) (s t : State) : Prop where
  valid : R.Valid t.store
  le : s.store ≤ t.store
  outside : ∀ n, R.base.Has n → n ∉ R.start → t.store.cell n = s.store.cell n
  parent : ∀ c, s.store.Has (.scope c) → (t.store.scope c).parent = (s.store.scope c).parent
  size : ¬ R.allows .push → ∀ r, s.store.Has (.array r) →
    (t.store.array r).size = (s.store.array r).size
  grounded : R.Grounded s.store → R.Grounded t.store
  steps : s.steps ≤ t.steps
  depth : t.depth = s.depth

namespace Run

lemma refl {s : State} (h : R.Valid s.store) : R.Run s s where
  valid := h
  le := le_rfl
  outside _ _ _ := rfl
  parent _ _ := rfl
  size _ _ _ := rfl
  grounded h := h
  steps := le_rfl
  depth := rfl

lemma trans {s t u : State} (h : R.Run s t) (h' : R.Run t u) : R.Run s u where
  valid := h'.valid
  le := h.le.trans h'.le
  outside n hn hs := (h'.outside n hn hs).trans (h.outside n hn hs)
  parent c hc := (h'.parent c (Store.has_of_le h.le hc)).trans (h.parent c hc)
  size hpush r hr := (h'.size hpush r (Store.has_of_le h.le hr)).trans (h.size hpush r hr)
  grounded hs := h'.grounded (h.grounded hs)
  steps := h.steps.trans h'.steps
  depth := h'.depth.trans h.depth

lemma of_tick {s : State} (h : R.Valid s.store) : R.Run s s.ticked where
  valid := h
  le := le_rfl
  outside _ _ _ := rfl
  parent _ _ := rfl
  size _ _ _ := rfl
  grounded h := h
  steps := Nat.le_succ _
  depth := rfl

/-- A run one call deeper is a run, once the call has been left. -/
lemma of_nested {s t : State} (h : R.Run { s with depth := s.depth + 1 } t) :
    R.Run s { t with depth := t.depth - 1 } where
  valid := h.valid
  le := h.le
  outside := h.outside
  parent := h.parent
  size := h.size
  grounded := h.grounded
  steps := h.steps
  depth := by simp [h.depth]

end Run

/-! ### A new cell -/

/-- The region with a new cell. -/
lemma has_of_makes (hst : R.Valid st) (h : st.Makes n₀ x st') {n : Node} :
    R.Has st' n ↔ R.Has st n ∨ n = n₀ := by
  constructor
  · rintro (hn | ⟨hb, hn⟩)
    · exact .inl (.inl hn)
    · exact ((h.has n).mp hn).imp_left fun hn => .inr ⟨hb, hn⟩
  · rintro (hn | rfl)
    · exact hn.mono h.le
    · exact .inr ⟨fun hb => h.fresh (Store.has_of_le hst.le hb), (h.has n).mpr (.inr rfl)⟩

section

variable (hst : R.Valid st) (h : st.Makes n₀ x st') (hx : ∀ m, x.Refers m → R.Has st m)
include hst h hx

lemma valid_of_makes : R.Valid st' where
  le := hst.le.trans h.le
  closed n m hn hm := by
    rcases (has_of_makes hst h).mp hn with hn' | rfl
    · by_cases hne : n = n₀
      · subst hne
        rw [h.cell] at hm
        exact (hx m hm).mono h.le
      · rw [h.cell_ne n hne] at hm
        exact (hst.closed n m hn' hm).mono h.le
    · rw [h.cell] at hm
      exact (hx m hm).mono h.le

lemma grounded_of_makes (hg : R.Grounded st) : R.Grounded st' := by
  -- the chains of the scopes that were there do not come to the new cell
  have hold : ∀ c, R.Has st (.scope c) → st'.Rooted c := by
    intro c hc
    obtain ⟨n, hn⟩ := (hg c hc).2
    exact ⟨n, hn.congr (P := fun d => R.Has st (.scope d)) (fun d e hd he => hst.parent hd he)
      (fun d hd => h.parent (hg d hd).1) hc⟩
  intro c hc
  refine ⟨?_, ?_⟩
  · rcases (has_of_makes hst h).mp hc with hc | hc
    · exact Store.has_of_le h.le (hg c hc).1
    · exact (h.has _).mpr (.inr hc)
  · by_cases hne : .scope c = n₀
    · have hcell := h.cell
      rw [← hne] at hcell
      cases hp : (st'.scope c).parent with
      | none => exact ⟨0, .root hp⟩
      | some d => exact .inside hp (hold d (hx _ (hcell ▸ .parent hp)))
    · exact hold c (((has_of_makes hst h).mp hc).resolve_right hne)

end

lemma Run.of_makes {s : State} (hst : R.Valid s.store) (h : s.store.Makes n₀ x st')
    (hx : ∀ m, x.Refers m → R.Has s.store m) : R.Run s { s with store := st' } where
  valid := valid_of_makes hst h hx
  le := h.le
  outside n hb _ := h.cell_ne n fun hn => h.fresh (hn ▸ Store.has_of_le hst.le hb)
  parent _ hc := h.parent hc
  size _ _ hr := congrArg _ (h.array hr)
  grounded hg := grounded_of_makes hst h hx hg
  steps := le_rfl
  depth := rfl

lemma Agree.of_makes {su su' : Store} {y : Cell} (hst : R.Valid st) (ha : R.Agree st su)
    (h : st.Makes n₀ x st') (h' : su.Makes n₀ y su') (hxy : x.Same y) : R.Agree st' su' where
  extent n hn := by rw [h.has, h'.has, ha.extent n hn]
  cell n hn := by
    by_cases hne : n = n₀
    · rw [hne, h.cell, h'.cell]
      exact hxy
    · rw [h.cell_ne n hne, h'.cell_ne n hne]
      exact ha.cell n (((has_of_makes hst h).mp hn).resolve_right hne)

/-! ### A changed cell -/

lemma has_of_edits (h : st.Edits n₀ e st') {n : Node} : R.Has st' n ↔ R.Has st n := by
  simp only [Has, h.has]

lemma valid_of_edits (hst : R.Valid st) (h : st.Edits n₀ e st') (he : R.Inside st e.value) :
    R.Valid st' where
  le := hst.le.trans h.le
  closed n m hn hm := by
    rw [has_of_edits h] at hn ⊢
    by_cases hne : n = n₀
    · subst hne
      by_cases hn' : st.Has n
      · rw [h.cell hn'] at hm
        exact (Edit.refers_apply hm).elim (hst.closed n m hn) (he m)
      · rw [h.cell_of_not_has hn'] at hm
        exact hst.closed n m hn hm
    · rw [h.cell_ne n hne] at hm
      exact hst.closed n m hn hm

lemma grounded_of_edits (h : st.Edits n₀ e st') (hg : R.Grounded st) : R.Grounded st' := by
  intro c hc
  rw [has_of_edits h] at hc
  obtain ⟨hhas, n, hn⟩ := hg c hc
  refine ⟨(h.has _).mpr hhas, n, hn.congr (P := fun _ => True) (fun _ _ _ _ => trivial)
    (fun d _ => h.parent d) trivial⟩

lemma Run.of_edits {s : State} (hst : R.Valid s.store) (h : s.store.Edits n₀ e st')
    (hn₀ : R.Has s.store n₀) (he : R.Inside s.store e.value)
    (hpush : ∀ v, e = .push v → R.allows .push) : R.Run s { s with store := st' } where
  valid := valid_of_edits hst h he
  le := h.le
  outside n hb hn := by
    refine h.cell_ne n ?_
    rintro rfl
    exact hn₀.elim hn fun hn₀ => hn₀.1 hb
  parent c _ := h.parent c
  size hno r _ := h.size_array (fun v hv => hno (hpush v hv)) r
  grounded hg := grounded_of_edits h hg
  steps := le_rfl
  depth := rfl

lemma Agree.of_edits {su su' : Store} (ha : R.Agree st su) (h : st.Edits n₀ e st')
    (h' : su.Edits n₀ e su') : R.Agree st' su' where
  extent n hn := by rw [h.has, h'.has, ha.extent n hn]
  cell n hn := by
    rw [has_of_edits h] at hn
    have hcell := ha.cell n hn
    by_cases hne : n = n₀
    · subst hne
      have hext := ha.extent n h.kind
      by_cases hn' : st.Has n
      · rw [h.cell hn', h'.cell (hext.mp hn')]
        exact Edit.same_apply e hcell
      · rw [h.cell_of_not_has hn', h'.cell_of_not_has fun hn'' => hn' (hext.mpr hn'')]
        exact hcell
    · rw [h.cell_ne n hne, h'.cell_ne n hne]
      exact hcell

end Region

end TreeWalk
