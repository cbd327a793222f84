/-
# Chains of scopes

A search for a name follows the links from a scope to the scope around it.  This file is about the
chains of scopes that end, `Store.Rooted`.  The chain of a scope that ends has no scope twice, so
it is no longer than there are scopes (`Chain.le_size`), and a search along it ends
(`Rooted.search_ne_endless`).
-/
import Mathlib.Data.Finset.Card
import Mathlib.Order.Interval.Finset.Nat
import TreeWalk.Store.Lookup

namespace TreeWalk.Store

variable {st : Store}

/-- The chain of scopes that starts at the first argument ends after so many links. -/
inductive Chain (st : Store) : ScopeRef → Nat → Prop
  | root {c : ScopeRef} (h : (st.scope c).parent = none) : Chain st c 0
  | inside {c d : ScopeRef} {n : Nat} (h : (st.scope c).parent = some d) (hd : Chain st d n) :
      Chain st c (n + 1)

/-- The chain of scopes that starts at `c` ends. -/
def Rooted (st : Store) (c : ScopeRef) : Prop := ∃ n, st.Chain c n

lemma Rooted.inside {c d : ScopeRef} (h : (st.scope c).parent = some d) (hd : st.Rooted d) :
    st.Rooted c := by
  obtain ⟨n, hn⟩ := hd
  exact ⟨n + 1, .inside h hn⟩

/-- A scope that does not exist is inside of no other one. -/
lemma rooted_of_size_le {c : ScopeRef} (hc : st.scopes.size ≤ c.index) : st.Rooted c := by
  have hdefault : st.scope c = default := Heap.get_of_size_le hc
  exact ⟨0, .root (by rw [hdefault]; rfl)⟩

namespace Chain

lemma unique {c : ScopeRef} {n m : Nat} (hn : st.Chain c n) (hm : st.Chain c m) : n = m := by
  induction hn generalizing m with
  | root h =>
    cases hm with
    | root => rfl
    | inside h' => rw [h] at h'; cases h'
  | inside h _ ih =>
    cases hm with
    | root h' => rw [h] at h'; cases h'
    | inside h' hd' =>
      rw [h] at h'
      cases h'
      rw [ih hd']

/-- A chain goes through a scope with any smaller number of links before it. -/
lemma exists_of_le {c : ScopeRef} {n k : Nat} (h : st.Chain c n) (hk : k ≤ n) :
    ∃ d, st.Chain d k := by
  induction h with
  | root h =>
    obtain rfl := Nat.le_zero.mp hk
    exact ⟨_, .root h⟩
  | inside h hd ih =>
    rcases Nat.le_succ_iff.mp hk with hk | rfl
    · exact ih hk
    · exact ⟨_, .inside h hd⟩

/-- A scope with a link is one of the scopes of the store. -/
lemma index_lt {c : ScopeRef} {n : Nat} (h : st.Chain c (n + 1)) : c.index < st.scopes.size := by
  cases h with
  | inside h _ =>
    by_contra hc
    rw [Store.scope, Heap.get_of_size_le (Nat.le_of_not_lt hc)] at h
    cases h

/-- A chain that ends has no more links than there are scopes: the scopes that have one differ in
the number of links before them. -/
lemma le_size {c : ScopeRef} {n : Nat} (h : st.Chain c n) : n ≤ st.scopes.size := by
  have hex : ∀ k : Nat, ∃ i, k + 1 ≤ n → i < st.scopes.size ∧ st.Chain ⟨i⟩ (k + 1) := by
    intro k
    by_cases hk : k + 1 ≤ n
    · obtain ⟨d, hd⟩ := h.exists_of_le hk
      exact ⟨d.index, fun _ => ⟨hd.index_lt, hd⟩⟩
    · exact ⟨0, fun hk' => absurd hk' hk⟩
  -- scopes with different numbers of links before the end are different
  choose f hf using hex
  have hcard := Finset.card_le_card_of_injOn (s := Finset.range n)
    (t := Finset.range st.scopes.size) f
    (fun k hk => Finset.mem_coe.mpr (Finset.mem_range.mpr (hf k (Finset.mem_range.mp hk)).1))
    (by
      intro k hk l hl hkl
      have hk' := (hf k (Finset.mem_range.mp hk)).2
      have hl' := (hf l (Finset.mem_range.mp hl)).2
      rw [hkl] at hk'
      exact Nat.succ.inj (hk'.unique hl'))
  simpa using hcard

/-- A chain is the same in a store in which its scopes have the same links. -/
lemma congr {st' : Store} {P : ScopeRef → Prop} {c : ScopeRef} {n : Nat} (h : st.Chain c n)
    (hP : ∀ d e, P d → (st.scope d).parent = some e → P e)
    (hst : ∀ d, P d → (st'.scope d).parent = (st.scope d).parent) (hc : P c) :
    st'.Chain c n := by
  induction h with
  | root h => exact .root ((hst _ hc).trans h)
  | inside h _ ih => exact .inside ((hst _ hc).trans h) (ih (hP _ _ hc h))

lemma searchFrom_ne_endless {c : ScopeRef} {n m : Nat} (h : st.Chain c n) (hm : n < m)
    (name : String) : st.searchFrom name m c ≠ .endless := by
  induction h generalizing m with
  | root h =>
    obtain ⟨m, rfl⟩ : ∃ k, m = k + 1 := ⟨m - 1, by omega⟩
    rw [searchFrom]
    split
    · simp
    · simp [h]
  | inside h _ ih =>
    obtain ⟨m, rfl⟩ : ∃ k, m = k + 1 := ⟨m - 1, by omega⟩
    rw [searchFrom]
    split
    · simp
    · simpa [h] using ih (by omega)

end Chain

/-- A search along a chain that ends comes to an end. -/
theorem Rooted.search_ne_endless {c : ScopeRef} (h : st.Rooted c) (name : String) :
    st.search c name ≠ .endless := by
  obtain ⟨n, hn⟩ := h
  exact hn.searchFrom_ne_endless (Nat.lt_succ_of_le hn.le_size) name

/-- The scope that a search ends in binds the name to the value that is found. -/
lemma symbols_of_search {c d : ScopeRef} {name : String} {v : Value}
    (h : st.search c name = .found (d, v)) : (st.scope d).symbols[name]? = some v := by
  unfold search at h
  generalize st.scopes.size + 1 = n at h
  induction n generalizing c with
  | zero => cases h
  | succ n ih =>
    rw [searchFrom] at h
    split at h
    · next w hw =>
      cases h
      exact hw
    · split at h
      · exact ih h
      · cases h

end TreeWalk.Store
