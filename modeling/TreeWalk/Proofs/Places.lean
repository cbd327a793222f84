/-
# Places in a store

A place is where a store keeps one value: a binding of a scope, an entry of an object or an element
of an array (`Place`).  To bind a name, to set an entry or to replace an element changes what one
place holds, if it holds something, and leaves the rest of the store as it is (`Store.ChangedAt`).
-/
import TreeWalk.Proofs.Cells

namespace TreeWalk

/-- A place of a store that holds one value. -/
inductive Place where
  /-- The binding of a name in a scope itself. -/
  | binding (c : ScopeRef) (name : String)
  /-- The entry of an object under a key. -/
  | entry (r : ObjectRef) (key : String)
  /-- The element of an array, counted from zero. -/
  | element (r : ArrayRef) (i : Nat)
deriving DecidableEq, Repr

/-- The cell that a place is in. -/
def Place.node : Place → Node
  | .binding c _ => .scope c
  | .entry r _ => .object r
  | .element r _ => .array r

namespace Store

variable {st st' : Store} {v w : Value} {p q : Place}

/-- What a place holds, if it holds something. -/
def at? (st : Store) : Place → Option Value
  | .binding c name => (st.scope c).symbols[name]?
  | .entry r key => (st.object r)[key]?
  | .element r i => (st.array r)[i]?

/-- The place `p` holds `v` in the first store and `w` in the second one, and everything else is the
same in both: what the other places hold, what cells there are, the links between the scopes and the
functions. -/
structure ChangedAt (p : Place) (v w : Value) (st st' : Store) : Prop where
  before : st.at? p = some v
  after : st'.at? p = some w
  others : ∀ q, q ≠ p → st'.at? q = st.at? q
  has : ∀ n, st'.Has n ↔ st.Has n
  parent : ∀ c, (st'.scope c).parent = (st.scope c).parent
  closure : ∀ r, st'.closure r = st.closure r
  builtins : st'.builtins = st.builtins

/-- A place that holds something is in a cell of the store. -/
lemma has_of_at? (h : st.at? p = some v) : st.Has p.node := by
  by_contra hp
  cases p with
  | binding c name =>
    rw [at?, scope, Heap.get_of_size_le (Nat.le_of_not_lt hp)] at h
    have hempty : (∅ : Table)[name]? = some v := h
    simp at hempty
  | entry r key =>
    rw [at?, object, Heap.get_of_size_le (Nat.le_of_not_lt hp)] at h
    have hempty : (∅ : Table)[key]? = some v := h
    simp at hempty
  | element r i =>
    rw [at?, array, Heap.get_of_size_le (Nat.le_of_not_lt hp)] at h
    cases h

lemma at?_eq_of_cell (h : st'.cell p.node = st.cell p.node) : st'.at? p = st.at? p := by
  cases p with
  | binding c name => exact congrArg (fun s => s.symbols[name]?) (Cell.scope.inj h)
  | entry r key => exact congrArg (fun t => t[key]?) (Cell.object.inj h)
  | element r i => exact congrArg (fun items => items[i]?) (Cell.array.inj h)

/-- An edit of the cell that a place is in changes the store at this place, if it does so in the
cell. -/
lemma Edits.changedAt {n : Node} {e : Edit} (h : Edits n e st st') (hn : p.node = n)
    (before : st.at? p = some v) (after : st'.at? p = some w)
    (others : ∀ q, q ≠ p → q.node = n → st'.at? q = st.at? q) : ChangedAt p v w st st' where
  before := before
  after := after
  others q hq := by
    by_cases hnode : q.node = n
    · exact others q hq hnode
    · exact at?_eq_of_cell (h.cell_ne _ hnode)
  has := h.has
  parent := h.parent
  closure r := Cell.function.inj (h.cell_ne (.function r) (by
    cases p <;> cases hn <;> simp [Place.node]))
  builtins := h.builtins

lemma changedAt_define {c : ScopeRef} {name : String} (h : (st.scope c).symbols[name]? = some v)
    (w : Value) : ChangedAt (.binding c name) v w st (st.define c name w) := by
  have hc : c.index < st.scopes.size := has_of_at? (p := .binding c name) h
  refine (st.edits_define c name w).changedAt rfl h ?_ fun q hq hnode => ?_
  · simp [at?, scope_define, hc]
  · cases q with
    | binding d m =>
      cases hnode
      have hm : ¬ compare name m = .eq := by
        rw [Std.compare_eq_iff_eq]
        rintro rfl
        exact hq rfl
      simp [at?, scope_define, hc, Std.TreeMap.getElem?_insert, hm]
    | _ => cases hnode

lemma changedAt_setEntry {r : ObjectRef} {key : String} (h : (st.object r)[key]? = some v)
    (w : Value) : ChangedAt (.entry r key) v w st (st.setEntry r key w) := by
  have hr : r.index < st.objects.size := has_of_at? (p := .entry r key) h
  refine (st.edits_setEntry r key w).changedAt rfl h ?_ fun q hq hnode => ?_
  · simp [at?, object_setEntry, hr]
  · cases q with
    | entry r' k =>
      cases hnode
      have hk : ¬ compare key k = .eq := by
        rw [Std.compare_eq_iff_eq]
        rintro rfl
        exact hq rfl
      simp [at?, object_setEntry, hr, Std.TreeMap.getElem?_insert, hk]
    | _ => cases hnode

lemma position?_lt {index : Int64} {n i : Nat} (h : position? index n = some i) : i < n := by
  unfold position? at h
  split at h
  · cases h
    omega
  · cases h

lemma changedAt_setElement {r : ArrayRef} {index : Int64} {i : Nat}
    (hi : position? index (st.array r).size = some i) (w : Value) :
    ChangedAt (.element r i) ((st.array r).getD i .nil) w st (st.setElement r index w) := by
  have hlt : i < (st.array r).size := position?_lt hi
  have hat : st.at? (.element r i) = some ((st.array r).getD i .nil) := by simp [at?, hlt]
  have hr : r.index < st.arrays.size := has_of_at? hat
  refine (st.edits_setElement r index w).changedAt rfl hat ?_ fun q hq hnode => ?_
  · simp [at?, array_setElement, hi, hr, hlt]
  · cases q with
    | element r' j =>
      cases hnode
      have hj : i ≠ j := by
        rintro rfl
        exact hq rfl
      simp [at?, array_setElement, hi, hr, hj]
    | _ => cases hnode

end Store

end TreeWalk
