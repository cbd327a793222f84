/-
# The graph of cells

The cells of a store refer to each other: a scope to the scope around it and to the cells that its
values lead to, a container to those of its parts, a function to the scope it was made in.  This
file gives the cells of all kinds one name, `Node`, and says what each operation of the store does
to the graph.  An operation makes the cell at one node (`Store.Makes`) or puts a value into the cell
at one node (`Store.Edits`), and leaves all the other cells as they are.
-/
import Mathlib.Logic.Relation
import Mathlib.Order.Nat
import TreeWalk.Store

namespace TreeWalk

/-- The name of a cell of any kind. -/
inductive Node where
  | scope (c : ScopeRef)
  | object (r : ObjectRef)
  | array (r : ArrayRef)
  | function (r : FunctionRef)
  | builtin (r : BuiltinRef)
deriving DecidableEq, Repr

/-- The cell that a value leads to, if it leads to one. -/
def Value.node? : Value → Option Node
  | .object r => some (.object r)
  | .array r => some (.array r)
  | .function r => some (.function r)
  | .builtin r => some (.builtin r)
  | .nil | .bool _ | .number _ | .string _ | .variable _ => none

/-- The places of a heap with a new cell. -/
lemma Heap.lt_size_push {α : Type} {h : Heap α} {a : α} {i : Nat} :
    i < (h.push a).size ↔ i < h.size ∨ i = h.size := by
  rw [size_push]
  omega

/-- What a cell of any kind holds. -/
inductive Cell where
  | scope (s : Scope)
  | object (entries : Table)
  | array (items : Array Value)
  | function (f : Closure)
  | builtin (b : Builtin)

namespace Cell

/-- A cell that holds the first argument refers to the second one. -/
inductive Refers : Cell → Node → Prop
  | parent {s : Scope} {d : ScopeRef} (h : s.parent = some d) : Refers (.scope s) (.scope d)
  | binding {s : Scope} {name : String} {v : Value} {n : Node} (h : s.symbols[name]? = some v)
      (hv : v.node? = some n) : Refers (.scope s) n
  | entry {t : Table} {key : String} {v : Value} {n : Node} (h : t[key]? = some v)
      (hv : v.node? = some n) : Refers (.object t) n
  | element {items : Array Value} {v : Value} {n : Node} (h : v ∈ items)
      (hv : v.node? = some n) : Refers (.array items) n
  | env {f : Closure} : Refers (.function f) (.scope f.env)

/-- A scope with one binding and no scope around it refers to what the binding leads to. -/
lemma Refers.of_binding {name : String} {v : Value} {n : Node}
    (h : Refers (.scope { symbols := (∅ : Table).insert name v }) n) : v.node? = some n := by
  cases h with
  | parent hd => cases hd
  | binding hb hv =>
    rw [Std.TreeMap.getElem?_insert] at hb
    split at hb
    · exact Option.some.inj hb ▸ hv
    · simp at hb

/-- Two cells hold the same: the same bindings, entries or elements.  How a table came about does
not matter. -/
inductive Same : Cell → Cell → Prop
  | scope {s s' : Scope} (symbols : s.symbols.Equiv s'.symbols) (parent : s.parent = s'.parent) :
      Same (.scope s) (.scope s')
  | object {t t' : Table} (h : t.Equiv t') : Same (.object t) (.object t')
  | array (items : Array Value) : Same (.array items) (.array items)
  | function (f : Closure) : Same (.function f) (.function f)
  | builtin (b : Builtin) : Same (.builtin b) (.builtin b)

@[refl] lemma Same.refl (x : Cell) : Same x x := by
  cases x with
  | scope s => exact .scope .rfl rfl
  | object t => exact .object .rfl
  | array items => exact .array items
  | function f => exact .function f
  | builtin b => exact .builtin b

lemma Same.symm {x y : Cell} (h : Same x y) : Same y x := by
  cases h with
  | scope hs hp => exact .scope hs.symm hp.symm
  | object ht => exact .object ht.symm
  | array items => exact .array items
  | function f => exact .function f
  | builtin b => exact .builtin b

/-- Cells that hold the same refer to the same cells. -/
lemma Same.refers {x y : Cell} (h : Same x y) {n : Node} (hx : x.Refers n) : y.Refers n := by
  cases h with
  | scope hs hp =>
    cases hx with
    | parent hd => exact .parent (hp ▸ hd)
    | binding hb hv => exact .binding (hs.getElem?_eq ▸ hb) hv
  | object ht =>
    cases hx with
    | entry he hv => exact .entry (ht.getElem?_eq ▸ he) hv
  | array items => exact hx
  | function f => exact hx
  | builtin b => exact hx

end Cell

namespace Store

/-- The cell at a node. -/
def cell (st : Store) : Node → Cell
  | .scope c => .scope (st.scope c)
  | .object r => .object (st.object r)
  | .array r => .array (st.array r)
  | .function r => .function (st.closure r)
  | .builtin r => .builtin (st.builtin r)

/-- There is a cell at a node. -/
def Has (st : Store) : Node → Prop
  | .scope c => c.index < st.scopes.size
  | .object r => r.index < st.objects.size
  | .array r => r.index < st.arrays.size
  | .function r => r.index < st.closures.size
  | .builtin r => r.index < st.builtins.size

instance (st : Store) : DecidablePred st.Has
  | .scope c => Nat.decLt c.index st.scopes.size
  | .object r => Nat.decLt r.index st.objects.size
  | .array r => Nat.decLt r.index st.arrays.size
  | .function r => Nat.decLt r.index st.closures.size
  | .builtin r => Nat.decLt r.index st.builtins.size

/-- From the cell at the first node one comes to the second one by following references. -/
def Reaches (st : Store) : Node → Node → Prop :=
  Relation.ReflTransGen fun n m => (st.cell n).Refers m

/-- A store is below the ones that have all its cells and the same builtins. -/
instance : Preorder Store where
  le st st' := (∀ n, st.Has n → st'.Has n) ∧ st'.builtins = st.builtins
  le_refl _ := ⟨fun _ h => h, rfl⟩
  le_trans _ _ _ h h' := ⟨fun n hn => h'.1 n (h.1 n hn), h'.2.trans h.2⟩

lemma has_of_le {st st' : Store} (h : st ≤ st') {n : Node} (hn : st.Has n) : st'.Has n := h.1 n hn

lemma builtins_of_le {st st' : Store} (h : st ≤ st') : st'.builtins = st.builtins := h.2

/-- Two stores have the same scopes, containers and functions, whatever these hold. -/
def SameExtent (st st' : Store) : Prop :=
  ∀ n, (∀ r, n ≠ .builtin r) → (st.Has n ↔ st'.Has n)

lemma SameExtent.symm {st st' : Store} (h : st.SameExtent st') : st'.SameExtent st :=
  fun n hn => (h n hn).symm

section

variable {st st' : Store} (h : st.SameExtent st')
include h

lemma SameExtent.scopes : st.scopes.size = st'.scopes.size :=
  eq_of_forall_lt_iff fun i : Nat => h (.scope ⟨i⟩) fun _ => by simp

lemma SameExtent.objects : st.objects.size = st'.objects.size :=
  eq_of_forall_lt_iff fun i : Nat => h (.object ⟨i⟩) fun _ => by simp

lemma SameExtent.arrays : st.arrays.size = st'.arrays.size :=
  eq_of_forall_lt_iff fun i : Nat => h (.array ⟨i⟩) fun _ => by simp

lemma SameExtent.closures : st.closures.size = st'.closures.size :=
  eq_of_forall_lt_iff fun i : Nat => h (.function ⟨i⟩) fun _ => by simp

end

/-! ### Making a cell -/

/-- `st'` is `st` with a new cell at `n₀`, which holds `x`. -/
structure Makes (n₀ : Node) (x : Cell) (st st' : Store) : Prop where
  fresh : ¬ st.Has n₀
  has : ∀ n, st'.Has n ↔ st.Has n ∨ n = n₀
  cell : st'.cell n₀ = x
  cell_ne : ∀ n, n ≠ n₀ → st'.cell n = st.cell n
  builtins : st'.builtins = st.builtins

/-- No scope that was there is moved. -/
lemma Makes.parent {n₀ : Node} {x : Cell} {st st' : Store} (h : Makes n₀ x st st') {c : ScopeRef}
    (hc : st.Has (.scope c)) : (st'.scope c).parent = (st.scope c).parent := by
  have hcell := h.cell_ne (.scope c) fun hn => h.fresh (hn ▸ hc)
  simp only [Store.cell, Cell.scope.injEq] at hcell
  rw [hcell]

/-- No array that was there is changed. -/
lemma Makes.array {n₀ : Node} {x : Cell} {st st' : Store} (h : Makes n₀ x st st') {r : ArrayRef}
    (hr : st.Has (.array r)) : st'.array r = st.array r := by
  have hcell := h.cell_ne (.array r) fun hn => h.fresh (hn ▸ hr)
  simpa only [Store.cell, Cell.array.injEq] using hcell

lemma Makes.le {n₀ : Node} {x : Cell} {st st' : Store} (h : Makes n₀ x st st') : st ≤ st' :=
  ⟨fun n hn => (h.has n).mpr (.inl hn), h.builtins⟩

variable (st : Store)

lemma makes_newScope (parent : Option ScopeRef) :
    Makes (.scope (st.newScope parent).1) (.scope { parent }) st (st.newScope parent).2 where
  fresh := Nat.lt_irrefl _
  has n := by
    cases n with
    | scope c =>
      cases c
      simp only [Has, newScope, Heap.lt_size_push, Node.scope.injEq, ScopeRef.mk.injEq]
    | _ => simp [Has, newScope]
  cell := by rw [cell, scope_newScope, if_pos rfl]
  cell_ne n h := by
    cases n with
    | scope c => rw [cell, scope_newScope, if_neg fun hc => h (congrArg _ hc), cell]
    | _ => rfl
  builtins := rfl

lemma makes_newObject (entries : Table) :
    Makes (.object (st.newObject entries).1) (.object entries) st (st.newObject entries).2 where
  fresh := Nat.lt_irrefl _
  has n := by
    cases n with
    | object r =>
      cases r
      simp only [Has, newObject, Heap.lt_size_push, Node.object.injEq, ObjectRef.mk.injEq]
    | _ => simp [Has, newObject]
  cell := by rw [cell, object_newObject, if_pos rfl]
  cell_ne n h := by
    cases n with
    | object r => rw [cell, object_newObject, if_neg fun hr => h (congrArg _ hr), cell]
    | _ => rfl
  builtins := rfl

lemma makes_newArray (items : Array Value) :
    Makes (.array (st.newArray items).1) (.array items) st (st.newArray items).2 where
  fresh := Nat.lt_irrefl _
  has n := by
    cases n with
    | array r =>
      cases r
      simp only [Has, newArray, Heap.lt_size_push, Node.array.injEq, ArrayRef.mk.injEq]
    | _ => simp [Has, newArray]
  cell := by rw [cell, array_newArray, if_pos rfl]
  cell_ne n h := by
    cases n with
    | array r => rw [cell, array_newArray, if_neg fun hr => h (congrArg _ hr), cell]
    | _ => rfl
  builtins := rfl

lemma makes_newClosure (f : Closure) :
    Makes (.function (st.newClosure f).1) (.function f) st (st.newClosure f).2 where
  fresh := Nat.lt_irrefl _
  has n := by
    cases n with
    | function r =>
      cases r
      simp only [Has, newClosure, Heap.lt_size_push, Node.function.injEq, FunctionRef.mk.injEq]
    | _ => simp [Has, newClosure]
  cell := by rw [cell, closure_newClosure, if_pos rfl]
  cell_ne n h := by
    cases n with
    | function r => rw [cell, closure_newClosure, if_neg fun hr => h (congrArg _ hr), cell]
    | _ => rfl
  builtins := rfl

/-- A new scope that is then put inside another one is a new scope inside that one. -/
lemma setParent_newScope (d : ScopeRef) :
    (st.newScope none).2.setParent (st.newScope none).1 d = (st.newScope (some d)).2 := by
  simp only [newScope, setParent, Heap.modify_push]

end Store

/-! ### Changing a cell -/

/-- The changes of a cell: each puts one value into it. -/
inductive Edit where
  /-- A binding of a scope. -/
  | bind (name : String) (v : Value)
  /-- An entry of an object. -/
  | entry (key : String) (v : Value)
  /-- A new last element of an array. -/
  | push (v : Value)
  /-- An element of an array that has it. -/
  | element (index : Int64) (v : Value)

namespace Edit

/-- The value that is put into the cell. -/
def value : Edit → Value
  | bind _ v | entry _ v | push v | element _ v => v

/-- The cell after the change; a cell of another kind stays as it is. -/
def apply : Edit → Cell → Cell
  | bind name v, .scope s => .scope { s with symbols := s.symbols.insert name v }
  | entry key v, .object t => .object (t.insert key v)
  | push v, .array items => .array (items.push v)
  | element index v, .array items =>
    match Store.position? index items.size with
    | some i => .array (items.setIfInBounds i v)
    | none => .array items
  | _, x => x

/-- A changed cell refers to nothing but what it referred to and what was put into it. -/
lemma refers_apply {e : Edit} {x : Cell} {n : Node} (h : (e.apply x).Refers n) :
    x.Refers n ∨ e.value.node? = some n := by
  unfold apply at h
  split at h
  · cases h with
    | parent hd => exact .inl (.parent hd)
    | binding hb hv =>
      rw [Std.TreeMap.getElem?_insert] at hb
      split at hb
      · exact .inr (Option.some.inj hb ▸ hv)
      · exact .inl (.binding hb hv)
  · cases h with
    | entry he hv =>
      rw [Std.TreeMap.getElem?_insert] at he
      split at he
      · exact .inr (Option.some.inj he ▸ hv)
      · exact .inl (.entry he hv)
  · cases h with
    | element hm hv =>
      rcases Array.mem_push.mp hm with hm | rfl
      · exact .inl (.element hm hv)
      · exact .inr hv
  · split at h
    · cases h with
      | element hm hv =>
        rcases Array.mem_or_eq_of_mem_setIfInBounds hm with hm | rfl
        · exact .inl (.element hm hv)
        · exact .inr hv
    · exact .inl h
  · exact .inl h

/-- No change moves a scope. -/
lemma parent_of_apply {e : Edit} {s s' : Scope} (h : e.apply (.scope s) = .scope s') :
    s'.parent = s.parent := by
  cases e <;> cases h <;> rfl

/-- No change but a new last element makes an array longer. -/
lemma size_of_apply {e : Edit} (he : ∀ v, e ≠ .push v) {items items' : Array Value}
    (h : e.apply (.array items) = .array items') : items'.size = items.size := by
  cases e with
  | push v => exact absurd rfl (he v)
  | element index v =>
    simp only [apply] at h
    split at h <;> cases h
    · exact Array.size_setIfInBounds
    · rfl
  | bind name v => cases h; rfl
  | entry key v => cases h; rfl

/-- The same change keeps two cells the same. -/
lemma same_apply (e : Edit) {x y : Cell} (h : x.Same y) : (e.apply x).Same (e.apply y) := by
  cases h with
  | scope hs hp =>
    cases e with
    | bind name v => exact .scope (hs.insert name v) hp
    | _ => exact .scope hs hp
  | object ht =>
    cases e with
    | entry key v => exact .object (ht.insert key v)
    | _ => exact .object ht
  | array items => exact .refl _
  | function f => exact .refl _
  | builtin b => exact .refl _

end Edit

namespace Store

/-- `st'` is `st` with the cell at `n₀`, if there is one, changed by `e`. -/
structure Edits (n₀ : Node) (e : Edit) (st st' : Store) : Prop where
  kind : ∀ r, n₀ ≠ .builtin r
  has : ∀ n, st'.Has n ↔ st.Has n
  cell : st.Has n₀ → st'.cell n₀ = e.apply (st.cell n₀)
  cell_of_not_has : ¬ st.Has n₀ → st'.cell n₀ = st.cell n₀
  cell_ne : ∀ n, n ≠ n₀ → st'.cell n = st.cell n
  builtins : st'.builtins = st.builtins

lemma Edits.parent {n₀ : Node} {e : Edit} {st st' : Store} (h : Edits n₀ e st st')
    (d : ScopeRef) : (st'.scope d).parent = (st.scope d).parent := by
  have of_eq : st'.cell (.scope d) = st.cell (.scope d) →
      (st'.scope d).parent = (st.scope d).parent := fun hd => by
    rw [Store.cell, Store.cell, Cell.scope.injEq] at hd
    rw [hd]
  by_cases hne : .scope d = n₀
  · subst hne
    by_cases hd : st.Has (.scope d)
    · exact Edit.parent_of_apply (h.cell hd).symm
    · exact of_eq (h.cell_of_not_has hd)
  · exact of_eq (h.cell_ne _ hne)

lemma Edits.size_array {n₀ : Node} {e : Edit} {st st' : Store} (h : Edits n₀ e st st')
    (he : ∀ v, e ≠ .push v) (r : ArrayRef) : (st'.array r).size = (st.array r).size := by
  have of_eq : st'.cell (.array r) = st.cell (.array r) →
      (st'.array r).size = (st.array r).size := fun hr => by
    rw [Store.cell, Store.cell, Cell.array.injEq] at hr
    rw [hr]
  by_cases hne : .array r = n₀
  · subst hne
    by_cases hr : st.Has (.array r)
    · exact Edit.size_of_apply he (h.cell hr).symm
    · exact of_eq (h.cell_of_not_has hr)
  · exact of_eq (h.cell_ne _ hne)

lemma Edits.le {n₀ : Node} {e : Edit} {st st' : Store} (h : Edits n₀ e st st') : st ≤ st' :=
  ⟨fun n hn => (h.has n).mpr hn, h.builtins⟩

variable (st : Store)

lemma edits_define (c : ScopeRef) (name : String) (v : Value) :
    Edits (.scope c) (.bind name v) st (st.define c name v) where
  kind _ := by simp
  has n := by cases n <;> simp [Has, define]
  cell h := by
    rw [cell, scope_define, if_pos ⟨rfl, h⟩]
    rfl
  cell_of_not_has h := by rw [cell, scope_define, if_neg fun hc => h hc.2, cell]
  cell_ne n h := by
    cases n with
    | scope d =>
      have hd : ¬ (c = d ∧ d.index < st.scopes.size) := fun hc => h (congrArg _ hc.1.symm)
      rw [cell, scope_define, if_neg hd, cell]
    | _ => rfl
  builtins := rfl

lemma edits_setEntry (r : ObjectRef) (key : String) (v : Value) :
    Edits (.object r) (.entry key v) st (st.setEntry r key v) where
  kind _ := by simp
  has n := by cases n <;> simp [Has, setEntry]
  cell h := by
    rw [cell, object_setEntry, if_pos ⟨rfl, h⟩]
    rfl
  cell_of_not_has h := by rw [cell, object_setEntry, if_neg fun hc => h hc.2, cell]
  cell_ne n h := by
    cases n with
    | object q =>
      have hq : ¬ (r = q ∧ q.index < st.objects.size) := fun hr => h (congrArg _ hr.1.symm)
      rw [cell, object_setEntry, if_neg hq, cell]
    | _ => rfl
  builtins := rfl

lemma edits_pushElement (r : ArrayRef) (v : Value) :
    Edits (.array r) (.push v) st (st.pushElement r v) where
  kind _ := by simp
  has n := by cases n <;> simp [Has, pushElement]
  cell h := by
    rw [cell, array_pushElement, if_pos ⟨rfl, h⟩]
    rfl
  cell_of_not_has h := by rw [cell, array_pushElement, if_neg fun hc => h hc.2, cell]
  cell_ne n h := by
    cases n with
    | array q =>
      have hq : ¬ (r = q ∧ q.index < st.arrays.size) := fun hr => h (congrArg _ hr.1.symm)
      rw [cell, array_pushElement, if_neg hq, cell]
    | _ => rfl
  builtins := rfl

lemma edits_setElement (r : ArrayRef) (index : Int64) (v : Value) :
    Edits (.array r) (.element index v) st (st.setElement r index v) where
  kind _ := by simp
  has n := by cases n <;> simp [Has, setElement]
  cell h := by
    have h' : r.index < st.arrays.size := h
    simp only [cell, array_setElement, Edit.apply, h', and_self, if_true]
    cases position? index (st.array r).size <;> rfl
  cell_of_not_has h := by
    have h' : ¬ r.index < st.arrays.size := h
    simp only [cell, array_setElement, h', and_false, if_false]
    cases position? index (st.array r).size <;> rfl
  cell_ne n h := by
    cases n with
    | array q =>
      have hq : ¬ (r = q ∧ q.index < st.arrays.size) := fun hr => h (congrArg _ hr.1.symm)
      rw [cell, array_setElement, cell]
      simp only [if_neg hq]
      split <;> rfl
    | _ => rfl
  builtins := rfl

end Store

end TreeWalk
