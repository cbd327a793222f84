/-
# Regions

A region is a part of a store that no reference leads out of, such as all that can be reached from
a scope.  In a later store it has the same nodes and those made since, and what evaluates with
values of a region stays inside.  This file says what "inside" means for the things an evaluation
handles (`Placed`), and that what is read inside of a region is inside (`Region.Valid`).
-/
import Mathlib.Data.Set.Defs
import TreeWalk.Evaluator
import TreeWalk.Proofs.Cells
import TreeWalk.Proofs.Chains

namespace TreeWalk

/-- A part of a store that no reference leads out of. -/
structure Region where
  /-- The store in which the part is marked off. -/
  base : Store
  /-- The nodes of the part. -/
  start : Set Node
  /-- The behaviours that its builtins may have. -/
  allows : Native → Prop
  closed : ∀ {n m}, n ∈ start → (base.cell n).Refers m → m ∈ start
  native : ∀ {r}, .builtin r ∈ start → allows (base.builtin r).native

namespace Region

variable (R : Region)

/-- The nodes of a region in a store that came from the one it was marked off in: those of the
start and the new ones. -/
def Has (st : Store) (n : Node) : Prop := n ∈ R.start ∨ (¬ R.base.Has n ∧ st.Has n)

variable {R}

lemma Has.mono {st st' : Store} (h : st ≤ st') {n : Node} (hn : R.Has st n) : R.Has st' n :=
  hn.imp_right fun hn => ⟨hn.1, Store.has_of_le h hn.2⟩

lemma has_base {n : Node} : R.Has R.base n ↔ n ∈ R.start :=
  ⟨fun h => h.resolve_right fun hn => hn.1 hn.2, .inl⟩

/-- There is no such scope in the store in which the region was marked off. -/
def New (R : Region) (c : ScopeRef) : Prop := ¬ R.base.Has (.scope c)

/-- The faults that can come from something other than a list of statements that was left: a fault
that a builtin raises comes from one of the builtins that are there to raise faults. -/
def MayRaise (R : Region) : Fault → Prop
  | .strayBreak => False
  | .raised _ _ => R.allows .fail ∨ R.allows .failAt
  | _ => True

end Region

/-! ### Things inside a region -/

/-- What it means for a thing that it leads to nothing outside of a region. -/
class Placed (α : Type) where
  /-- The thing leads to nothing outside of the region, as the region is in a store. -/
  Inside : Region → Store → α → Prop
  mono : ∀ {R : Region} {st st' : Store} {a : α}, st ≤ st' → Inside R st a → Inside R st' a

/-- A thing that leads nowhere is inside every region. -/
@[reducible] def Placed.anywhere (α : Type) : Placed α where
  Inside _ _ _ := True
  mono _ h := h

namespace Region

/-- `a` leads to nothing outside of the region. -/
def Inside {α : Type} [Placed α] (R : Region) (st : Store) (a : α) : Prop := Placed.Inside R st a

lemma Inside.mono {α : Type} [Placed α] {R : Region} {st st' : Store} {a : α}
    (ha : R.Inside st a) (h : st ≤ st') : R.Inside st' a :=
  Placed.mono h ha

end Region

instance : Placed Unit := .anywhere Unit
instance : Placed Bool := .anywhere Bool
instance : Placed Nat := .anywhere Nat
instance : Placed UInt64 := .anywhere UInt64
instance : Placed String := .anywhere String
instance : Placed Stmt := .anywhere Stmt
instance : Placed EvalError := .anywhere EvalError

instance : Placed Fault where
  Inside R _ fault := R.MayRaise fault
  mono _ h := h

instance : Placed ScopeRef where
  Inside R st c := R.Has st (.scope c)
  mono h hc := hc.mono h

/-- A scope that was made after the region had been marked off. -/
structure FreshScope where
  /-- The scope. -/
  ref : ScopeRef

instance : Placed FreshScope where
  Inside R st c := R.New c.ref ∧ R.Has st (.scope c.ref)
  mono h hc := ⟨hc.1, hc.2.mono h⟩

instance : Placed ObjectRef where
  Inside R st r := R.Has st (.object r)
  mono h hr := hr.mono h

instance : Placed ArrayRef where
  Inside R st r := R.Has st (.array r)
  mono h hr := hr.mono h

instance : Placed FunctionRef where
  Inside R st r := R.Has st (.function r)
  mono h hr := hr.mono h

instance : Placed Value where
  Inside R st v := ∀ n, v.node? = some n → R.Has st n
  mono h hv n hn := (hv n hn).mono h

instance : Placed Table where
  Inside R st t := ∀ (key : String) (v : Value), t[key]? = some v → R.Inside st v
  mono h ht key v hv := (ht key v hv).mono h

instance : Placed Closure where
  Inside R st f := R.Inside st f.env
  mono h hf := hf.mono h

instance : Placed Builtin where
  Inside R _ b := R.allows b.native
  mono _ hb := hb

instance : Placed Flow where
  Inside R st f := ∀ v, f = .ret v → R.Inside st v
  mono h hf v hv := (hf v hv).mono h

section

variable {α : Type} [Placed α]

instance : Placed (List α) where
  Inside R st l := ∀ a ∈ l, R.Inside st a
  mono h hl a ha := (hl a ha).mono h

instance : Placed (Array α) where
  Inside R st l := ∀ a ∈ l, R.Inside st a
  mono h hl a ha := (hl a ha).mono h

instance : Placed (Option α) where
  Inside R st o := ∀ a, o = some a → R.Inside st a
  mono h ho a ha := (ho a ha).mono h

instance {β : Type} [Placed β] : Placed (α × β) where
  Inside R st p := R.Inside st p.1 ∧ R.Inside st p.2
  mono h hp := ⟨hp.1.mono h, hp.2.mono h⟩

instance {ε : Type} [Placed ε] : Placed (Except ε α) where
  Inside R st r := (∀ a, r = .ok a → R.Inside st a) ∧ ∀ e, r = .error e → R.Inside st e
  mono h hr := ⟨fun a ha => (hr.1 a ha).mono h, fun e he => (hr.2 e he).mono h⟩

end

namespace Region

variable {R : Region} {st : Store}

/-- A value that leads to no cell is inside. -/
lemma inside_of_node?_eq_none {v : Value} (h : v.node? = none) : R.Inside st v := by
  intro n hn
  rw [h] at hn
  cases hn

lemma inside_of_node? {v : Value} {n : Node} (h : v.node? = some n) (hn : R.Has st n) :
    R.Inside st v := by
  intro m hm
  rw [h] at hm
  cases hm
  exact hn

lemma inside_ok {α ε : Type} [Placed α] [Placed ε] {a : α} (ha : R.Inside st a) :
    R.Inside st (Except.ok a : Except ε α) := by
  refine ⟨fun b hb => ?_, nofun⟩
  cases hb
  exact ha

lemma inside_error {α ε : Type} [Placed α] [Placed ε] {e : ε} (he : R.Inside st e) :
    R.Inside st (Except.error e : Except ε α) := by
  refine ⟨nofun, fun e' he' => ?_⟩
  cases he'
  exact he

lemma Inside.has {v : Value} (hv : R.Inside st v) {n : Node} (h : v.node? = some n) :
    R.Has st n :=
  hv n h

lemma inside_insert {t : Table} {key : String} {v : Value} (ht : R.Inside st t)
    (hv : R.Inside st v) : R.Inside st (t.insert key v) := by
  intro k w hw
  rw [Std.TreeMap.getElem?_insert] at hw
  split at hw
  · exact Option.some.inj hw ▸ hv
  · exact ht k w hw

lemma inside_push {vs : Array Value} {v : Value} (hs : R.Inside st vs) (hv : R.Inside st v) :
    R.Inside st (vs.push v) := by
  intro w hw
  rcases Array.mem_push.mp hw with hw | rfl
  · exact hs w hw
  · exact hv

lemma inside_getD {vs : List Value} (hs : R.Inside st vs) (i : Nat) :
    R.Inside st (vs.getD i .nil) := by
  rw [List.getD_eq_getElem?_getD]
  cases h : vs[i]? with
  | none => exact inside_of_node?_eq_none rfl
  | some v => exact hs v (List.mem_of_getElem? h)

lemma inside_tail {vs : List Value} (hs : R.Inside st vs) : R.Inside st vs.tail :=
  fun v hv => hs v (List.mem_of_mem_tail hv)

/-! ### Stores with a region -/

/-- The store comes from the one that the region was marked off in, and no reference leads out of
the region. -/
structure Valid (R : Region) (st : Store) : Prop where
  le : R.base ≤ st
  closed : ∀ n m, R.Has st n → (st.cell n).Refers m → R.Has st m

lemma valid_base (R : Region) : R.Valid R.base where
  le := le_rfl
  closed _ _ hn h := .inl (R.closed (has_base.mp hn) h)

namespace Valid

variable (hst : R.Valid st)
include hst

/-- Evaluations make no builtins. -/
lemma mem_start_of_builtin {r : BuiltinRef} (hr : R.Has st (.builtin r)) :
    .builtin r ∈ R.start := by
  refine hr.resolve_right fun h => h.1 ?_
  have hb : r.index < st.builtins.size := h.2
  rwa [Store.builtins_of_le hst.le] at hb

lemma builtin {r : BuiltinRef} (hr : R.Has st (.builtin r)) : R.Inside st (st.builtin r) := by
  have h := R.native (hst.mem_start_of_builtin hr)
  rwa [Store.builtin, ← Store.builtins_of_le hst.le] at h

lemma parent {c d : ScopeRef} (hc : R.Inside st c) (h : (st.scope c).parent = some d) :
    R.Inside st d :=
  hst.closed _ _ hc (.parent h)

lemma symbols {c : ScopeRef} (hc : R.Inside st c) : R.Inside st (st.scope c).symbols :=
  fun _ _ hv n hn => hst.closed _ n hc (.binding hv hn)

lemma object {r : ObjectRef} (hr : R.Has st (.object r)) : R.Inside st (st.object r) :=
  fun _ _ hv n hn => hst.closed _ n hr (.entry hv hn)

lemma array {r : ArrayRef} (hr : R.Has st (.array r)) : R.Inside st (st.array r) :=
  fun _ hv n hn => hst.closed _ n hr (.element hv hn)

lemma closure {r : FunctionRef} (hr : R.Has st (.function r)) : R.Inside st (st.closure r) :=
  hst.closed _ _ hr .env

lemma entry {r : ObjectRef} (hr : R.Has st (.object r)) (key : String) :
    R.Inside st (st.entry r key) := by
  rw [Store.entry, Std.TreeMap.getD_eq_getD_getElem?]
  cases h : (st.object r)[key]? with
  | none => exact inside_of_node?_eq_none rfl
  | some v => exact hst.object hr key v h

lemma element? {r : ArrayRef} (hr : R.Has st (.array r)) (i : Int64) :
    R.Inside st (st.element? r i) := by
  intro v hv
  obtain ⟨k, -, rfl⟩ := Option.map_eq_some_iff.mp hv
  rw [Array.getD_eq_getD_getElem?]
  cases h : (st.array r)[k]? with
  | none => exact inside_of_node?_eq_none rfl
  | some w => exact hst.array hr w (Array.mem_of_getElem? h)

/-- A search that starts inside finds a scope and a value inside. -/
lemma search {c d : ScopeRef} {name : String} {v : Value} (hc : R.Inside st c)
    (h : st.search c name = .found (d, v)) : R.Inside st d ∧ R.Inside st v := by
  unfold Store.search at h
  -- the search goes from scope to scope, and every scope on its way is inside
  generalize st.scopes.size + 1 = n at h
  induction n generalizing c with
  | zero => cases h
  | succ n ih =>
    rw [Store.searchFrom] at h
    split at h
    · next w hw =>
      cases h
      exact ⟨hc, hst.symbols hc name _ hw⟩
    · split at h
      · next e he => exact ih (hst.parent hc he) h
      · cases h

end Valid

end Region

end TreeWalk
