/-
# Other bodies for functions

What can be seen of a function without calling it is which function it is, its name and the number
of its parameters, but never its body.  A recoding gives other bodies to all functions of a store
(`Store.recode`); this file says that the store otherwise stays what it is: names have the same
values, and values have the same texts.
-/
import Mathlib.Tactic.Lemma
import TreeWalk.Action
import TreeWalk.Proofs.Rendering

namespace TreeWalk

namespace Heap

variable {α : Type}

/-- The heap with all its cells changed in the same way. -/
def map (h : Heap α) (f : α → α) : Heap α := ⟨h.cells.map f⟩

lemma map_push (h : Heap α) (f : α → α) (a : α) : (h.push a).map f = (h.map f).push (f a) := by
  simp only [map, push, Array.map_push]

lemma size_map (h : Heap α) (f : α → α) : (h.map f).size = h.size := by
  simp only [map, size, Array.size_map]

/-- What is read outside of the heap has to stay the default cell. -/
lemma get_map [Inhabited α] (h : Heap α) {f : α → α} (hf : f default = default) (i : Nat) :
    (h.map f).get i = f (h.get i) := by
  simp only [map, get, Array.getD_eq_getD_getElem?, Array.getElem?_map]
  cases h.cells[i]? with
  | none => exact hf.symm
  | some a => rfl

end Heap

/-- A change of the bodies of functions. -/
structure Recoding where
  /-- The body that a body is changed into. -/
  body : List Stmt → List Stmt
  body_nil : body [] = []

variable (ρ : Recoding)

/-- A literal with its body changed. -/
def FunctionLit.recode (l : FunctionLit) : FunctionLit := { l with body := ρ.body l.body }

/-- A function with its body changed. -/
def Closure.recode (f : Closure) : Closure := { f with literal := f.literal.recode ρ }

namespace Store

/-- The store with the bodies of its functions changed. -/
def recode (st : Store) : Store := { st with closures := st.closures.map (Closure.recode ρ) }

lemma closure_recode (st : Store) (r : FunctionRef) :
    (st.recode ρ).closure r = (st.closure r).recode ρ := by
  refine Heap.get_map st.closures ?_ r.index
  show Closure.mk ⟨none, [], ρ.body []⟩ ⟨0⟩ = default
  rw [ρ.body_nil]
  rfl

lemma newClosure_recode (st : Store) (f : Closure) :
    (st.recode ρ).newClosure (f.recode ρ) =
      ((st.newClosure f).1, (st.newClosure f).2.recode ρ) := by
  simp only [newClosure, recode, Heap.map_push, Heap.size_map]

/-! ### What stays the same -/

lemma search_recode (st : Store) (c : ScopeRef) (name : String) :
    (st.recode ρ).search c name = st.search c name := by
  have hfrom : ∀ n c, (st.recode ρ).searchFrom name n c = st.searchFrom name n c := by
    intro n
    induction n with
    | zero => exact fun _ => rfl
    | succ n ih =>
      intro c
      have hscope : (st.recode ρ).scope c = st.scope c := rfl
      simp only [searchFrom, hscope, ih]
  exact hfrom _ c

lemma label_recode (st : Store) (v : Value) : (st.recode ρ).label v = st.label v := by
  cases v with
  | function r =>
    simp only [label, closure_recode]
    rfl
  | _ => rfl

lemma unfoldBelow_recode (st : Store) (room : Nat) (path : List Value) (v : Value) :
    (st.recode ρ).unfoldBelow room path v = st.unfoldBelow room path v := by
  have hobject : ∀ r, (st.recode ρ).object r = st.object r := fun _ => rfl
  have harray : ∀ r, (st.recode ρ).array r = st.array r := fun _ => rfl
  induction room generalizing path v with
  | zero => cases v <;> simp only [unfoldBelow, leaf, label_recode]
  | succ room ih => cases v <;> simp only [unfoldBelow, leaf, label_recode, hobject, harray, ih]

lemma text_recode (st : Store) (v : Value) : (st.recode ρ).text v = st.text v := by
  rw [text_eq, text_eq]
  exact congrArg Shown.text (st.unfoldBelow_recode ρ shownDepth [] v)

lemma debugText_recode (st : Store) (v : Value) :
    (st.recode ρ).debugText v = st.debugText v := by
  cases v <;> simp only [debugText, text_recode]

end Store

/-- The second state is the first one with other bodies, after any number of steps. -/
structure State.Recodes (s s' : State) : Prop where
  store : s'.store = s.store.recode ρ
  depth : s'.depth = s.depth

/-- Two actions have come to the same value or to the same error, or neither has come to an end; the
states differ in the bodies of functions and in the number of steps. -/
inductive Outcome.Recodes {α : Type} : Outcome α → Outcome α → Prop
  | value {a : α} {t t' : State} (h : t.Recodes ρ t') : Recodes (.value a t) (.value a t')
  | error {e : EvalError} {t t' : State} (h : t.Recodes ρ t') : Recodes (.error e t) (.error e t')
  | unfinished : Recodes .unfinished .unfinished

end TreeWalk
