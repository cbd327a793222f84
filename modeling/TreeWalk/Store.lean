/-
# The store

The store holds the cells that values and scopes refer to: scopes, objects, arrays, functions and
builtins.  Cells are made and changed but never removed.  A reference whose cell does not exist
reads as an empty one; the operations below never make such references.
-/
import Std.Data.TreeMap
import Std.Data.TreeMap.Lemmas
import TreeWalk.Heap
import TreeWalk.Native
import TreeWalk.Value

namespace TreeWalk

/-- A map from names or keys to values, in the order of code points. -/
abbrev Table : Type := Std.TreeMap String Value

/-- A scope: the names it binds itself, and the scope around it. -/
structure Scope where
  /-- The bindings of the scope itself. -/
  symbols : Table := ∅
  /-- The scope in which the search for a name goes on. -/
  parent : Option ScopeRef := none

instance : Inhabited Scope := ⟨{}⟩

/-- A function: a literal with the scope in which it was evaluated. -/
structure Closure where
  /-- The literal. -/
  literal : FunctionLit
  /-- The scope that its body sees. -/
  env : ScopeRef

instance : Inhabited Closure := ⟨⟨default, ⟨0⟩⟩⟩

namespace Closure

/-- The name of the literal. -/
def name (c : Closure) : Option String := c.literal.name

/-- The number of parameters. -/
def arity (c : Closure) : Nat := c.literal.params.length

/-- A function as it is shown. -/
def text (c : Closure) : String :=
  match c.name with
  | some name => "<function " ++ name ++ ">"
  | none => "<function>"

end Closure

/-- All the cells. -/
structure Store where
  /-- The scopes. -/
  scopes : Heap Scope := .empty
  /-- The entries of the objects. -/
  objects : Heap Table := .empty
  /-- The elements of the arrays. -/
  arrays : Heap (Array Value) := .empty
  /-- The functions. -/
  closures : Heap Closure := .empty
  /-- The builtins. -/
  builtins : Heap Builtin := .empty

instance : Inhabited Store := ⟨{}⟩

namespace Store

/-! ### Reading -/

/-- The scope at `c`. -/
def scope (st : Store) (c : ScopeRef) : Scope := st.scopes.get c.index

/-- The entries of an object. -/
def object (st : Store) (r : ObjectRef) : Table := st.objects.get r.index

/-- The elements of an array. -/
def array (st : Store) (r : ArrayRef) : Array Value := st.arrays.get r.index

/-- The function at `r`. -/
def closure (st : Store) (r : FunctionRef) : Closure := st.closures.get r.index

/-- The builtin at `r`. -/
def builtin (st : Store) (r : BuiltinRef) : Builtin := st.builtins.get r.index

/-! ### Making cells -/

/-- A new scope without bindings. -/
def newScope (st : Store) (parent : Option ScopeRef) : ScopeRef × Store :=
  (⟨st.scopes.size⟩, { st with scopes := st.scopes.push { parent } })

/-- A new object. -/
def newObject (st : Store) (entries : Table) : ObjectRef × Store :=
  (⟨st.objects.size⟩, { st with objects := st.objects.push entries })

/-- A new array. -/
def newArray (st : Store) (items : Array Value) : ArrayRef × Store :=
  (⟨st.arrays.size⟩, { st with arrays := st.arrays.push items })

/-- A new function. -/
def newClosure (st : Store) (c : Closure) : FunctionRef × Store :=
  (⟨st.closures.size⟩, { st with closures := st.closures.push c })

/-- A new builtin. -/
def newBuiltin (st : Store) (b : Builtin) : BuiltinRef × Store :=
  (⟨st.builtins.size⟩, { st with builtins := st.builtins.push b })

/-! ### Changing cells -/

/-- Bind `name` in the scope `c` itself. -/
def define (st : Store) (c : ScopeRef) (name : String) (v : Value) : Store :=
  { st with scopes := st.scopes.modify c.index fun s =>
      { s with symbols := s.symbols.insert name v } }

/-- Put the scope `c` inside the scope `parent`. -/
def setParent (st : Store) (c parent : ScopeRef) : Store :=
  { st with scopes := st.scopes.modify c.index fun s => { s with parent := some parent } }

/-- Set the entry of an object under a key. -/
def setEntry (st : Store) (r : ObjectRef) (key : String) (v : Value) : Store :=
  { st with objects := st.objects.modify r.index fun t => t.insert key v }

/-- Put a value at the end of an array. -/
def pushElement (st : Store) (r : ArrayRef) (v : Value) : Store :=
  { st with arrays := st.arrays.modify r.index fun a => a.push v }

/-! ### Entries and elements -/

/-- The value of an object under a key; nil when there is none. -/
def entry (st : Store) (r : ObjectRef) (key : String) : Value := (st.object r).getD key .nil

/-- The place in an array of `length` elements that an index stands for. -/
def position? (index : Int64) (length : Nat) : Option Nat :=
  if 0 ≤ index.toInt ∧ index.toInt < length then some index.toInt.toNat else none

/-- The element of an array at an index. -/
def element? (st : Store) (r : ArrayRef) (index : Int64) : Option Value :=
  let items := st.array r
  (position? index items.size).map fun i => items.getD i .nil

/-- Whether an array has an element at an index. -/
def hasElement (st : Store) (r : ArrayRef) (index : Int64) : Bool :=
  (position? index (st.array r).size).isSome

/-- Replace the element of an array at an index; without such an element nothing changes. -/
def setElement (st : Store) (r : ArrayRef) (index : Int64) (v : Value) : Store :=
  { st with arrays := st.arrays.modify r.index fun a =>
      match position? index a.size with
      | some i => a.setIfInBounds i v
      | none => a }

/-! ### What the operations do to the cells

Making a cell leaves the cells that exist as they are; changing a cell leaves the other ones as
they are. -/

theorem scope_newScope (st : Store) (parent : Option ScopeRef) (c : ScopeRef) :
    (st.newScope parent).2.scope c =
      if c = (st.newScope parent).1 then { parent } else st.scope c := by
  cases c
  simp [newScope, scope, Heap.get_push]

theorem object_newObject (st : Store) (entries : Table) (r : ObjectRef) :
    (st.newObject entries).2.object r =
      if r = (st.newObject entries).1 then entries else st.object r := by
  cases r
  simp [newObject, object, Heap.get_push]

theorem array_newArray (st : Store) (items : Array Value) (r : ArrayRef) :
    (st.newArray items).2.array r =
      if r = (st.newArray items).1 then items else st.array r := by
  cases r
  simp [newArray, array, Heap.get_push]

theorem closure_newClosure (st : Store) (f : Closure) (r : FunctionRef) :
    (st.newClosure f).2.closure r = if r = (st.newClosure f).1 then f else st.closure r := by
  cases r
  simp [newClosure, closure, Heap.get_push]

theorem builtin_newBuiltin (st : Store) (b : Builtin) (r : BuiltinRef) :
    (st.newBuiltin b).2.builtin r = if r = (st.newBuiltin b).1 then b else st.builtin r := by
  cases r
  simp [newBuiltin, builtin, Heap.get_push]

theorem scope_define (st : Store) (c d : ScopeRef) (name : String) (v : Value) :
    (st.define c name v).scope d =
      if c = d ∧ d.index < st.scopes.size then
        { st.scope d with symbols := (st.scope d).symbols.insert name v }
      else st.scope d := by
  cases c; cases d
  simp [define, scope, Heap.get_modify]

theorem scope_setParent (st : Store) (c parent d : ScopeRef) :
    (st.setParent c parent).scope d =
      if c = d ∧ d.index < st.scopes.size then { st.scope d with parent := some parent }
      else st.scope d := by
  cases c; cases d
  simp [setParent, scope, Heap.get_modify]

theorem object_setEntry (st : Store) (r q : ObjectRef) (key : String) (v : Value) :
    (st.setEntry r key v).object q =
      if r = q ∧ q.index < st.objects.size then (st.object q).insert key v
      else st.object q := by
  cases r; cases q
  simp [setEntry, object, Heap.get_modify]

theorem array_pushElement (st : Store) (r q : ArrayRef) (v : Value) :
    (st.pushElement r v).array q =
      if r = q ∧ q.index < st.arrays.size then (st.array q).push v else st.array q := by
  cases r; cases q
  simp [pushElement, array, Heap.get_modify]

theorem array_setElement (st : Store) (r q : ArrayRef) (index : Int64) (v : Value) :
    (st.setElement r index v).array q =
      match position? index (st.array q).size with
      | some i =>
        if r = q ∧ q.index < st.arrays.size then (st.array q).setIfInBounds i v else st.array q
      | none => st.array q := by
  have h : (r.index = q.index ∧ q.index < st.arrays.size) ↔ (r = q ∧ q.index < st.arrays.size) := by
    cases r; cases q; simp
  simp only [setElement, array, Heap.get_modify, h]
  by_cases hq : r = q ∧ q.index < st.arrays.size
  · simp only [hq, and_self, if_true]
  · simp only [hq, if_false]
    split <;> rfl

end Store

end TreeWalk
