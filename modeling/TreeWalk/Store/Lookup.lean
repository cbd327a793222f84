/-
# Names in scopes

A name means its binding in the nearest scope that has one, starting from a scope and following
the links to the scopes around it.  The links of a host may run in a circle, and then a name that
the circle does not bind is never found and never missed; the search says so after it has passed
more scopes than there are.
-/
import TreeWalk.Store

namespace TreeWalk

/-- The end of a search along the scopes. -/
inductive Search (α : Type) where
  /-- Found. -/
  | found (a : α)
  /-- The chain of scopes ended without it. -/
  | unbound
  /-- The chain of scopes does not end and does not have it. -/
  | endless
deriving DecidableEq, Repr

namespace Store

/-- The nearest scope that binds `name`, with the value it binds it to, among the first `n` scopes
of the chain that starts at `c`. -/
def searchFrom (st : Store) (name : String) : Nat → ScopeRef → Search (ScopeRef × Value)
  | 0, _ => .endless
  | n + 1, c =>
    let s := st.scope c
    match s.symbols[name]? with
    | some v => .found (c, v)
    | none =>
      match s.parent with
      | some parent => st.searchFrom name n parent
      | none => .unbound

/-- The nearest scope that binds `name`, with the value it binds it to.  A chain with more scopes
than the store has runs in a circle. -/
def search (st : Store) (c : ScopeRef) (name : String) : Search (ScopeRef × Value) :=
  st.searchFrom name (st.scopes.size + 1) c

/-- The value of a name. -/
def lookup (st : Store) (c : ScopeRef) (name : String) : Search Value :=
  match st.search c name with
  | .found (_, v) => .found v
  | .unbound => .unbound
  | .endless => .endless

/-- The store with the nearest binding of a name replaced. -/
def assign (st : Store) (c : ScopeRef) (name : String) (v : Value) : Search Store :=
  match st.search c name with
  | .found (d, _) => .found (st.define d name v)
  | .unbound => .unbound
  | .endless => .endless

/-- The names that a scope binds itself, in order. -/
def names (st : Store) (c : ScopeRef) : List String := (st.scope c).symbols.keys

/-- Whether a scope binds a name itself. -/
def hasLocal (st : Store) (c : ScopeRef) (name : String) : Bool :=
  (st.scope c).symbols.contains name

end Store

end TreeWalk
