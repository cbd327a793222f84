/-
# The frame of a call

A function is called in a new scope, its frame, inside the scope that it was made in.  Unless its
arguments are refused for their number, the frame binds the parameters and nothing else (`Binds`)
before the body is executed there (`Evaluator.enter_function`); if they are refused, it binds
nothing, and nothing is executed (`Evaluator.enter_refused`).
-/
import TreeWalk.Proofs.Congruence.Calls

namespace TreeWalk

/-- The table binds the parameters and nothing else: each name to the argument at the last position
of the name, or to nil if there is no argument at that position. -/
structure Binds (t : Table) (params : List String) (args : List Value) : Prop where
  last : ∀ k name, params[k]? = some name → name ∉ params.drop (k + 1) →
    t[name]? = some (args.getD k .nil)
  only : ∀ name, name ∉ params → t[name]? = none

/-- The store with one more scope. -/
def Store.withScope (st : Store) (scope : Scope) : Store :=
  { st with scopes := st.scopes.push scope }

lemma Store.define_withScope (st : Store) (scope : Scope) (name : String) (v : Value) :
    (st.withScope scope).define ⟨st.scopes.size⟩ name v =
      st.withScope { scope with symbols := scope.symbols.insert name v } := by
  simp only [withScope, define, Heap.modify_push]

/-! ### Bindings -/

/-- A table with the parameters bound to the arguments, from first to last; a missing argument is
nil. -/
def Table.bindAll (t : Table) : List String → List Value → Table
  | [], _ => t
  | p :: ps, args => Table.bindAll (t.insert p (args.headD .nil)) ps args.tail

namespace Table

variable {params : List String} {name : String}

lemma getElem?_bindAll_of_notMem (t : Table) (args : List Value) (h : name ∉ params) :
    (bindAll t params args)[name]? = t[name]? := by
  induction params generalizing t args with
  | nil => rfl
  | cons p ps ih =>
    obtain ⟨hne, hps⟩ : name ≠ p ∧ name ∉ ps := by simpa using h
    rw [bindAll, ih _ _ hps, Std.TreeMap.getElem?_insert]
    simp [Ne.symm hne]

/-- Later positions of a name win over earlier ones. -/
lemma getElem?_bindAll_of_last (t : Table) (args : List Value) {k : Nat}
    (hk : params[k]? = some name) (hlast : name ∉ params.drop (k + 1)) :
    (bindAll t params args)[name]? = some (args.getD k .nil) := by
  induction params generalizing t args k with
  | nil => simp at hk
  | cons p ps ih =>
    cases k with
    | zero =>
      obtain rfl : p = name := by simpa using hk
      rw [bindAll, getElem?_bindAll_of_notMem _ _ (by simpa using hlast)]
      cases args <;> simp
    | succ k =>
      rw [bindAll, ih _ _ (by simpa using hk) (by simpa using hlast)]
      cases args <;> simp

lemma binds_bindAll (params : List String) (args : List Value) :
    Binds (bindAll ∅ params args) params args where
  last _ _ hk hlast := getElem?_bindAll_of_last ∅ args hk hlast
  only name h := by
    rw [getElem?_bindAll_of_notMem ∅ args h]
    rfl

/-- Arguments without a parameter are of no importance, and the missing ones may be given as
nil. -/
lemma bindAll_takeD (t : Table) (params : List String) (args : List Value) :
    bindAll t params (args.takeD params.length .nil) = bindAll t params args := by
  induction params generalizing t args with
  | nil => rfl
  | cons p ps ih =>
    rw [List.length_cons, List.takeD_succ, bindAll, bindAll, List.tail_cons, ih]
    cases args <;> rfl

end Table

/-- A call depends on what is done one call deeper in its own state. -/
lemma Action.limited_congr {α : Type} {x y : Action α} {s : State} (max : UInt64)
    (h : x { s with depth := s.depth + 1 } = y { s with depth := s.depth + 1 }) :
    limited max x s = limited max y s := by
  rw [limited_apply, limited_apply, nested_apply, nested_apply, h]

namespace Evaluator

lemma bindAll_withScope (st : Store) (scope : Scope) (params : List String) (args : List Value) :
    bindAll (st.withScope scope) ⟨st.scopes.size⟩ params args =
      st.withScope { scope with symbols := scope.symbols.bindAll params args } := by
  induction params generalizing scope args with
  | nil => rfl
  | cons p ps ih => rw [bindAll, Store.define_withScope, ih]; rfl

/-! ### Calls -/

variable (ev : Evaluator) (σ : Setting) (r : FunctionRef) (args : List Value) (s : State)

/-- A function is called in a new scope inside the one that it was made in. -/
lemma enter_function_eq : ev.enter σ (.function r) args s =
    Action.limited σ.config.maxCallDepth (do
      Action.update fun st => st.withScope { parent := some (s.store.closure r).env }
      bindArguments σ.config.arity (s.store.closure r) ⟨s.store.scopes.size⟩ args
      ev.answer ⟨s.store.scopes.size⟩ (s.store.closure r).literal.body) s := by
  rw [enter_eq_limited, execute_function_eq]
  exact Action.limited_congr _ rfl

/-- A function whose arguments are not refused executes its body in its frame. -/
theorem enter_function
    (h : σ.config.arity = .lenient ∨ (s.store.closure r).arity = args.length) :
    ev.enter σ (.function r) args s =
      Action.limited σ.config.maxCallDepth (do
        Action.update fun st => st.withScope {
          symbols := Table.bindAll ∅ (s.store.closure r).literal.params args
          parent := some (s.store.closure r).env }
        ev.answer ⟨s.store.scopes.size⟩ (s.store.closure r).literal.body) s := by
  have hbound : ¬ (σ.config.arity = .strict ∧ (s.store.closure r).arity ≠ args.length) := by
    rintro ⟨hstrict, hargs⟩
    rcases h with h | h
    · rw [h] at hstrict
      cases hstrict
    · exact hargs h
  have hbind := bindAll_withScope s.store { parent := some (s.store.closure r).env }
    (s.store.closure r).literal.params args
  rw [enter_function_eq]
  refine Action.limited_congr _ ?_
  simp only [bindArguments, if_neg hbound, Action.bind_apply, Action.update, hbind]

/-- A function that refuses its arguments binds nothing and executes nothing. -/
theorem enter_refused (hstrict : σ.config.arity = .strict)
    (hargs : (s.store.closure r).arity ≠ args.length) :
    ev.enter σ (.function r) args s =
      Action.limited σ.config.maxCallDepth (do
        Action.update fun st => st.withScope { parent := some (s.store.closure r).env }
        Action.raise
          (.argumentCount (s.store.closure r).text (s.store.closure r).arity args.length)) s := by
  rw [enter_function_eq, bindArguments, if_pos ⟨hstrict, hargs⟩]
  exact Action.limited_congr _ rfl

/-- Without a policy against it, the arguments may as well be as many as the parameters. -/
lemma enter_takeD (hlenient : σ.config.arity = .lenient) :
    ev.enter σ (.function r) (args.takeD (s.store.closure r).arity .nil) s =
      ev.enter σ (.function r) args s := by
  rw [enter_function _ _ _ _ _ (.inl hlenient), enter_function _ _ _ _ _ (.inl hlenient),
    Closure.arity, Table.bindAll_takeD]

end Evaluator

end TreeWalk
