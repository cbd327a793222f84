/-
# The primitive actions of evaluations

What an evaluation does without evaluating anything else is primitive: the operations on names, keys
and containers, and the binding of arguments.  The making of a function is not, since it is about
code, but it is contained in the region as well (`Contained.makeFunction`).
-/
import TreeWalk.Evaluator.Calls
import TreeWalk.Proofs.Primitive

namespace TreeWalk

namespace Action

lemma lookup_eq_search (c : ScopeRef) (name : String) :
    lookup c name = search c name >>= fun
      | some r => pure r.2
      | none => raise (.unbound name) := by
  funext s
  rw [bind_apply]
  unfold lookup search Store.lookup
  cases s.store.search c name <;> rfl

lemma globalOf_eq_search (c : ScopeRef) (name : String) :
    Evaluator.globalOf c name = search c name >>= fun
      | some r => pure r.2
      | none => pure .nil := by
  funext s
  rw [bind_apply]
  unfold Evaluator.globalOf search Store.lookup
  cases s.store.search c name <;> rfl

end Action

namespace Region

namespace Primitive

open Evaluator

variable {R : Region} {B : ScopeRef → String → Prop} {w : Store} {α : Type} [Placed α]

/-! ### Names -/

lemma lookup {c : ScopeRef} (hc : R.Inside w c) (name : String) :
    R.Primitive B w (Action.lookup c name) := by
  rw [Action.lookup_eq_search]
  refine (search hc name).bind fun w' _ o ho => ?_
  cases o with
  | some r => exact pure (ho r rfl).2
  | none => exact raise trivial

lemma globalOf {c : ScopeRef} (hc : R.Inside w c) (name : String) :
    R.Primitive B w (Evaluator.globalOf c name) := by
  rw [Action.globalOf_eq_search]
  refine (search hc name).bind fun w' _ o ho => ?_
  cases o with
  | some r => exact pure (ho r rfl).2
  | none => exact pure (inside_of_node?_eq_none rfl)

lemma assignName {c : ScopeRef} {v : Value} (hc : R.Inside w c) (name : String)
    (hv : R.Inside w v) : R.Primitive B w (Evaluator.assignName c name v) := by
  refine (assign hc name hv).bind fun w' _ found _ => ?_
  cases found with
  | true => exact pure trivial
  | false => exact raise trivial

lemma resolve {c : ScopeRef} {v : Value} (hc : R.Inside w c) (hv : R.Inside w v) :
    R.Primitive B w (Evaluator.resolve c v) := by
  unfold Evaluator.resolve
  split
  · exact lookup hc _
  · exact pure hv

/-! ### New cells -/

lemma newScope {parent : Option ScopeRef} (hp : R.Inside w parent) :
    R.Primitive B w (Action.create fun st => st.newScope parent) :=
  bind (freshScope hp) fun _ _ c hc => pure (a := c.ref) hc.2

lemma childScope {c : ScopeRef} (hc : R.Inside w c) : R.Primitive B w (Evaluator.childScope c) :=
  newScope fun _ h => by
    cases h
    exact hc

/-- An object with given entries. -/
lemma newTable {t : Table} (ht : R.Inside w t) :
    R.Primitive B w (Action.create fun st => st.newObject t) :=
  newObject (fun _ hw _ => ht.mono hw) (fun _ _ _ _ _ => .rfl) fun _ _ => rfl

lemma bindName {c : ScopeRef} {v : Value} (hc : R.Inside w c) (hv : R.Inside w v)
    (name : Option String) (hname : ∀ n, name = some n → B c n) :
    R.Primitive B w (Evaluator.bindName c v name) := by
  cases name with
  | some name => exact define hc name hv (hname name rfl)
  | none => exact pure trivial

lemma arrayOf {items : Array Value} (hi : R.Inside w items) :
    R.Primitive B w (Evaluator.arrayOf items) :=
  (newArray hi).bind fun _ _ _ hr => pure (inside_of_node? rfl hr)

/-! ### Containers and faults -/

lemma readText {v : Value} (hv : R.Inside w v) :
    R.Primitive B w (Action.read fun st => st.text v) :=
  read (fun _ _ _ => trivial) (fun _ _ hw hst ha => ha.text hst (hv.mono hw))
    fun ρ st => st.text_recode ρ v

lemma refuse (fault : String → Fault) {v : Value} (hv : R.Inside w v)
    (hf : ∀ shown, R.MayRaise (fault shown) := by exact fun _ => trivial) :
    R.Primitive B w (Evaluator.refuse fault v : Action α) :=
  (readText hv).bind fun _ _ shown _ => raise (hf shown)

lemma refuseKey {key : Value} (hk : R.Inside w key) :
    R.Primitive B w (Evaluator.refuseKey key : Action α) :=
  refuse _ hk

lemma readBuiltin {r : BuiltinRef} (hr : R.Has w (.builtin r)) :
    R.Primitive B w (Action.read fun st => st.builtin r) :=
  read (fun _ hw hst => hst.builtin (hr.mono hw)) (fun _ _ hw _ ha => ha.builtin (hr.mono hw))
    fun _ _ => rfl

lemma readArraySize {r : ArrayRef} (hr : R.Inside w r) :
    R.Primitive B w (Action.read fun st => (st.array r).size) :=
  read (fun _ _ _ => trivial) (fun _ _ hw _ ha => congrArg _ (ha.array (hr.mono hw)))
    fun _ _ => rfl

lemma readKey {container key : Value} (hc : R.Inside w container) (hk : R.Inside w key) :
    R.Primitive B w (Evaluator.readKey container key) := by
  unfold Evaluator.readKey
  split
  · next r k =>
    have hr : R.Inside w r := hc.has rfl
    exact read (fun _ hw hst => hst.entry (hr.mono hw) k)
      (fun _ _ hw _ ha => ha.entry (hr.mono hw) k) fun _ _ => rfl
  · next r i =>
    have hr : R.Inside w r := hc.has rfl
    refine (read (fun _ hw hst => hst.element? (hr.mono hw) i)
      (fun _ _ hw _ ha => ha.element? (hr.mono hw) i) fun _ _ => rfl).bind fun w' hw o ho => ?_
    cases o with
    | some v => exact pure (ho v rfl)
    | none => exact (readArraySize (hr.mono hw)).bind fun _ _ _ _ => raise trivial
  · exact refuseKey hk

lemma writeKey {container key v : Value} (hc : R.Inside w container) (hk : R.Inside w key)
    (hv : R.Inside w v) : R.Primitive B w (Evaluator.writeKey container key v) := by
  cases container with
  | object r =>
    cases key with
    | string k => exact setEntry (hc.has rfl) k hv
    | _ => exact refuseKey hk
  | array r =>
    cases key with
    | number i =>
      have hr : R.Inside w r := hc.has rfl
      -- whether there is such an element is read first, and the array is changed after that
      have heq : Evaluator.writeKey (.array r) (.number i) v = (do
          if ← Action.read fun st => st.hasElement r i then
            Action.update fun st => st.setElement r i v
          else
            Action.raise (.outOfRange i (← Action.read fun st => (st.array r).size))) := by
        funext s
        simp only [Evaluator.writeKey, Action.bind_apply, Action.read]
        split <;> rfl
      rw [heq]
      refine (read (f := fun st => st.hasElement r i) (fun _ _ _ => trivial)
        (fun _ _ hw _ ha => ?_) fun _ _ => rfl).bind fun w' hw found _ => ?_
      · rw [Store.hasElement, Store.hasElement, ha.array (hr.mono hw)]
      · cases found with
        | true => exact setElement (hr.mono hw) i (hv.mono hw)
        | false => exact (readArraySize (hr.mono hw)).bind fun _ _ _ _ => raise trivial
    | _ => exact refuseKey hk
  | _ => exact refuseKey hk

/-! ### Operators -/

lemma ofExcept {r : Except Fault α} (hr : R.Inside w r) : R.Primitive B w (Action.ofExcept r) := by
  cases r with
  | ok a => exact pure (hr.1 a rfl)
  | error fault => exact raise (hr.2 fault rfl)

/-! ### Arguments -/

lemma bindAll_cons (c : ScopeRef) (p : String) (ps : List String) (args : List Value) :
    (Action.update fun st => bindAll st c (p :: ps) args) = (do
      Action.update fun st => st.define c p (args.headD .nil)
      Action.update fun st => bindAll st c ps args.tail) := rfl

lemma bindAll {c : ScopeRef} (hc : R.Inside w c) (ps : List String) {args : List Value}
    (ha : R.Inside w args) (hnames : ∀ name, B c name) :
    R.Primitive B w (Action.update fun st => Evaluator.bindAll st c ps args) := by
  induction ps generalizing w args with
  | nil => exact Primitive.pure (a := ()) trivial
  | cons p ps ih =>
    rw [bindAll_cons]
    have hv : R.Inside w (args.headD .nil) := by
      cases args with
      | nil => exact inside_of_node?_eq_none rfl
      | cons a as => exact ha a List.mem_cons_self
    exact (define hc p hv (hnames p)).bind fun w' hw _ _ => ih (hc.mono hw) (inside_tail (ha.mono hw))

lemma bindArguments (policy : ArityPolicy) (f : Closure) {c : ScopeRef} (hc : R.Inside w c)
    {args : List Value} (ha : R.Inside w args) (hnames : ∀ name, B c name) :
    R.Primitive B w (Evaluator.bindArguments policy f c args) := by
  unfold Evaluator.bindArguments
  split
  · exact raise trivial
  · exact bindAll hc _ ha hnames

end Primitive

/-! ### Functions -/

namespace Contained

variable {R : Region} {w : Store}

lemma bindArguments (policy : ArityPolicy) (f : Closure) {c : ScopeRef} (hc : R.Inside w c)
    {args : List Value} (ha : R.Inside w args) :
    R.Contained w (Evaluator.bindArguments policy f c args) :=
  (Primitive.bindArguments (B := anyName) policy f hc ha fun _ => trivial).contained

lemma newClosure {f : Closure} (hf : R.Inside w f) :
    R.Contained w (Action.create fun st => st.newClosure f) := by
  refine create (n := .function) (x := fun _ => .function f)
    (fun st => st.makes_newClosure f) (fun st hw _ m hm => ?_) (fun _ _ _ h => h)
    (fun st st' _ _ ha => ⟨congrArg FunctionRef.mk ha.extent.closures, .refl _⟩)
  cases hm with
  | env => exact hf.mono hw

lemma makeFunction {c : ScopeRef} (hc : R.Inside w c) (literal : FunctionLit) :
    R.Contained w (Evaluator.makeFunction c literal) := by
  refine (newClosure (f := ⟨literal, c⟩) hc).bind fun w' hw r hr => ?_
  have hv : R.Inside w' (Value.function r) := inside_of_node? rfl hr
  exact (Primitive.bindName (B := anyName) (hc.mono hw) hv literal.name
    fun _ _ => trivial).contained.bind fun _ hw' _ _ => pure (hv.mono hw')

lemma readClosure {r : FunctionRef} (hr : R.Inside w r) :
    R.Contained w (Action.read fun st => st.closure r) :=
  read (fun _ hw hst => hst.closure (hr.mono hw)) fun _ _ hw _ ha => ha.closure (hr.mono hw)

end Contained

end Region

end TreeWalk
