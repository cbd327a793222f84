/-
# Actions on the store

Most of what evaluations are put together from works on the store alone: it takes no notice of the
counters, which are the depth of calls and the number of steps, and leaves them as they are
(`Action.OnStore`).  Such an action may do anything with the store; those of evaluations look at it,
make cells in it and write to its cells, one after another (`Action.Elementary`).  Evaluators go
beyond elementary actions in three ways only: they take steps, they look at the depth of calls, and
they go deeper.
-/
import Mathlib.Tactic.Lemma
import TreeWalk.Evaluator.Level

namespace TreeWalk

/-- What is answered to a search that has an end. -/
def Search.answer {α β : Type} (found : α → Except EvalError β) (unbound : Except EvalError β) :
    Search α → Option (Except EvalError β)
  | .found a => some (found a)
  | .unbound => some unbound
  | .endless => none

/-- The outcome with other counters. -/
def Outcome.withCounters {α : Type} (depth steps : Nat) : Outcome α → Outcome α
  | .value a s => .value a { s with depth, steps }
  | .error e s => .error e { s with depth, steps }
  | .unfinished => .unfinished

namespace Action

variable {α β : Type}

/-- Look at the store, and answer or fail or never end. -/
def inspect (f : Store → Option (Except EvalError α)) : Action α := fun s =>
  match f s.store with
  | some (.ok a) => .value a s
  | some (.error e) => .error e s
  | none => .unfinished

/-- The action takes no notice of the counters and leaves them as they are. -/
def OnStore (x : Action α) : Prop :=
  ∀ s, x s = (x { store := s.store }).withCounters s.depth s.steps

namespace OnStore

lemma pure (a : α) : OnStore (Pure.pure a : Action α) := fun _ => rfl

lemma unfinished : OnStore (Action.unfinished : Action α) := fun _ => rfl

lemma raise (fault : Fault) : OnStore (Action.raise fault : Action α) := fun _ => rfl

lemma read (f : Store → α) : OnStore (Action.read f) := fun _ => rfl

lemma inspect (f : Store → Option (Except EvalError α)) : OnStore (Action.inspect f) := by
  intro s
  unfold Action.inspect
  rcases f s.store with _ | _ | _ <;> rfl

lemma update (f : Store → Store) : OnStore (Action.update f) := fun _ => rfl

lemma create (f : Store → α × Store) : OnStore (Action.create f) := fun _ => rfl

lemma assign (c : ScopeRef) (name : String) (v : Value) : OnStore (Action.assign c name v) := by
  intro s
  unfold Action.assign
  cases s.store.search c name <;> rfl

lemma bind {x : Action α} {f : α → Action β} (hx : x.OnStore) (hf : ∀ a, (f a).OnStore) :
    (x >>= f).OnStore := by
  intro s
  rw [bind_apply, bind_apply, hx s]
  cases x { store := s.store } with
  | value a t =>
    -- the rest starts from other counters on the two sides, and sees neither
    show f a { t with depth := s.depth, steps := s.steps } =
      (f a t).withCounters s.depth s.steps
    rw [hf a, hf a t]
    cases f a { store := t.store } <;> rfl
  | error e t => rfl
  | unfinished => rfl

lemma blame {x : Action α} (hx : x.OnStore) (span : Span) : (Action.blame span x).OnStore := by
  intro s
  unfold Action.blame
  rw [hx s]
  cases x { store := s.store } <;> rfl

end OnStore

/-- The actions that look at the store, make a cell, bind a name, put a scope inside another one or
write to an object or an array, one after another. -/
inductive Elementary : {α : Type} → Action α → Prop
  | inspect {α : Type} (f : Store → Option (Except EvalError α)) : Elementary (Action.inspect f)
  | newScope (parent : Option ScopeRef) :
      Elementary (Action.create fun st => st.newScope parent)
  | newObject (t : Table) : Elementary (Action.create fun st => st.newObject t)
  | newArray (items : Array Value) : Elementary (Action.create fun st => st.newArray items)
  | newClosure (f : Closure) : Elementary (Action.create fun st => st.newClosure f)
  | newBuiltin (b : Builtin) : Elementary (Action.create fun st => st.newBuiltin b)
  | define (c : ScopeRef) (name : String) (v : Value) :
      Elementary (Action.update fun st => st.define c name v)
  | setParent (c parent : ScopeRef) : Elementary (Action.update fun st => st.setParent c parent)
  | setEntry (r : ObjectRef) (key : String) (v : Value) :
      Elementary (Action.update fun st => st.setEntry r key v)
  | pushElement (r : ArrayRef) (v : Value) :
      Elementary (Action.update fun st => st.pushElement r v)
  | setElement (r : ArrayRef) (index : Int64) (v : Value) :
      Elementary (Action.update fun st => st.setElement r index v)
  | bind {α β : Type} {x : Action α} {f : α → Action β} (hx : Elementary x)
      (hf : ∀ a, Elementary (f a)) : Elementary (x >>= f)
  | blame {α : Type} {x : Action α} (hx : Elementary x) (span : Span) :
      Elementary (Action.blame span x)

namespace Elementary

/-- No elementary action takes notice of the counters. -/
theorem onStore {x : Action α} (h : x.Elementary) : x.OnStore := by
  induction h with
  | inspect f => exact .inspect f
  | newScope _ | newObject _ | newArray _ | newClosure _ | newBuiltin _ => exact .create _
  | define _ _ _ | setParent _ _ | setEntry _ _ _ | pushElement _ _ | setElement _ _ _ =>
    exact .update _
  | bind _ _ ihx ihf => exact ihx.bind ihf
  | blame _ span ih => exact ih.blame span

lemma pure (a : α) : Elementary (Pure.pure a : Action α) := inspect fun _ => some (.ok a)

lemma raise (fault : Fault) : Elementary (Action.raise fault : Action α) :=
  inspect fun _ => some (.error (.ofFault fault))

lemma read (f : Store → α) : Elementary (Action.read f) := inspect fun st => some (.ok (f st))

lemma ofExcept (r : Except Fault α) : Elementary (Action.ofExcept r) := by
  cases r with
  | ok a => exact pure a
  | error fault => exact raise fault

/-! ### Names -/

lemma lookup (c : ScopeRef) (name : String) : Elementary (Action.lookup c name) := by
  have heq : Action.lookup c name = Action.inspect fun st =>
      (st.lookup c name).answer .ok (.error (.ofFault (.unbound name))) := by
    funext s
    unfold Action.lookup Action.inspect
    dsimp only
    cases s.store.lookup c name <;> rfl
  exact heq ▸ inspect _

lemma globalOf (globals : ScopeRef) (name : String) :
    (Evaluator.globalOf globals name).Elementary := by
  have heq : Evaluator.globalOf globals name = Action.inspect fun st =>
      (st.lookup globals name).answer .ok (.ok .nil) := by
    funext s
    unfold Evaluator.globalOf Action.inspect
    dsimp only
    cases s.store.lookup globals name <;> rfl
  exact heq ▸ inspect _

/-- The nearest binding is looked for first, and then changed. -/
lemma assign (c : ScopeRef) (name : String) (v : Value) :
    Elementary (Action.assign c name v) := by
  have heq : Action.assign c name v =
      (Action.inspect fun st => (st.search c name).answer (fun r => .ok (some r.1)) (.ok none)) >>=
        fun found => found.elim (Pure.pure false) fun d => do
          Action.update fun st => st.define d name v
          return true := by
    funext s
    rw [bind_apply]
    unfold Action.assign Action.inspect
    dsimp only
    cases s.store.search c name <;> rfl
  rw [heq]
  refine (inspect _).bind fun found => ?_
  cases found with
  | some d => exact (define d name v).bind fun _ => pure true
  | none => exact pure false

/-- Parameters are bound one after another. -/
lemma bindAll (c : ScopeRef) (params : List String) (args : List Value) :
    Elementary (Action.update fun st => Evaluator.bindAll st c params args) := by
  induction params generalizing args with
  | nil => exact pure ()
  | cons p ps ih => exact (define c p (args.headD .nil)).bind fun _ => ih args.tail

/-! ### Expressions -/

lemma refuse (fault : String → Fault) (v : Value) :
    Elementary (Evaluator.refuse fault v : Action α) :=
  (read _).bind fun _ => raise _

lemma resolve (c : ScopeRef) (v : Value) : (Evaluator.resolve c v).Elementary := by
  unfold Evaluator.resolve
  split
  · exact lookup c _
  · exact pure _

lemma readKey (container key : Value) : (Evaluator.readKey container key).Elementary := by
  unfold Evaluator.readKey
  split
  · exact read _
  · refine (read _).bind fun o => ?_
    cases o with
    | some v => exact pure v
    | none => exact (read _).bind fun _ => raise _
  · exact refuse _ _

/-- Whether an array has the element is looked up first, and then it is replaced. -/
lemma writeKey (container key v : Value) : (Evaluator.writeKey container key v).Elementary := by
  unfold Evaluator.writeKey
  split
  · exact setEntry _ _ v
  · next r i =>
    have heq : (fun s : State =>
        if s.store.hasElement r i then
          Outcome.value () { s with store := s.store.setElement r i v }
        else .error (.ofFault (.outOfRange i (s.store.array r).size)) s) =
        (Action.inspect fun st =>
          if st.hasElement r i then some (.ok ())
          else some (.error (.ofFault (.outOfRange i (st.array r).size)))) >>= fun _ =>
        Action.update fun st => st.setElement r i v := by
      funext s
      rw [bind_apply]
      unfold Action.inspect
      dsimp only
      split <;> rfl
    rw [heq]
    exact (inspect _).bind fun _ => setElement r i v
  · exact refuse _ _

lemma bindName (c : ScopeRef) (v : Value) (name : Option String) :
    (Evaluator.bindName c v name).Elementary := by
  cases name with
  | some name => exact define c name v
  | none => exact pure ()

lemma makeFunction (c : ScopeRef) (literal : FunctionLit) :
    (Evaluator.makeFunction c literal).Elementary :=
  (newClosure _).bind fun _ => (bindName c _ _).bind fun _ => pure _

lemma assignName (c : ScopeRef) (name : String) (v : Value) :
    (Evaluator.assignName c name v).Elementary := by
  refine (assign c name v).bind fun found => ?_
  cases found with
  | true => exact pure ()
  | false => exact raise _

/-! ### Calls -/

lemma bindArguments (policy : ArityPolicy) (f : Closure) (c : ScopeRef) (args : List Value) :
    (Evaluator.bindArguments policy f c args).Elementary := by
  unfold Evaluator.bindArguments
  split
  · exact raise _
  · exact bindAll c _ args

/-! ### Builtins -/

lemma stringArgument (v : Value) : (Evaluator.stringArgument v).Elementary := by
  cases v with
  | string s => exact pure s
  | _ => exact raise _

lemma arrayOf (items : Array Value) : (Evaluator.arrayOf items).Elementary :=
  (newArray items).bind fun _ => pure _

lemma copyOf (v : Value) : (Evaluator.copyOf v).Elementary := by
  cases v with
  | object r => exact (read _).bind fun t => (newObject t).bind fun _ => pure _
  | array r => exact (read _).bind fun items => (newArray items).bind fun _ => pure _
  | _ => exact pure _

lemma keysOf (v : Value) : (Evaluator.keysOf v).Elementary := by
  cases v with
  | object r => exact (read _).bind fun _ => arrayOf _
  | _ => exact pure _

lemma hasKey (v key : Value) : (Evaluator.hasKey v key).Elementary := by
  cases v with
  | object r => exact (stringArgument key).bind fun _ => (read _).bind fun _ => pure _
  | _ => exact pure _

lemma pushTo (v item : Value) : (Evaluator.pushTo v item).Elementary := by
  cases v with
  | array r => exact (pushElement r item).bind fun _ => pure _
  | _ => exact raise _

lemma faultOf (kind message : Value) : (Evaluator.faultOf kind message).Elementary := by
  refine (stringArgument kind).bind fun title => ?_
  split
  · exact (stringArgument message).bind fun _ => pure _
  · exact raise _

end Elementary

end Action

end TreeWalk
