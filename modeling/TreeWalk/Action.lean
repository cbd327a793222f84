/-
# Actions

An action is a step of an evaluation: it starts from a state and ends with a value and a state, or
with an error and a state, or it does not end within the depth of recursion that it was given.
What was written before an error stays written.
-/
import TreeWalk.Config
import TreeWalk.Fault
import TreeWalk.Store.Lookup

namespace TreeWalk

/-- What an evaluation changes. -/
structure State where
  /-- The cells. -/
  store : Store := {}
  /-- The number of calls that are being made. -/
  depth : Nat := 0
  /-- The number of steps taken so far.  Evaluations and hosts see no more of it than the counter. -/
  steps : Nat := 0

namespace State

instance : Inhabited State := ⟨{}⟩

/-- The counter of the steps, which has 64 bits and goes on with zero after the largest number. -/
def counter (s : State) : UInt64 := .ofNat s.steps

/-- The state after one more step. -/
def ticked (s : State) : State := { s with steps := s.steps + 1 }

/-- A step adds one to the counter, with wrap-around. -/
theorem counter_ticked (s : State) : s.ticked.counter = s.counter + 1 := UInt64.ofNat_add ..

end State

/-- The end of an action. -/
inductive Outcome (α : Type) where
  /-- The action ended with a value. -/
  | value (a : α) (s : State)
  /-- The action failed. -/
  | error (e : EvalError) (s : State)
  /-- The action needs a deeper recursion. -/
  | unfinished

instance {α : Type} : Inhabited (Outcome α) := ⟨.unfinished⟩

/-- A step of an evaluation. -/
def Action (α : Type) : Type := State → Outcome α

namespace Action

variable {α β : Type}

/-- Answer `a` and change nothing. -/
@[always_inline, inline] protected def pure (a : α) : Action α := fun s => .value a s

/-- Go on with the value of `x`. -/
@[always_inline, inline] protected def bind (x : Action α) (f : α → Action β) : Action β := fun s =>
  match x s with
  | .value a s' => f a s'
  | .error e s' => .error e s'
  | .unfinished => .unfinished

@[always_inline] instance : Monad Action where
  pure := Action.pure
  bind := Action.bind

@[simp] theorem pure_apply (a : α) (s : State) : (pure a : Action α) s = .value a s := rfl

theorem bind_apply (x : Action α) (f : α → Action β) (s : State) :
    (x >>= f) s =
      match x s with
      | .value a s' => f a s'
      | .error e s' => .error e s'
      | .unfinished => .unfinished := rfl

instance : LawfulMonad Action :=
  LawfulMonad.mk' Action
    (fun x => by
      funext s
      show (x >>= fun a => pure (id a)) s = x s
      rw [bind_apply]
      cases x s <;> rfl)
    (fun _ _ => rfl)
    (fun x f g => by
      funext s
      rw [bind_apply, bind_apply, bind_apply]
      cases x s <;> rfl)

/-- Never end. -/
def unfinished : Action α := fun _ => .unfinished

/-- Fail. -/
def raise (fault : Fault) : Action α := fun s => .error (.ofFault fault) s

/-- Fail with a fault or answer a value. -/
def ofExcept (r : Except Fault α) : Action α := fun s =>
  match r with
  | .ok a => .value a s
  | .error fault => .error (.ofFault fault) s

/-- Read the store. -/
@[inline] def read (f : Store → α) : Action α := fun s => .value (f s.store) s

/-- Change the store. -/
@[inline] def update (f : Store → Store) : Action Unit := fun s =>
  .value () { s with store := f s.store }

/-- Make a cell. -/
@[inline] def create (f : Store → α × Store) : Action α := fun s =>
  let r := f s.store
  .value r.1 { s with store := r.2 }

/-- The value of a name. -/
def lookup (c : ScopeRef) (name : String) : Action Value := fun s =>
  match s.store.lookup c name with
  | .found v => .value v s
  | .unbound => .error (.ofFault (.unbound name)) s
  | .endless => .unfinished

/-- Change the nearest binding of a name; whether there is one. -/
def assign (c : ScopeRef) (name : String) (v : Value) : Action Bool := fun s =>
  match s.store.search c name with
  | .found (d, _) => .value true { s with store := s.store.define d name v }
  | .unbound => .value false s
  | .endless => .unfinished

/-- Blame the node at `span` for a failure of `x` that no inner node is blamed for. -/
@[inline] def blame (span : Span) (x : Action α) : Action α := fun s =>
  match x s with
  | .value a s' => .value a s'
  | .error e s' => .error (e.blame span) s'
  | .unfinished => .unfinished

/-- Do `x` one call deeper. -/
@[inline] def nested (x : Action α) : Action α := fun s =>
  match x { s with depth := s.depth + 1 } with
  | .value a s' => .value a { s' with depth := s'.depth - 1 }
  | .error e s' => .error e { s' with depth := s'.depth - 1 }
  | .unfinished => .unfinished

/-- Do `x` and answer its failure as a value. -/
@[inline] def attempt (x : Action α) : Action (Except EvalError α) := fun s =>
  match x s with
  | .value a s' => .value (.ok a) s'
  | .error e s' => .value (.error e) s'
  | .unfinished => .unfinished

/-- Take one step, which fails when the counter is above the budget. -/
def tick (limit : Option UInt64) : Action Unit := fun s =>
  match limit with
  | none => .value () s.ticked
  | some l =>
    if l < s.ticked.counter then .error (.ofFault (.stepLimit l)) s.ticked
    else .value () s.ticked

/-- The counter of the steps. -/
def stepsTaken : Action UInt64 := fun s => .value s.counter s

/-- The number of calls that are being made. -/
def callDepth : Action Nat := fun s => .value s.depth s

end Action

end TreeWalk
