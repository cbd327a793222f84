/-
# Libraries

A library is a host whose builtins do no more with the store than its interface allows: what they do
is written in terms of the operations on cells and of those of interpreters (`Scripted`).  These may
be interpreters of any settings, with counters of their own, that all work on the one store.  So a
builtin may run a program with another interpreter while the first one waits for it.  The builtins of
the model are those of one library among others (`Library.level_natives`).
-/
import TreeWalk.Proofs.Congruence.Calls
import TreeWalk.Proofs.Hosts

namespace TreeWalk

/-- Do `x` with other counters, and go on with those that there were. -/
def Action.apart {α : Type} (depth steps : Nat) (x : Action α) : Action α := fun s =>
  (x { store := s.store, depth, steps }).withCounters s.depth s.steps

/-- What can be done through the interface of cells and interpreters, with an evaluator for each
setting: elementary actions, the operations of interpreters and the execution of functions in scopes
of one's choice, one after another. -/
inductive Scripted : {α : Type} → ((Setting → Evaluator) → Action α) → Prop
  | elementary {α : Type} {x : Action α} (hx : x.Elementary) : Scripted fun _ => x
  | steps : Scripted fun _ => Action.stepsTaken
  | bind {α β : Type} {x : (Setting → Evaluator) → Action α}
      {f : α → (Setting → Evaluator) → Action β} (hx : Scripted x) (hf : ∀ a, Scripted (f a)) :
      Scripted fun evs => x evs >>= fun a => f a evs
  | attempt {α : Type} {x : (Setting → Evaluator) → Action α} (hx : Scripted x) :
      Scripted fun evs => Action.attempt (x evs)
  /-- Another interpreter has counters of its own. -/
  | apart {α : Type} {x : (Setting → Evaluator) → Action α} (depth steps : Nat)
      (hx : Scripted x) : Scripted fun evs => Action.apart depth steps (x evs)
  | run (σ : Setting) (program : List Stmt) :
      Scripted fun evs => (evs σ).runFrom σ.globals .nil program
  | eval (σ : Setting) (e : Expr) (c : ScopeRef) : Scripted fun evs => (evs σ).expr e c
  | assign (σ : Setting) (target : Expr) (v : Value) (c : ScopeRef) :
      Scripted fun evs => (evs σ).assign target v c
  | exec (σ : Setting) (s : Stmt) (c : ScopeRef) : Scripted fun evs => (evs σ).stmt s c
  | execAll (σ : Setting) (c : ScopeRef) (body : List Stmt) :
      Scripted fun evs => (evs σ).execAll c body
  | execBlock (σ : Setting) (c : ScopeRef) (body : List Stmt) :
      Scripted fun evs => (evs σ).execBlock c body
  | call (σ : Setting) (f : Value) (args : List Value) : Scripted fun evs => (evs σ).call f args
  | runClosure (σ : Setting) (f : Closure) (c : ScopeRef) (args : List Value) :
      Scripted fun evs => (evs σ).runClosure σ.config.arity f c args

/-- What the builtins of a host do, where that is scripted. -/
structure Library where
  /-- What a builtin does with arguments, called from an interpreter with the setting. -/
  act : Setting → BuiltinRef → List Value → (Setting → Evaluator) → Action Value
  scripted : ∀ σ r args, Scripted (act σ r args)

namespace Library

variable (lib : Library)

/-- Execute what can be called with the scope `c` as its own. -/
def execute (σ : Setting) (evs : Setting → Evaluator) (f : Value) (c : ScopeRef)
    (args : List Value) : Action Value :=
  match f with
  | .builtin r => lib.act σ r args evs
  | f => (evs σ).execute σ f c args

/-- Call a value one call deeper, in a fresh scope. -/
def enter (σ : Setting) (evs : Setting → Evaluator) (f : Value) (args : List Value) :
    Action Value :=
  Action.limited σ.config.maxCallDepth do
    let c ← Action.create fun st => st.newScope none
    lib.execute σ evs f c args

/-- The evaluators of level `n` with the builtins of the library, one for each setting. -/
def level : Nat → Setting → Evaluator
  | 0, _ => .stuck
  | n + 1, σ => { (level n σ).above σ with invoke := lib.enter σ (level n) }

lemma rounds_level (n : Nat) (σ : Setting) : (lib.level n σ).rounds = n := by
  induction n with
  | zero => rfl
  | succ n ih => exact congrArg (· + 1) ih

/-- What is no builtin is called in the same way with every library. -/
lemma enter_eq {f : Value} (hf : ∀ r, f ≠ .builtin r) (σ : Setting) (evs : Setting → Evaluator)
    (args : List Value) : lib.enter σ evs f args = (evs σ).enter σ f args := by
  cases f with
  | builtin r => exact absurd rfl (hf r)
  | _ => rfl

/-- The library of the model. -/
def natives : Library where
  act σ r args evs := do
    let b ← Action.read fun st => st.builtin r
    (evs σ).runNative σ.globals b.native args
  scripted σ _ args := .bind (.elementary (.read _)) fun b =>
    Evaluator.runNative_induction (P := Scripted) (fun evs : Setting → Evaluator => evs σ)
      .elementary .steps .bind .attempt (.call σ) _ b.native args

lemma execute_natives (σ : Setting) (evs : Setting → Evaluator) (f : Value) (c : ScopeRef)
    (args : List Value) : natives.execute σ evs f c args = (evs σ).execute σ f c args := by
  cases f <;> rfl

/-- With the library of the model the evaluators are those of the model. -/
theorem level_natives (n : Nat) (σ : Setting) : natives.level n σ = Evaluator.level σ n := by
  induction n with
  | zero => rfl
  | succ n ih =>
    have henter : natives.enter σ (natives.level n) = (Evaluator.level σ n).enter σ := by
      funext f args
      simp only [enter, execute_natives, ih, Evaluator.enter_eq_limited]
    rw [level, ih, henter, Evaluator.level_succ]
    rfl

/-- One thing that a host does with a store and the library, from a state with the counters of any
interpreter.  All that has come to an end is done, whether it failed or not. -/
inductive Step : Store → Store → Prop
  | perform {α : Type} {task : (Setting → Evaluator) → Action α} (htask : Scripted task) {n : Nat}
      {s t : State} (h : (task (lib.level n) s).EndsIn t) : Step s.store t.store

end Library

end TreeWalk
