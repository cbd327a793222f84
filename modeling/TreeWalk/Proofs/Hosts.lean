/-
# Hosts

The builtins of an interpreter are functions of its host.  Such a function may do whatever it likes
with the store, may keep what it remembers there, and may use the interpreter: it may run programs,
evaluate, assign, execute and call, one after another, and catch the failures of all this
(`Hosted`).  It does not reach the depth of calls.  A host says what each of its builtins does
(`Host`); the evaluators with these builtins are made like those of the model, whose builtins are
those of one host among others (`Host.level_natives`).
-/
import TreeWalk.Interpreter
import TreeWalk.Proofs.OnStore

namespace TreeWalk

/-- What a host may do with an evaluator for the setting `σ`, which is the interpreter to it: work
of its own on the store, the operations of the interpreter, and the execution of functions in scopes
of its choice, one after another. -/
inductive Hosted (σ : Setting) : {α : Type} → (Evaluator → Action α) → Prop
  | onStore {α : Type} {x : Action α} (hx : x.OnStore) : Hosted σ fun _ => x
  | steps : Hosted σ fun _ => Action.stepsTaken
  | bind {α β : Type} {x : Evaluator → Action α} {f : α → Evaluator → Action β}
      (hx : Hosted σ x) (hf : ∀ a, Hosted σ (f a)) : Hosted σ fun ev => x ev >>= fun a => f a ev
  | attempt {α : Type} {x : Evaluator → Action α} (hx : Hosted σ x) :
      Hosted σ fun ev => Action.attempt (x ev)
  | run (program : List Stmt) : Hosted σ fun ev => ev.runFrom σ.globals .nil program
  | eval (e : Expr) (c : ScopeRef) : Hosted σ fun ev => ev.expr e c
  | assign (target : Expr) (v : Value) (c : ScopeRef) :
      Hosted σ fun ev => ev.assign target v c
  | exec (s : Stmt) (c : ScopeRef) : Hosted σ fun ev => ev.stmt s c
  | execAll (c : ScopeRef) (body : List Stmt) : Hosted σ fun ev => ev.execAll c body
  | execBlock (c : ScopeRef) (body : List Stmt) : Hosted σ fun ev => ev.execBlock c body
  | call (f : Value) (args : List Value) : Hosted σ fun ev => ev.call f args
  | runClosure (f : Closure) (c : ScopeRef) (args : List Value) :
      Hosted σ fun ev => ev.runClosure σ.config.arity f c args

/-- What builtins do is elementary, looks at the number of steps or calls back; and it is that one
after another, where failures of calls may be caught.  The evaluator may be one among others. -/
lemma Evaluator.runNative_induction {E : Type} (ev : E → Evaluator)
    {P : {α : Type} → (E → Action α) → Prop}
    (elementary : ∀ {α : Type} {x : Action α}, x.Elementary → P fun _ => x)
    (steps : P fun _ => Action.stepsTaken)
    (bind : ∀ {α β : Type} {x : E → Action α} {f : α → E → Action β}, P x → (∀ a, P (f a)) →
      P fun e => x e >>= fun a => f a e)
    (attempt : ∀ {α : Type} {x : E → Action α}, P x → P fun e => Action.attempt (x e))
    (call : ∀ f args, P fun e => (ev e).call f args) (globals : ScopeRef) (n : Native)
    (args : List Value) : P fun e => (ev e).runNative globals n args := by
  let a₀ := args.getD 0 .nil
  cases n with
  | apply => exact call _ _
  | attempt =>
    refine bind (attempt (call _ _)) fun r => elementary ?_
    cases r <;> exact .arrayOf _
  | steps => exact bind steps fun n => elementary (.pure (Value.number n.toInt64))
  | collect => exact elementary (.arrayOf _)
  | resolve => exact elementary (.resolve _ _)
  | text => exact elementary (.bind (.read fun st => st.text a₀) fun t => .pure (Value.string t))
  | debug =>
    exact elementary (.bind (.read fun st => st.debugText a₀) fun t => .pure (Value.string t))
  | length => exact elementary (.read fun st => lengthOf st a₀)
  | push => exact elementary (.pushTo _ _)
  | keys => exact elementary (.keysOf _)
  | has => exact elementary (.hasKey _ _)
  | copy => exact elementary (.copyOf _)
  | arity => exact elementary (.read fun st => arityOf st a₀)
  | name => exact elementary (.read fun st => nameOf st a₀)
  | getGlobal => exact elementary (.bind (.stringArgument _) fun _ => .globalOf _ _)
  | defineGlobal =>
    exact elementary (.bind (.stringArgument _) fun _ => .bind (.define _ _ _) fun _ => .pure _)
  | setGlobal =>
    exact elementary (.bind (.stringArgument _) fun _ => .bind (.assign _ _ _) fun _ => .pure _)
  | fail => exact elementary (.bind (.faultOf _ _) fun _ => .raise _)
  | failAt => exact elementary (.bind (.faultOf _ _) fun _ => .blame (.raise _) _)
  | _ => exact elementary (.pure _)

/-- What the builtins of the model do is what hosts may do. -/
lemma Hosted.runNative (σ : Setting) (n : Native) (args : List Value) :
    Hosted σ fun ev => ev.runNative σ.globals n args :=
  Evaluator.runNative_induction id (fun hx => .onStore hx.onStore) .steps .bind .attempt .call _ n
    args

/-- A host, with what its builtins do. -/
structure Host where
  /-- What a builtin does with arguments and an evaluator for the setting. -/
  act : Setting → BuiltinRef → List Value → Evaluator → Action Value
  hosted : ∀ σ r args, Hosted σ (act σ r args)

namespace Host

variable (host : Host)

/-- Execute what can be called with the scope `c` as its own. -/
def execute (σ : Setting) (ev : Evaluator) (f : Value) (c : ScopeRef) (args : List Value) :
    Action Value :=
  match f with
  | .builtin r => host.act σ r args ev
  | f => ev.execute σ f c args

/-- Call a value one call deeper, in a fresh scope.  The execution of what is called goes through
the gate. -/
def enter (gate : Action Value → Action Value) (σ : Setting) (ev : Evaluator) (f : Value)
    (args : List Value) : Action Value := do
  if σ.config.maxCallDepth.toNat ≤ (← Action.callDepth) then
    Action.raise (.callDepth σ.config.maxCallDepth)
  else
    Action.nested do
      let c ← Action.create fun st => st.newScope none
      gate (host.execute σ ev f c args)

/-- The evaluator of level `n` with the builtins of the host and a gate to what is called. -/
def level (gate : Action Value → Action Value) (σ : Setting) : Nat → Evaluator
  | 0 => .stuck
  | n + 1 => { (level gate σ n).above σ with invoke := host.enter gate σ (level gate σ n) }

/-- The host of the model. -/
def natives : Host where
  act σ r args ev := do
    let b ← Action.read fun st => st.builtin r
    ev.runNative σ.globals b.native args
  hosted σ _ args := .bind (.onStore (.read _)) fun b => .runNative σ b.native args

lemma execute_natives (σ : Setting) (ev : Evaluator) (f : Value) (c : ScopeRef)
    (args : List Value) : natives.execute σ ev f c args = ev.execute σ f c args := by
  cases f <;> rfl

/-- With the host of the model and an open gate the evaluators are those of the model. -/
theorem level_natives (σ : Setting) (n : Nat) : natives.level id σ n = Evaluator.level σ n := by
  induction n with
  | zero => rfl
  | succ n ih =>
    have henter : natives.enter id σ (Evaluator.level σ n) = (Evaluator.level σ n).enter σ := by
      funext f args
      simp only [enter, id_eq, execute_natives, Evaluator.enter]
    rw [level, ih, henter, Evaluator.level_succ]
    rfl

end Host

end TreeWalk
