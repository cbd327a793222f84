/-
# Congruences and calls

A congruence passes from the body of a function to the call of it, and from calls with one argument
less to the builtins that call back (`Congruence.enter`).
-/
import TreeWalk.Proofs.Congruence.Statements

namespace TreeWalk

namespace Evaluator

variable (ev : Evaluator)

/-- A call is limited in its depth. -/
lemma enter_eq_limited (σ : Setting) (f : Value) (args : List Value) :
    ev.enter σ f args = Action.limited σ.config.maxCallDepth (do
      let c ← Action.create fun st => st.newScope none
      ev.execute σ f c args) := rfl

/-- Execute the body of a function in the scope `c`, for the value of the call. -/
def answer (c : ScopeRef) (body : List Stmt) : Action Value := do
  match ← ev.execAll c body with
  | .next => return .nil
  | .leave => Action.raise .strayBreak
  | .ret v => return v

/-- The call of a function, whose own scope is made inside the one that the function was made
in. -/
def callClosure (policy : ArityPolicy) (f : Closure) (args : List Value) : Action Value := do
  let c ← childScope f.env
  bindArguments policy f c args
  ev.answer c f.literal.body

/-- A fresh scope that a function is executed in is put inside the scope of the function before
anything else is done with it. -/
lemma execute_function_eq (σ : Setting) (r : FunctionRef) (args : List Value) :
    (do
      let c ← Action.create fun st => st.newScope none
      ev.execute σ (.function r) c args) = (do
        let f ← Action.read fun st => st.closure r
        ev.callClosure σ.config.arity f args) := by
  funext s
  have h := s.store.setParent_newScope (s.store.closure r).env
  simp only [execute, runClosure, callClosure, childScope, Action.bind_apply, Action.create,
    Action.read, Action.update]
  -- the function is read after the scope has been made, which leaves all functions alone
  have hr : (s.store.newScope none).2.closure r = s.store.closure r := rfl
  rw [hr, h]
  rfl

end Evaluator

open Region Evaluator

/-! ### Functions -/

namespace TreeCongruence

variable {R : Region} {ι : Type} (C : TreeCongruence R ι) {ev : ι → Evaluator} {w : Store}

lemma answer {c : ScopeRef} {body : ι → List Stmt}
    (h : C.Holds w fun i => (ev i).execAll c (body i))
    (hstray : ∀ w', w ≤ w' → C.Holds w' fun _ => (Action.raise .strayBreak : Action Value)) :
    C.Holds w fun i => (ev i).answer c (body i) := by
  refine C.bind h fun w' hw flow hflow => ?_
  cases flow with
  | next => exact C.scalar rfl
  | leave => exact hstray w' hw
  | ret v => exact C.leaf (.pure (hflow v rfl))

/-- The functions of the settings may differ in what they do with their arguments in a scope of
their own. -/
lemma callClosure {policy : ι → ArityPolicy} {f : Closure} (hf : R.Inside w f) {args : List Value}
    {body : ι → List Stmt}
    (harguments : ∀ w', w ≤ w' → ∀ c, R.Inside w' c → R.New c →
      C.Holds w' fun i => bindArguments (policy i) f c args)
    (h : ∀ w', w ≤ w' → ∀ d, R.Inside w' d → R.New d →
      C.Holds w' fun i => (ev i).answer d (body i)) :
    C.Holds w fun i =>
      (ev i).callClosure (policy i) ⟨{ f.literal with body := body i }, f.env⟩ args := by
  refine C.inChild hf fun w₁ hw₁ c hc hnew => ?_
  refine C.seq (harguments w₁ hw₁ c hc hnew) fun w₂ hw₂ => ?_
  exact h w₂ (hw₁.trans hw₂) c (hc.mono hw₂) hnew

end TreeCongruence

namespace Congruence

variable {R : Region} {ι : Type} {σ : ι → Setting} (C : Congruence R σ) {ev : ι → Evaluator}
variable {w : Store}

lemma callClosure {f : Closure} (hf : R.Inside w f) {args : List Value} (ha : R.Inside w args)
    {body : ι → List Stmt} (h : ∀ w', w ≤ w' → ∀ d, R.Inside w' d → R.New d →
      C.Holds w' fun i => (ev i).answer d (body i)) :
    C.Holds w fun i =>
      (ev i).callClosure (σ i).config.arity ⟨{ f.literal with body := body i }, f.env⟩ args :=
  C.toTreeCongruence.callClosure hf
    (fun _ hw _ hc hnew => C.arguments f hc hnew (ha.mono hw)) h

/-! ### Builtins -/

/-- A congruence passes from the calls of the first argument with the other ones to the
builtins. -/
lemma runNative {n : Native} (hn : R.allows n) {args : List Value} (ha : R.Inside w args)
    (hcall : C.Holds w fun i => (ev i).call (args.getD 0 .nil) args.tail) :
    C.Holds w fun i => (ev i).runNative (σ i).globals n args := by
  obtain ⟨g, hg, hσ⟩ := C.globals hn
  have hbind : n = .defineGlobal → ∀ name, C.MayBind g name := by
    rintro rfl name
    exact C.mayBind_of_allows hn g name
  simp only [hσ]
  have hleaf : ¬ n.CallsBack → n ≠ .steps → C.Holds w fun i => (ev i).runNative g n args := by
    intro hback hsteps
    simp only [runNative_eq_stuck hback]
    exact C.leaf (.runNative hback hsteps hn (.inl hg) hbind ha stuck)
  cases n with
  | apply => exact hcall
  | attempt => exact C.bind (C.attempt hn hcall) fun _ _ _ hr => C.leaf (.reported hr)
  | steps => exact C.map (C.stepsTaken hn) fun _ _ _ _ => inside_of_node?_eq_none rfl
  | _ => exact hleaf (by decide) (by decide)

/-! ### Calls -/

section

variable {f : Value} (hf : R.Inside w f) {args : List Value} (ha : R.Inside w args)
  (hfunction : ∀ r, f = .function r → C.Holds w fun i => (do
    let f ← Action.read fun st => st.closure r
    (ev i).callClosure (σ i).config.arity f args : Action Value))
  (hcall : ∀ w', w ≤ w' → C.Holds w' fun i => (ev i).call (args.getD 0 .nil) args.tail)
include hf ha hfunction hcall

/-- A congruence passes to the execution of a value in a fresh scope from the call of the function,
if the value is one, and from the call that a builtin makes with one argument less. -/
theorem execute : C.Holds w fun i => (do
    let c ← Action.create fun st => st.newScope none
    (ev i).execute (σ i) f c args : Action Value) := by
  have hscope : ∀ w', C.Holds w' fun _ => Action.create fun st => st.newScope none :=
    fun w' => C.leaf (.newScope inside_none)
  cases f with
  | function r =>
    simp only [execute_function_eq]
    exact hfunction r rfl
  | builtin r =>
    have hr : R.Has w (.builtin r) := hf.has rfl
    refine C.bind (hscope w) fun w₁ hw₁ c _ => ?_
    refine C.bind (C.leaf (.readBuiltin (hr.mono hw₁))) fun w₂ hw₂ b hb => ?_
    exact C.runNative hb (ha.mono (hw₁.trans hw₂)) (hcall w₂ (hw₁.trans hw₂))
  | _ => exact C.seq (hscope w) fun w' hw => C.leaf (.refuse _ (hf.mono hw))

/-- The same for a call, which is limited in its depth. -/
theorem enter : C.Holds w fun i => (ev i).enter (σ i) f args := by
  simp only [enter_eq_limited]
  exact C.limited (C.execute hf ha hfunction hcall)

end

end Congruence

end TreeWalk
