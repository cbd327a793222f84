/-
# Congruences of evaluation

A congruence is a property of families of actions, one action for each of several settings, that
passes from the parts of an action to the whole and holds of the primitive actions.  The modules
below this one show that what it says of the evaluation of the parts of a tree it says of the
evaluation of the tree, with one lemma for each activity of an evaluator.

The families are what makes a congruence relate several evaluations: two that start from different
stores, one without and one with a step limit, or those of all levels.  The trees that are evaluated
may differ from setting to setting as well.
-/
import TreeWalk.Evaluator.Level
import TreeWalk.Proofs.Natives

namespace TreeWalk

open Region in
/-- A property of families of actions, one for each setting, that passes from the parts of a tree to
the evaluation of the tree, where a call is a part as well. -/
structure TreeCongruence (R : Region) (ι : Type) where
  /-- The property of a family of actions that work with what is inside the region in a store. -/
  Holds : {α : Type} → [Placed α] → Store → (ι → Action α) → Prop
  /-- The names that may be bound in a scope; in a new scope any name may. -/
  MayBind : ScopeRef → String → Prop := anyName
  /-- The places that may be named in errors. -/
  MayBlame : Span → Prop := fun _ => True
  mayBind_new : ∀ {c : ScopeRef} (name : String), R.New c → MayBind c name := by
    exact fun _ _ => trivial
  weaken {α : Type} [Placed α] {w w' : Store} {x : ι → Action α} :
    Holds w x → w ≤ w' → Holds w' x
  leaf {α : Type} [Placed α] {w : Store} {p : Action α} :
    R.Primitive MayBind w p → Holds w fun _ => p
  bind {α β : Type} [Placed α] [Placed β] {w : Store} {x : ι → Action α}
    {f : ι → α → Action β} : Holds w x →
    (∀ w', w ≤ w' → ∀ a, R.Inside w' a → Holds w' fun i => f i a) → Holds w fun i => x i >>= f i
  blame {α : Type} [Placed α] {w : Store} {x : ι → Action α} (span : Span) :
    MayBlame span → Holds w x → Holds w fun i => Action.blame span (x i)

open Region in
/-- A property of families of actions, one for each setting, that evaluation passes on, from the
bodies of functions to calls as well. -/
structure Congruence (R : Region) {ι : Type} (σ : ι → Setting) extends TreeCongruence R ι where
  /-- Only where a builtin may look at the number of steps, something has to be said about it. -/
  stepsTaken {w : Store} : R.allows .steps → Holds w fun _ => Action.stepsTaken
  limited {α : Type} [Placed α] {w : Store} {x : ι → Action α} :
    Holds w x → Holds w fun i => Action.limited (σ i).config.maxCallDepth (x i)
  /-- Only where builtins may catch errors, something has to be said about caught errors. -/
  attempt {α : Type} [Placed α] {w : Store} {x : ι → Action α} :
    R.allows .attempt → Holds w x → Holds w fun i => Action.attempt (x i)
  /-- Where builtins are allowed, the globals they look at are the same, and in the region. -/
  globals {n : Native} : R.allows n → ∃ g : ScopeRef, .scope g ∈ R.start ∧ ∀ i, (σ i).globals = g
  /-- Only where no builtin binds names in the globals, some names may not be bound. -/
  mayBind_of_allows : R.allows .defineGlobal → ∀ c name, MayBind c name := by
    exact fun _ _ _ => trivial
  arguments {w : Store} (f : Closure) {c : ScopeRef} {args : List Value} :
    R.Inside w c → R.New c → R.Inside w args →
    Holds w fun i => Evaluator.bindArguments (σ i).config.arity f c args

namespace Congruence

variable {R : Region}

/-- One setting for all evaluations. -/
lemma same_globals {σ : Setting} {ι : Type} (h : .scope σ.globals ∈ R.start) :
    ∃ g : ScopeRef, .scope g ∈ R.start ∧ ∀ _ : ι, σ.globals = g :=
  ⟨σ.globals, h, fun _ => rfl⟩

lemma same_globals_of_allows {σ : Setting} {ι : Type}
    (h : ∀ {n}, R.allows n → .scope σ.globals ∈ R.start) {n : Native} (hn : R.allows n) :
    ∃ g : ScopeRef, .scope g ∈ R.start ∧ ∀ _ : ι, σ.globals = g :=
  same_globals (h hn)

end Congruence

namespace TreeCongruence

variable {R : Region} {ι : Type} (C : TreeCongruence R ι) (ev : ι → Evaluator)

/-- The property holds of the evaluation of every expression. -/
def Exprs : Prop :=
  ∀ ⦃w : Store⦄ ⦃c : ScopeRef⦄, R.Inside w c → ∀ e, C.Holds w fun i => (ev i).expr e c

/-- The property holds of the writing to every target. -/
def Assigns : Prop :=
  ∀ ⦃w : Store⦄ ⦃c : ScopeRef⦄ ⦃v : Value⦄, R.Inside w c → R.Inside w v →
    ∀ target, C.Holds w fun i => (ev i).assign target v c

/-- The property holds of the execution of every statement. -/
def Stmts : Prop :=
  ∀ ⦃w : Store⦄ ⦃c : ScopeRef⦄, R.Inside w c → ∀ s, C.Holds w fun i => (ev i).stmt s c

/-- The property holds of every call. -/
def Calls : Prop :=
  ∀ ⦃w : Store⦄ ⦃f : Value⦄ ⦃args : List Value⦄, R.Inside w f → R.Inside w args →
    C.Holds w fun i => (ev i).invoke f args

/-- The property holds of the ticks. -/
def Ticks : Prop := ∀ w : Store, C.Holds w fun i => (ev i).tick

/-- The property passes from the rounds of a loop, each of which takes a step, to the loop. -/
def Loops : Prop :=
  ∀ ⦃β : Type⦄ [Placed β] ⦃w : Store⦄ ⦃x : ι → Action (Option β)⦄, C.Holds w x →
    C.Holds w fun i => Action.repeated (do (ev i).tick; x i) (ev i).rounds

variable {w : Store} {α β : Type} [Placed α] [Placed β]

/-- What follows an action need not look at the value of it. -/
lemma seq {x : ι → Action α} {y : ι → Action β} (hx : C.Holds w x)
    (hy : ∀ w', w ≤ w' → C.Holds w' y) : C.Holds w fun i => x i >>= fun _ => y i :=
  C.bind hx fun w' hw _ _ => hy w' hw

/-- The value of an action, worked on without the store. -/
lemma map {x : ι → Action α} {f : α → β} (hx : C.Holds w x)
    (hf : ∀ w', w ≤ w' → ∀ a, R.Inside w' a → R.Inside w' (f a)) :
    C.Holds w fun i => x i >>= fun a => pure (f a) :=
  C.bind hx fun w' hw a ha => C.leaf (.pure (hf w' hw a ha))

/-- A value that is no reference. -/
lemma scalar {v : Value} (hv : v.node? = none) : C.Holds w fun _ => (pure v : Action Value) :=
  C.leaf (.pure (Region.inside_of_node?_eq_none hv))

/-- What is done in a new scope may count on the scope being new. -/
lemma inChild {c : ScopeRef} (hc : R.Inside w c) {x : ι → ScopeRef → Action β}
    (h : ∀ w', w ≤ w' → ∀ d, R.Inside w' d → R.New d → C.Holds w' fun i => x i d) :
    C.Holds w fun i => Evaluator.childScope c >>= x i := by
  have hparent : R.Inside w (some c) := fun d hd => by
    cases hd
    exact hc
  exact C.bind (f := fun i d => x i d.ref) (C.leaf (.freshScope hparent))
    fun w' hw d hd => h w' hw d.ref hd.2 hd.1

/-! ### Loops -/

variable (hstuck : ∀ {α : Type} [Placed α] (w : Store),
  C.Holds w fun _ => (Action.unfinished : Action α))
include hstuck

/-- A congruence passes from an action to its repetition, the same number of times in all
settings. -/
lemma repeated {x : ι → Action (Option β)} (hx : C.Holds w x) (n : Nat) :
    C.Holds w fun i => Action.repeated (x i) n := by
  induction n generalizing w with
  | zero => exact hstuck w
  | succ n ih =>
    refine C.bind hx fun w' hw o ho => ?_
    cases o with
    | some b => exact C.leaf (.pure (ho b rfl))
    | none => exact ih (C.weaken hx hw)

end TreeCongruence

/-- A congruence that holds of what never ends and of the ticks passes from the rounds of a loop to
the loop, if the evaluators of all settings are of one level. -/
lemma Congruence.loops_above {R : Region} {ι : Type} {σ : ι → Setting} (C : Congruence R σ)
    (ev : ι → Evaluator) (hstuck : ∀ {α : Type} [Placed α] (w : Store),
      C.Holds w fun _ => (Action.unfinished : Action α))
    (htick : ∀ w, C.Holds w fun i => Action.tick (σ i).config.stepLimit) {n : Nat}
    (hrounds : ∀ i, (ev i).rounds = n) : C.Loops fun i => (ev i).above (σ i) := by
  intro β _ w x hx
  have hloop := C.repeated hstuck (C.seq (htick w) fun _ hw => C.weaken hx hw) (n + 1)
  simpa only [Evaluator.above, hrounds] using hloop

end TreeWalk
