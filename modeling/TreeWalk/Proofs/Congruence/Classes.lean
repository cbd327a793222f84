/-
# Congruences and classes of code

A congruence may hold of some code only.  If it holds of all code that a property holds everywhere
in, as far as some evaluators are concerned, and of the making and calling of functions with such
code, then it does for the evaluators one level above (`Congruence.Obeys.above`).
-/
import TreeWalk.Proofs.Congruence.Calls

namespace TreeWalk.Congruence

open Region

variable {R : Region} {ι : Type} {σ : ι → Setting}

/-- All names may be bound in the scope that the tree declares there. -/
def Admits (C : Congruence R σ) (c : ScopeRef) (t : Tree) : Prop :=
  ∀ name, t.Declares name → C.MayBind c name

/-- The congruence holds of all that evaluators do with code that has the property `P`, in scopes
where the names that the code declares may be bound. -/
structure Obeys (C : Congruence R σ) (P : Tree → Prop) (ev : ι → Evaluator) : Prop where
  tick : C.Ticks ev
  loops : C.Loops ev
  expr : ∀ ⦃w : Store⦄ ⦃c : ScopeRef⦄, R.Inside w c → ∀ ⦃e⦄, C.Admits c (.expr e) →
    (Tree.expr e).Everywhere P → C.Holds w fun i => (ev i).expr e c
  assign : ∀ ⦃w : Store⦄ ⦃c : ScopeRef⦄ ⦃v : Value⦄, R.Inside w c → R.Inside w v →
    ∀ ⦃target⦄, C.Admits c (.expr target) → (Tree.expr target).Everywhere P →
    C.Holds w fun i => (ev i).assign target v c
  stmt : ∀ ⦃w : Store⦄ ⦃c : ScopeRef⦄, R.Inside w c → ∀ ⦃s⦄, C.Admits c (.stmt s) →
    (Tree.stmt s).Everywhere P → C.Holds w fun i => (ev i).stmt s c
  invoke : C.Calls ev

namespace Admits

variable {C : Congruence R σ} {c : ScopeRef} {t : Tree}

lemma of_new (h : R.New c) : C.Admits c t := fun name _ => C.mayBind_new name h

lemma part (h : C.Admits c t) {u : Tree} (hu : u ∈ t.ownParts) : C.Admits c u :=
  fun name hname => h name (.part hu hname)

lemma expr_part {e e' : Expr} (h : C.Admits c (.expr e)) (he : e' ∈ e.kind.parts) :
    C.Admits c (.expr e') :=
  h.part (List.mem_map_of_mem he)

/-- The scopes in which a part of a statement is evaluated are new, or admit it as a part. -/
lemma of_open {d : ScopeRef} {u : Tree} {own : Prop} (h : C.Admits c t)
    (hu : own → u ∈ t.ownParts) (hd : R.Open c own d) : C.Admits d u := by
  rcases hd with hnew | ⟨hown, rfl⟩
  · exact .of_new hnew
  · exact h.part (hu hown)

end Admits

namespace Obeys

variable {C : Congruence R σ} {P : Tree → Prop} {ev : ι → Evaluator} {w : Store} {c : ScopeRef}

/-- A congruence that holds of what never ends holds of the evaluators of level zero. -/
lemma stuck (hstuck : ∀ {α : Type} [Placed α] (w : Store),
    C.Holds w fun _ => (Action.unfinished : Action α)) : C.Obeys P fun _ => Evaluator.stuck where
  tick w := hstuck w
  loops _ _ w _ _ := hstuck w
  expr w _ _ _ _ _ := hstuck w
  assign w _ _ _ _ _ _ _ := hstuck w
  stmt w _ _ _ _ _ := hstuck w
  invoke w _ _ _ _ := hstuck w

variable (h : C.Obeys P ev)
include h

/-- The body of a function is executed in a new scope. -/
lemma execAll (hc : R.Inside w c) (hnew : R.New c) {body : List Stmt}
    (hbody : ∀ s ∈ body, (Tree.stmt s).Everywhere P) :
    C.Holds w fun i => (ev i).execAll c body :=
  C.execAll body fun s hs => h.stmt hc (.of_new hnew) (hbody s hs)

variable
  (hfunction : ∀ ⦃w : Store⦄ ⦃c : ScopeRef⦄, R.Inside w c → ∀ ⦃l⦄,
    (∀ name, l.name = some name → C.MayBind c name) → (Tree.literal l).Everywhere P →
    C.Holds w fun _ => Evaluator.makeFunction c l)
include hfunction

lemma evalKind (hc : R.Inside w c) {e : Expr} (hadmits : C.Admits c (.expr e))
    (he : (Tree.expr e).Everywhere P) : C.Holds w fun i => (ev i).evalKind c e.kind := by
  refine C.evalKind hc e.kind (fun _ => h.invoke)
    (fun e' he' => h.expr hc (hadmits.expr_part he') (he.expr_part he'))
    (fun e' he' w' hw v hv =>
      h.assign (hc.mono hw) hv (hadmits.expr_part he') (he.expr_part he')) fun l hl => ?_
  obtain ⟨span, kind⟩ := e
  cases hl
  exact hfunction hc (fun name hname => hadmits name (.here hname)) (he.function rfl)

lemma execKind (hc : R.Inside w c) {s : Stmt} (hadmits : C.Admits c (.stmt s))
    (hs : (Tree.stmt s).Everywhere P) : C.Holds w fun i => (ev i).execKind c s.kind := by
  have hexpr : ∀ e, e ∈ s.kind.ownExprs → Tree.expr e ∈ (Tree.stmt s).ownParts :=
    fun e he => List.mem_append_left _ (List.mem_map_of_mem he)
  have hstmt : ∀ s', s' ∈ s.kind.ownStmts → Tree.stmt s' ∈ (Tree.stmt s).ownParts :=
    fun s' hs' => List.mem_append_right _ (List.mem_map_of_mem hs')
  refine C.execKind hc s.kind (fun _ => h.loops)
    (fun e he _ _ _ hd hopen => h.expr hd (hadmits.of_open (hexpr e) hopen) (hs.stmt_expr he))
    (fun s' hs' _ _ _ hd hopen => h.stmt hd (hadmits.of_open (hstmt s') hopen) (hs.stmt_stmt hs'))
    (fun name value hkind => ?_) fun l hl => ?_
  · obtain ⟨span, kind⟩ := s
    cases hkind
    exact hadmits name (.here rfl)
  · obtain ⟨span, kind⟩ := s
    cases hl
    exact hfunction hc (fun name hname => hadmits name (.here hname)) (hs.function rfl)

/-- A congruence that holds of what evaluators do with the code holds of what those one level above
do, if it does of their ticks and loops and of the calls of functions, and the code may be blamed. -/
theorem above (htick : C.Ticks fun i => (ev i).above (σ i))
    (hloops : C.Loops fun i => (ev i).above (σ i))
    (hcall : ∀ ⦃w : Store⦄ ⦃r : FunctionRef⦄ ⦃args : List Value⦄, R.Inside w r →
      R.Inside w args → C.Holds w fun i => (do
        let f ← Action.read fun st => st.closure r
        (ev i).callClosure (σ i).config.arity f args : Action Value))
    (hblame : ∀ t : Tree, P t → ∀ span, t.span? = some span → C.MayBlame span := by
      exact fun _ _ _ _ => trivial) :
    C.Obeys P fun i => (ev i).above (σ i) where
  tick := htick
  loops := hloops
  expr w _ hc e ha he :=
    C.blame _ (hblame _ he.here _ rfl)
      (C.seq (htick w) fun _ hw => h.evalKind hfunction (hc.mono hw) ha he)
  assign _ _ _ hc hv target ha ht := by
    refine C.blame _ (hblame _ ht.here _ rfl) (C.assignTarget hc hv target (h.expr hc ha ht)
      (fun e he => h.expr hc (ha.expr_part he) (ht.expr_part he)) fun inner hk => ?_)
    have hinner : inner ∈ target.kind.parts := by simp [hk, ExprKind.parts]
    exact h.assign hc hv (ha.expr_part hinner) (ht.expr_part hinner)
  stmt w _ hc s ha hs :=
    C.blame _ (hblame _ hs.here _ rfl)
      (C.seq (htick w) fun _ hw => h.execKind hfunction (hc.mono hw) ha hs)
  invoke w f args hf ha := by
    refine C.enter hf ha (fun r hr => ?_) fun w' hw => ?_
    · subst hr
      exact hcall (hf.has rfl) ha
    · exact C.call (inside_getD (ha.mono hw) 0) fun _ =>
        h.invoke (inside_getD (ha.mono hw) 0) (inside_tail (ha.mono hw))

end Obeys

end TreeWalk.Congruence
