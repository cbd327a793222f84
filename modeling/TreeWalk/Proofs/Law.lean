/-
# Laws of evaluation

A law is a congruence that holds of the making and reading of functions as of all other actions that
do not evaluate.  What such a law says of the actions that evaluations are put together from it says
of all evaluations: of those of one level above (`Law.Obeys.above`), and so, if nothing that never
ends breaks it, of those of every level (`Law.obeys_level`).
-/
import TreeWalk.Proofs.Congruence.Calls

namespace TreeWalk

/-- A property of families of actions, one for each setting, that evaluation passes on. -/
structure Law (R : Region) {ι : Type} (σ : ι → Setting) extends Congruence R σ where
  contained {α : Type} [Placed α] {w : Store} {p : Action α} :
    R.Contained w p → Holds w fun _ => p
  mayBind : ∀ c name, MayBind c name := by exact fun _ _ => trivial
  mayBlame : ∀ span, MayBlame span := by exact fun _ => trivial
  leaf h := contained h.contained
  stepsTaken _ := contained .stepsTaken

namespace Law

open Region

variable {R : Region} {ι : Type} {σ : ι → Setting} (L : Law R σ) (ev : ι → Evaluator)

/-- The law holds of all that evaluators do. -/
structure Obeys : Prop where
  tick : L.Ticks ev
  loops : L.Loops ev
  expr : L.Exprs ev
  assign : L.Assigns ev
  stmt : L.Stmts ev
  invoke : L.Calls ev

variable {L ev} {w : Store} {c : ScopeRef}

/-! ### The parts of a program -/

/-- A law passes from the parts of an expression to the expression. -/
theorem Obeys.evalKind (h : L.Obeys ev) (hc : R.Inside w c) (kind : ExprKind) :
    L.Holds w fun i => (ev i).evalKind c kind :=
  L.toCongruence.evalKind hc kind (fun _ => h.invoke) (fun e _ => h.expr hc e)
    (fun e _ _ hw _ hv => h.assign (hc.mono hw) hv e)
    fun literal _ => L.contained (.makeFunction hc literal)

/-- A law passes from the parts of a statement to the statement. -/
theorem Obeys.execKind (h : L.Obeys ev) (hc : R.Inside w c) (kind : StmtKind) :
    L.Holds w fun i => (ev i).execKind c kind :=
  L.toCongruence.execKind hc kind (fun _ => h.loops) (fun e _ _ _ _ hd _ => h.expr hd e)
    (fun s _ _ _ _ hd _ => h.stmt hd s) (fun name _ _ => L.mayBind c name)
    fun literal _ => L.contained (.makeFunction hc literal)

/-- A law passes from statements to programs. -/
theorem Obeys.runFrom (h : L.Obeys ev) (hc : R.Inside w c) {last : Value} (hl : R.Inside w last)
    (program : List Stmt) : L.Holds w fun i => (ev i).runFrom c last program :=
  L.toCongruence.runFrom h.tick hc hl program (fun _ _ e _ => h.expr hc e)
    (fun s _ => h.stmt hc s) fun _ span => L.contained ((Contained.raise _).blame span)

/-- A law passes from statements, and from the calls that builtins make with one argument less, to
the call of a value. -/
theorem enter (h : L.Stmts ev) {f : Value} (hf : R.Inside w f) {args : List Value}
    (ha : R.Inside w args)
    (hcall : ∀ w', w ≤ w' → L.Holds w' fun i => (ev i).call (args.getD 0 .nil) args.tail) :
    L.Holds w fun i => (ev i).enter (σ i) f args := by
  refine L.toCongruence.enter hf ha (fun r hr => ?_) hcall
  subst hr
  refine L.bind (L.contained (.readClosure (hf.has rfl))) fun w' hw g hg => ?_
  exact L.callClosure hg (ha.mono hw) fun w' hw d hd _ => L.answer (h.execAll hd g.literal.body)
    fun _ _ => L.contained (.raise _)

/-- A law passes from calls to the attempts to call a value. -/
lemma Obeys.call (h : L.Obeys ev) {f : Value} {args : List Value} (hf : R.Inside w f)
    (ha : R.Inside w args) : L.Holds w fun i => (ev i).call f args :=
  L.toCongruence.call hf fun _ => h.invoke hf ha

/-! ### The levels -/

/-- A law that holds of evaluators holds of those one level above, if it does of their ticks and
loops. -/
theorem Obeys.above (h : L.Obeys ev) (htick : L.Ticks fun i => (ev i).above (σ i))
    (hloops : L.Loops fun i => (ev i).above (σ i)) : L.Obeys fun i => (ev i).above (σ i) where
  tick := htick
  loops := hloops
  expr w _ hc e := L.blame _ (L.mayBlame _)
    (L.seq (htick w) fun _ hw => h.evalKind (hc.mono hw) e.kind)
  assign _ _ _ hc hv target := L.blame _ (L.mayBlame _)
    (h.expr.assignTarget hc hv target fun inner _ => h.assign hc hv inner)
  stmt w _ hc s := L.blame _ (L.mayBlame _)
    (L.seq (htick w) fun _ hw => h.execKind (hc.mono hw) s.kind)
  invoke _ _ _ hf ha := enter h.stmt hf ha fun _ hw =>
    h.call (inside_getD (ha.mono hw) 0) (inside_tail (ha.mono hw))

section

variable (L) (hstuck : ∀ {α : Type} [Placed α] (w : Store),
  L.Holds w fun _ => (Action.unfinished : Action α))
include hstuck

/-- A law that holds of what never ends and of the ticks holds of the evaluators of all levels. -/
theorem obeys_level (htick : ∀ w, L.Holds w fun i => Action.tick (σ i).config.stepLimit)
    (n : Nat) : L.Obeys fun i => Evaluator.level (σ i) n := by
  induction n with
  | zero =>
    exact {
      tick := fun w => hstuck w
      loops := fun _ _ w _ _ => hstuck w
      expr := fun w _ _ _ => hstuck w
      assign := fun w _ _ _ _ _ => hstuck w
      stmt := fun w _ _ _ => hstuck w
      invoke := fun w _ _ _ _ => hstuck w }
  | succ n ih =>
    simp only [Evaluator.level_succ]
    exact ih.above htick (L.loops_above _ hstuck htick fun _ => Evaluator.rounds_level _ n)

end

end Law

end TreeWalk
