/-
# The clean-up changes nothing

A program and the cleaned-up one come to the same end, if either of them comes to an end: to the
same value or to the same error, in stores that differ in the bodies of functions only, which are
cleaned up in the one (`run_erase`).  The cleaned-up program takes fewer steps, so that there must
be no step limit and nobody who looks at the number of steps.

The proof goes from level to level, and at each level from trees to smaller ones: an expression in
parentheses is evaluated at one level more than the expression without them is.
-/
import TreeWalk.Proofs.Ending
import TreeWalk.Proofs.Erasure
import TreeWalk.Proofs.LooseBreaks
import TreeWalk.Proofs.Simulation
import TreeWalk.Proofs.Spanned

namespace TreeWalk

/-! ### The trees of the two sides -/

/-- The expression as it is on the one side, or cleaned up as on the other. -/
def Expr.on (b : Bool) (e : Expr) : Expr := side b e e.erase

def ExprKind.on (b : Bool) (kind : ExprKind) : ExprKind := side b kind kind.erase

def FunctionLit.on (b : Bool) (l : FunctionLit) : FunctionLit := side b l l.erase

def Stmt.on (b : Bool) (s : Stmt) : Stmt := side b s s.erase

def StmtKind.on (b : Bool) (kind : StmtKind) : StmtKind := side b kind kind.erase

/-- The statements as they are on the one side, or cleaned up as on the other. -/
def stmtsOn (b : Bool) (body : List Stmt) : List Stmt := side b body (eraseStmts body)

section

variable (b : Bool)

/-- The clean-up keeps the form of an expression that is no parentheses. -/
lemma ExprKind.on_eq_map (kind : ExprKind) :
    kind.on b = kind.map (Expr.on b) (FunctionLit.on b) := by
  cases b with
  | false => exact (ExprKind.map_id kind).symm
  | true =>
    cases kind with
    | object entries => exact congrArg ExprKind.object (eraseEntries_eq entries)
    | array items => exact congrArg ExprKind.array (eraseExprs_eq items)
    | call callee args => exact congrArg (ExprKind.call callee.erase) (eraseExprs_eq args)
    | new typeName args => exact congrArg (ExprKind.new typeName) (eraseExprs_eq args)
    | _ => rfl

/-- The clean-up keeps the form of a statement. -/
lemma StmtKind.on_eq_map (kind : StmtKind) :
    kind.on b = kind.map (Expr.on b) (Stmt.on b) (stmtsOn b) (FunctionLit.on b) := by
  cases b with
  | false => exact (StmtKind.map_id kind).symm
  | true =>
    cases kind with
    | declare name value => exact congrArg (StmtKind.declare name) (eraseOption_eq value)
    | ret value => exact congrArg StmtKind.ret (eraseOption_eq value)
    | loop init condition update body =>
      show StmtKind.loop (eraseInit init) (eraseOption condition) (eraseOption update)
        (eraseStmts body) = _
      rw [eraseInit_eq, eraseOption_eq, eraseOption_eq]
      rfl
    | branch condition whenTrue whenFalse =>
      exact congrArg (StmtKind.branch condition.erase whenTrue.erase) (eraseInit_eq whenFalse)
    | switch subject cases => exact congrArg (StmtKind.switch subject.erase) (eraseCases_eq cases)
    | _ => rfl

lemma Stmt.on_span (s : Stmt) : (s.on b).span = s.span := by
  cases b <;> cases s <;> rfl

lemma Stmt.on_expr {s : Stmt} {e : Expr} (h : s.kind = .expr e) :
    (s.on b).kind = .expr (e.on b) := by
  obtain ⟨span, kind⟩ := s
  cases h
  cases b <;> rfl

lemma Stmt.expr_of_on {s : Stmt} {e : Expr} (h : (s.on b).kind = .expr e) :
    ∃ e, s.kind = .expr e := by
  obtain ⟨span, kind⟩ := s
  cases b with
  | false => exact ⟨e, h⟩
  | true =>
    cases kind with
    | expr e => exact ⟨e, rfl⟩
    | _ => cases h

/-- Only parentheses without a span are taken away. -/
lemma Expr.on_mk {span : Span} {kind : ExprKind}
    (h : ∀ inner, kind = .paren inner → span.isSynthetic = false) :
    Expr.on b ⟨span, kind⟩ = ⟨span, kind.on b⟩ := by
  cases b with
  | false => rfl
  | true => exact Expr.erase_mk h

end

/-- No error is blamed on a node without a span. -/
lemma Action.blame_of_synthetic {α : Type} {span : Span} (h : span.isSynthetic = true)
    (x : Action α) : Action.blame span x = x := by
  funext s
  rw [blame_apply]
  cases x s with
  | error e t => simp [EvalError.blame, h]
  | _ => rfl

/-! ### Statements that are not gone on from -/

namespace Evaluator

section

variable {ev : Evaluator} {s : Stmt} {c : ScopeRef} (h : (ev.stmt s c).Avoids .next)
  (rest : List Stmt)
include h

/-- What stands after a statement that is not gone on from does not matter. -/
lemma execAll_of_avoids : ev.execAll c (s :: rest) = ev.execAll c [s] := by
  refine h.bind_congr fun flow hflow => ?_
  cases flow with
  | next => exact absurd rfl hflow
  | leave => rfl
  | ret v => rfl

lemma runFrom_of_avoids (hkind : ∀ e, s.kind ≠ .expr e) (last : Value) :
    ev.runFrom c last (s :: rest) = ev.runFrom c last [s] := by
  rw [runFrom_cons _ _ hkind, runFrom_cons _ _ hkind]
  refine h.bind_congr fun flow hflow => ?_
  cases flow with
  | next => exact absurd rfl hflow
  | leave => rfl
  | ret v => rfl

end

/-- A `return` or `break` is not gone on from, at any level. -/
lemma avoids_next_level (σ : Setting) (n : Nat) {s : Stmt} (hs : s.kind.stops = true)
    (c : ScopeRef) : ((level σ n).stmt s c).Avoids .next := by
  cases n with
  | zero => exact .unfinished
  | succ n =>
    obtain ⟨span, kind⟩ := s
    have hkind : ((level σ n).execKind c kind).Avoids .next := by
      cases kind with
      | ret value => exact .bind fun v => .pure nofun
      | leave => exact .pure nofun
      | _ => cases hs
    rw [level_succ]
    exact .blame (.bind fun _ => hkind) span

end Evaluator

namespace CleanUp

open Region Evaluator

variable {R : Region} {σ : Setting} {k : Nat} {w : Store} {c : ScopeRef}

/-- What evaluators do with a tree and with the cleaned-up tree comes to the same, as far as levels
up to `k` are concerned. -/
structure Sound (R : Region) (σ : Setting) (k : Nat) : Prop where
  expr : ∀ ⦃w : Store⦄ ⦃c : ScopeRef⦄, R.Inside w c → ∀ e : Expr,
    R.Simulates .erase k w fun i => (level σ i.2).expr (e.on i.1) c
  assign : ∀ ⦃w : Store⦄ ⦃c : ScopeRef⦄ ⦃v : Value⦄, R.Inside w c → R.Inside w v →
    ∀ target : Expr, R.Simulates .erase k w fun i => (level σ i.2).assign (target.on i.1) v c
  stmt : ∀ ⦃w : Store⦄ ⦃c : ScopeRef⦄, R.Inside w c → ∀ s : Stmt,
    R.Simulates .erase k w fun i => (level σ i.2).stmt (s.on i.1) c
  invoke : ∀ ⦃w : Store⦄ ⦃f : Value⦄ ⦃args : List Value⦄, R.Inside w f → R.Inside w args →
    R.Simulates .erase k w fun i => (level σ i.2).invoke f args

/-! ### Functions -/

/-- The two sides make functions with different bodies. -/
lemma newClosure (hc : R.Inside w c) (l : FunctionLit) : R.Simulates .erase k w fun i =>
    Action.create fun st => st.newClosure ⟨l.on i.1, c⟩ := by
  intro s s' hs hss i _ _
  have hfalse : Action.create (fun st => st.newClosure ⟨l.on false, c⟩) s =
      .value (s.store.newClosure ⟨l, c⟩).1 { s with store := (s.store.newClosure ⟨l, c⟩).2 } := rfl
  have htrue : Action.create (fun st => st.newClosure ⟨l.on true, c⟩) s' =
      .value (s.store.newClosure ⟨l, c⟩).1
        { s' with store := (s.store.newClosure ⟨l, c⟩).2.recode .erase } := by
    have hmade := s.store.newClosure_recode .erase ⟨l, c⟩
    have hl : Closure.recode .erase ⟨l, c⟩ = ⟨l.on true, c⟩ := by cases l; rfl
    rw [hl, ← hss.store] at hmade
    simp only [Action.create, hmade]
  refine ⟨.value (s.store.newClosure ⟨l, c⟩).1 { s with store := (s.store.newClosure ⟨l, c⟩).2 },
    .value (s.store.newClosure ⟨l, c⟩).1
      { s' with store := (s.store.newClosure ⟨l, c⟩).2.recode .erase },
    ⟨(Contained.newClosure (f := ⟨l, c⟩) hc).sound s hs, .value ⟨rfl, hss.depth⟩, 0,
      fun _ _ => ⟨hfalse, htrue⟩⟩, ?_⟩
  obtain ⟨_ | _, n⟩ := i
  · exact hfalse
  · exact htrue

section

variable (hlimit : σ.config.stepLimit = none)
include hlimit

lemma tick : R.Simulates .erase k w fun i => (level σ i.2).tick := by
  cases k with
  | zero => exact .zero fun _ => rfl
  | succ k =>
    refine Simulates.succ (k := k) .tick (fun _ => rfl) fun b n => ?_
    rw [level_succ, above, hlimit]

/-- An empty statement in a list does nothing but take a step. -/
lemma skipped (span : Span) (c : ScopeRef) : R.Simulates .erase k w fun i =>
    side i.1 ((level σ i.2).stmt ⟨span, .empty⟩ c) (pure .next) := by
  have hnext : R.Simulates .erase k w fun _ => (pure .next : Action Flow) :=
    .of_primitive (.pure inside_next)
  refine hnext.ahead (D := fun s => { s with steps := s.steps + 1 }) (fun s hs => .of_tick hs)
    (fun _ => rfl) rfl (fun n s => ?_) fun _ => rfl
  show (level σ (n + 1)).stmt ⟨span, .empty⟩ c s = _
  rw [level_succ]
  simp only [above, execStmt, hlimit]
  rfl

end

variable (hsteps : ¬ R.allows .steps) (hglobals : .scope σ.globals ∈ R.start)

/-- The congruence that the clean-up is shown with. -/
@[reducible] def cleaning (k : Nat) : Congruence R (fun _ : Bool × Nat => σ) :=
  .simulates .erase k σ hsteps hglobals

lemma makeFunction (hc : R.Inside w c) (l : FunctionLit) :
    (cleaning hsteps hglobals k).Holds w fun i => Evaluator.makeFunction c (l.on i.1) := by
  have hname : ∀ i : Bool × Nat, (l.on i.1).name = l.name := fun i => by
    cases i.1 <;> cases l <;> rfl
  exact (cleaning hsteps hglobals k).makeFunction hc hname (fun _ _ => trivial) (newClosure hc l)

lemma loops (hlimit : σ.config.stepLimit = none) :
    (cleaning hsteps hglobals k).Loops fun i => level σ i.2 := by
  intro β _ w x hx
  have hround : R.Simulates .erase k w fun i => (do (level σ i.2).tick; x i) :=
    (tick hlimit).bind fun w' hw _ _ => hx.weaken hw
  exact hround.repeated.of_eq fun i => by rw [rounds_level]

namespace Sound

/-- Nothing comes to an end at level zero. -/
lemma zero : Sound R σ 0 where
  expr _ _ _ _ := .zero fun _ => rfl
  assign _ _ _ _ _ _ := .zero fun _ => rfl
  stmt _ _ _ _ := .zero fun _ => rfl
  invoke _ _ _ _ _ := .zero fun _ => rfl

variable (h : Sound R σ k) (hlimit : σ.config.stepLimit = none)
include h

/-! ### Lists of statements -/

include hsteps hglobals hlimit in
lemma execAll (body : List Stmt) : (cleaning hsteps hglobals k).ExecutesAll
    (fun i => level σ i.2) w fun i => stmtsOn i.1 body := by
  intro w' hw d hd _
  induction body generalizing w' with
  | nil =>
    have hnil : R.Simulates .erase k w' fun _ => (pure .next : Action Flow) :=
      .of_primitive (.pure inside_next)
    exact hnil.of_sides (fun _ => rfl) fun _ => rfl
  | cons s rest ih =>
    have hs := h.stmt hd s
    rcases eraseStmts_cons s rest with ⟨hkind, herase⟩ | ⟨hkind, herase⟩ | ⟨-, -, herase⟩
    · -- only one of the sides has the empty statement
      obtain ⟨span, kind⟩ := s
      cases hkind
      have hrest := (cleaning hsteps hglobals k).execAll_after (skipped hlimit span d)
        fun w'' hw' => ih (hw.trans hw') (hd.mono hw')
      refine hrest.of_sides (fun _ => rfl) fun n => ?_
      show (level σ n).execAll d (eraseStmts (⟨span, .empty⟩ :: rest)) = _
      rw [herase]
      rfl
    · have hone : R.Simulates .erase k w' fun i => (level σ i.2).execAll d [s.on i.1] :=
        (cleaning hsteps hglobals k).execAll_cons hs
          fun _ _ => Simulates.of_primitive (.pure inside_next)
      refine hone.of_sides (fun n => ?_) fun n => ?_
      · exact execAll_of_avoids (avoids_next_level σ n hkind d) rest
      · exact congrArg _ herase
    · have hrest : R.Simulates .erase k w' fun i =>
          (level σ i.2).execAll d (s.on i.1 :: stmtsOn i.1 rest) :=
        (cleaning hsteps hglobals k).execAll_cons hs
          fun w'' hw' => ih (hw.trans hw') (hd.mono hw')
      exact hrest.of_sides (fun _ => rfl) fun n => congrArg _ herase

/-! ### Expressions -/

include hsteps hglobals in
lemma evalKind (hc : R.Inside w c) (kind : ExprKind) : R.Simulates .erase k w fun i =>
    (level σ i.2).evalKind c (kind.on i.1) := by
  simp only [ExprKind.on_eq_map]
  exact (cleaning hsteps hglobals k).evalKind_map hc kind (fun _ => h.invoke)
    (fun e _ => h.expr hc e)
    (fun e _ w' hw v hv => h.assign (hc.mono hw) hv e) fun l _ => makeFunction hsteps hglobals hc l

include hsteps hglobals in
lemma assignTarget (hc : R.Inside w c) {v : Value} (hv : R.Inside w v) {span : Span}
    {kind : ExprKind} (hkind : ∀ inner, kind = .paren inner → span.isSynthetic = false) :
    R.Simulates .erase k w fun i => (level σ i.2).assignTarget c ⟨span, kind.on i.1⟩ v := by
  have htarget : R.Simulates .erase k w fun i => (level σ i.2).expr ⟨span, kind.on i.1⟩ c := by
    simp only [← Expr.on_mk _ hkind]
    exact h.expr hc ⟨span, kind⟩
  exact (cleaning hsteps hglobals k).assignTarget_map hc hv kind
    (fun i => ExprKind.on_eq_map i.1 kind) htarget (fun e _ => h.expr hc e)
    fun inner _ => h.assign hc hv inner

/-! ### Statements -/

include hsteps hglobals hlimit in
lemma execKind (hc : R.Inside w c) (kind : StmtKind) : R.Simulates .erase k w fun i =>
    (level σ i.2).execKind c (kind.on i.1) := by
  simp only [StmtKind.on_eq_map]
  exact (cleaning hsteps hglobals k).execKind_map hc kind
    (fun _ => loops hsteps hglobals hlimit) (fun e _ _ _ _ hd _ => h.expr hd e)
    (fun s _ _ _ _ hd _ => h.stmt hd s)
    (fun body _ => h.execAll hsteps hglobals hlimit body) (fun _ _ _ => trivial)
    fun l _ => makeFunction hsteps hglobals hc l

/-! ### Calls -/

include hsteps hglobals hlimit in
/-- Both sides call a function, each with the body that it has in the store of that side. -/
lemma callFunction {r : FunctionRef} (hr : R.Inside w r) {args : List Value}
    (ha : R.Inside w args) : R.Simulates .erase k w fun i => (do
      let f ← Action.read fun st => st.closure r
      (level σ i.2).callClosure σ.config.arity f args : Action Value) := by
  intro s s' hs hss i hi hne
  have hread : ∀ b n, (do
      let f ← Action.read fun st => st.closure r
      (level σ n).callClosure σ.config.arity f args : Action Value) (side b s s') =
      (level σ n).callClosure σ.config.arity
        ⟨{ (s.store.closure r).literal with body := stmtsOn b (s.store.closure r).literal.body },
          (s.store.closure r).env⟩ args (side b s s') := by
    rintro (_ | _) n
    · rfl
    · show (level σ n).callClosure σ.config.arity (s'.store.closure r) args s' = _
      rw [hss.store, Store.closure_recode]
      rfl
  have hf : R.Inside s.store (s.store.closure r) := hs.valid.closure (hr.mono hs.le)
  have hcall := (cleaning hsteps hglobals k).callClosure hf (ha.mono hs.le) fun w' hw d hd hnew =>
    (cleaning hsteps hglobals k).answer
      (h.execAll hsteps hglobals hlimit (s.store.closure r).literal.body hw hd hnew)
      fun _ _ => Simulates.raise .strayBreak
  obtain ⟨o, o', ⟨hk, ho, n, hn⟩, hat⟩ := hcall s s' ⟨le_rfl, hs.valid⟩ hss i hi fun heq =>
    hne ((hread i.1 i.2).trans heq)
  refine ⟨o, o', ⟨hk, ho, n, fun m hm => ?_⟩, (hread i.1 i.2).trans hat⟩
  exact ⟨(hread false m).trans (hn m hm).1, (hread true m).trans (hn m hm).2⟩

/-! ### The levels -/

section

include hsteps hglobals

/-- A target in parentheses is assigned to one level above the target without them. -/
lemma succ_assign (hc : R.Inside w c) {v : Value} (hv : R.Inside w v) (target : Expr) :
    R.Simulates .erase (k + 1) w fun i => (level σ i.2).assign (target.on i.1) v c := by
  induction target using Expr.parenInduction with
  | paren span inner hspan ih =>
    refine ih.ahead (D := fun s => s) (fun s hs => .refl hs) (fun _ => rfl) rfl (fun n s => ?_)
      fun n => ?_
    · show (level σ (n + 1)).assign ⟨span, .paren inner⟩ v c s = _
      rw [level_succ]
      simp only [above, assignExpr, Action.blame_of_synthetic hspan]
      rfl
    · exact congrArg (fun e => (level σ n).assign e v c) (Expr.erase_paren hspan)
  | kept span kind hkept =>
    refine ((h.assignTarget hsteps hglobals hc hv hkept).blame span).succ (fun _ => rfl)
      fun b n => ?_
    rw [level_succ, Expr.on_mk b hkept]
    rfl

end

include hsteps hglobals hlimit

/-- An expression in parentheses is evaluated one level above the expression without them. -/
lemma succ_expr (hc : R.Inside w c) (e : Expr) : R.Simulates .erase (k + 1) w fun i =>
    (level σ i.2).expr (e.on i.1) c := by
  induction e using Expr.parenInduction with
  | paren span inner hspan ih =>
    refine ih.ahead (D := fun s => { s with steps := s.steps + 1 }) (fun s hs => .of_tick hs)
      (fun _ => rfl) rfl (fun n s => ?_) fun n => ?_
    · show (level σ (n + 1)).expr ⟨span, .paren inner⟩ c s = _
      rw [level_succ]
      simp only [above, evalExpr, Action.blame_of_synthetic hspan, hlimit]
      rfl
    · exact congrArg (fun e => (level σ n).expr e c) (Expr.erase_paren hspan)
  | kept span kind hkept =>
    refine ((h.evalKind hsteps hglobals hc kind).ticked span).succ (fun _ => rfl) fun b n => ?_
    rw [level_succ, Expr.on_mk b hkept]
    simp only [above, evalExpr, hlimit]

lemma succ : Sound R σ (k + 1) where
  expr _ _ hc e := h.succ_expr hsteps hglobals hlimit hc e
  assign _ _ _ hc hv target := h.succ_assign hsteps hglobals hc hv target
  stmt w c hc s := by
    obtain ⟨span, kind⟩ := s
    have hbelow := (h.execKind hsteps hglobals hlimit hc kind).ticked span
    refine hbelow.succ (fun _ => rfl) fun b n => ?_
    have hon : Stmt.on b ⟨span, kind⟩ = ⟨span, kind.on b⟩ := by cases b <;> rfl
    rw [level_succ, hon]
    simp only [above, execStmt, hlimit]
  invoke w f args hf ha := by
    have hbelow := (cleaning hsteps hglobals k).enter hf ha
      (fun r hr => h.callFunction hsteps hglobals hlimit (Inside.has (hr ▸ hf) rfl) ha)
      fun w' hw => (cleaning hsteps hglobals k).call (inside_getD (ha.mono hw) 0) fun _ =>
        h.invoke (inside_getD (ha.mono hw) 0) (inside_tail (ha.mono hw))
    refine Simulates.succ hbelow (fun _ => rfl) fun b n => ?_
    rw [level_succ]
    rfl

/-! ### Programs -/

/-- The first statement of a program, before others. -/
lemma runFrom_cons (hc : R.Inside w c) (s : Stmt) {rest : Bool × Nat → List Stmt}
    (hrest : ∀ w', w ≤ w' → ∀ last : Value, R.Inside w' last →
      R.Simulates .erase k w' fun i => (level σ i.2).runFrom c last (rest i))
    {last : Value} (hlast : R.Inside w last) : R.Simulates .erase k w fun i =>
      (level σ i.2).runFrom c last (s.on i.1 :: rest i) := by
  by_cases hexpr : ∃ e, s.kind = .expr e
  · obtain ⟨e, he⟩ := hexpr
    exact (cleaning hsteps hglobals k).runFrom_expr (e := fun i => e.on i.1)
      (fun i => Stmt.on_expr i.1 he) last (fun w' => tick hlimit)
      (fun w' hw => h.expr (hc.mono hw) e) hrest
  · refine (cleaning hsteps hglobals k).runFrom_stmt
      (fun i e he => hexpr (Stmt.expr_of_on i.1 he)) (h.stmt hc s) (fun _ _ => ?_)
      fun w' hw => hrest w' hw last (hlast.mono hw)
    simp only [Stmt.on_span]
    exact (Simulates.raise .strayBreak).blame s.span

lemma runFrom (program : List Stmt) (hc : R.Inside w c) {last : Value} (hlast : R.Inside w last) :
    R.Simulates .erase k w fun i => (level σ i.2).runFrom c last (stmtsOn i.1 program) := by
  have hpure : ∀ {w' : Store} {v : Value}, R.Inside w' v →
      R.Simulates .erase k w' fun _ => (pure v : Action Value) :=
    fun hv => .of_primitive (.pure hv)
  induction program generalizing w last with
  | nil => exact (hpure hlast).of_sides (fun _ => rfl) fun _ => rfl
  | cons s rest ih =>
    rcases eraseStmts_cons s rest with ⟨hkind, herase⟩ | ⟨hkind, herase⟩ | ⟨-, -, herase⟩
    · obtain ⟨span, kind⟩ := s
      cases hkind
      have hrest := (cleaning hsteps hglobals k).runFrom_after (skipped hlimit span c)
        (fun _ _ => (Simulates.raise .strayBreak).blame span)
        fun w' hw => ih (hc.mono hw) (hlast.mono hw)
      refine hrest.of_sides (fun n => ?_) fun n => ?_
      · exact Evaluator.runFrom_cons _ _ (fun _ he => by cases he) last rest
      · show (level σ n).runFrom c last (eraseStmts (⟨span, .empty⟩ :: rest)) = _
        rw [herase]
        rfl
    · have hnoexpr : ∀ e, s.kind ≠ .expr e := fun e he => by
        rw [he] at hkind
        cases hkind
      have hone : R.Simulates .erase k w fun i => (level σ i.2).runFrom c last [s.on i.1] := by
        refine h.runFrom_cons hsteps hglobals hlimit hc s (fun w' _ last' hlast' => ?_) hlast
        exact hpure hlast'
      refine hone.of_sides (fun n => ?_) fun n => ?_
      · exact runFrom_of_avoids (avoids_next_level σ n hkind c) rest hnoexpr last
      · exact congrArg _ herase
    · have hrest : R.Simulates .erase k w fun i =>
          (level σ i.2).runFrom c last (s.on i.1 :: stmtsOn i.1 rest) :=
        h.runFrom_cons hsteps hglobals hlimit hc s
          (fun w' hw _ hlast' => ih (hc.mono hw) hlast') hlast
      exact hrest.of_sides (fun _ => rfl) fun n => congrArg _ herase

end Sound

variable (hlimit : σ.config.stepLimit = none)
include hsteps hglobals hlimit

/-- The clean-up is sound, whatever is called and however often. -/
lemma sound (k : Nat) : Sound R σ k := by
  induction k with
  | zero => exact .zero
  | succ k ih => exact ih.succ hsteps hglobals hlimit

end CleanUp

open Interpreter in
/-- A program and the cleaned-up one, which is clean if no parentheses have a span of their own, come
to the same end, if one of them comes to an end.  There is no step limit, and no builtin that tells
the number of steps can be reached. -/
theorem run_erase (i : Interpreter) (st : Store) (program : List Stmt)
    (hlimit : i.config.stepLimit = none)
    (hsteps : ∀ r, st.Reaches (.scope i.globals) (.builtin r) → (st.builtin r).native ≠ .steps) :
    ((Tree.program program).Everywhere (fun t => t.spanlessParens = true) →
      (Tree.program (eraseStmts program)).Everywhere Tree.Clean) ∧
    ((∃ o, i.Ends st (fun ev => ev.runFrom i.globals .nil program) o) ↔
      ∃ o', i.Ends (st.recode .erase)
        (fun ev => ev.runFrom i.globals .nil (eraseStmts program)) o') ∧
    ∀ o o', i.Ends st (fun ev => ev.runFrom i.globals .nil program) o →
      i.Ends (st.recode .erase) (fun ev => ev.runFrom i.globals .nil (eraseStmts program)) o' →
      o.Recodes .erase o' := by
  let R := Region.spanned st (· = .scope i.globals) (· ≠ .steps)
    fun _ r hm hr => hsteps r (hm ▸ hr)
  have hglobals : .scope i.globals ∈ R.start := ⟨_, rfl, .refl⟩
  have hallows : ¬ R.allows .steps := fun h => h rfl
  have hnil : R.Inside st Value.nil := Region.inside_of_node?_eq_none rfl
  -- whichever side comes to an end, both do, and to ends that correspond
  have hjoin : ∀ (b : Bool) (n : Nat),
      (Evaluator.level i.toSetting n).runFrom i.globals .nil (stmtsOn b program)
        (side b (i.start st) (i.start (st.recode .erase))) ≠ .unfinished →
      ∃ o o', o.Recodes .erase o' ∧ i.Ends st (fun ev => ev.runFrom i.globals .nil program) o ∧
        i.Ends (st.recode .erase)
          (fun ev => ev.runFrom i.globals .nil (eraseStmts program)) o' := by
    intro b n hne
    have hsound := CleanUp.sound (σ := i.toSetting) hallows hglobals hlimit n
    have hrun := hsound.runFrom hallows hglobals hlimit program (.inl hglobals) hnil
    obtain ⟨o, o', ⟨-, hrec, m, hm⟩, hat⟩ := hrun (i.start st) (i.start (st.recode .erase))
      ⟨le_rfl, R.valid_base⟩ ⟨rfl, rfl⟩ (b, n) le_rfl hne
    refine ⟨o, o', hrec, ⟨?_, m, (hm m le_rfl).1⟩, ⟨?_, m, (hm m le_rfl).2⟩⟩
    · rintro rfl
      cases hrec
      exact hne (hat.trans (side_self b _))
    · rintro rfl
      cases hrec
      exact hne (hat.trans (side_self b _))
  have hgrowing := (growing_operations i.globals).1 .nil
  refine ⟨Tree.erase_clean, ⟨fun ⟨o, ho, n, hn⟩ => ?_, fun ⟨o', ho', n, hn⟩ => ?_⟩,
    fun o o' h h' => ?_⟩
  · obtain ⟨-, q', -, -, hq'⟩ := hjoin false n fun h => ho (hn.symm.trans h)
    exact ⟨q', hq'⟩
  · obtain ⟨q, -, -, hq, -⟩ := hjoin true n fun h => ho' (hn.symm.trans h)
    exact ⟨q, hq⟩
  · obtain ⟨n, hn⟩ := h.2
    obtain ⟨q, q', hrec, hq, hq'⟩ := hjoin false n fun h' => h.1 (hn.symm.trans h')
    rwa [Ends.unique (hgrowing _) h hq, Ends.unique (hgrowing _) h' hq']

/-- A program and the cleaned-up one, with a function whose body is cleaned up too. -/
theorem run_erase_parentheses :
    let x : Expr := .synthetic (.identifier "x")
    let n : Expr := .synthetic (.identifier "n")
    let one : Expr := .synthetic (.number 1)
    let paren : Expr → Expr := fun e => .synthetic (.paren e)
    let assigned : Expr → Stmt := fun target => .ofExpr (.synthetic (.assign target
      (.synthetic (.call (.synthetic (.identifier "f")) [.synthetic (.number 6)]))))
    let program : List Stmt := [
      .synthetic (.function ⟨some "f", ["n"],
        [.synthetic .empty, .synthetic (.ret (some (paren n))), .synthetic .leave]⟩),
      .synthetic (.declare "x" (some one)),
      .synthetic .empty,
      assigned (paren (paren x)),
      .ofExpr (.synthetic (.step .increment true (paren x))),
      .synthetic (.ret (some (paren x))),
      .ofExpr one]
    let cleaned : List Stmt := [
      .synthetic (.function ⟨some "f", ["n"], [.synthetic (.ret (some n))]⟩),
      .synthetic (.declare "x" (some one)),
      assigned x,
      .ofExpr (.synthetic (.step .increment true x)),
      .synthetic (.ret (some x))]
    let i := (Interpreter.create {} {}).1
    let st := (Interpreter.create {} {}).2
    i.config.stepLimit = none ∧
    (∀ r, st.Reaches (.scope i.globals) (.builtin r) → (st.builtin r).native ≠ .steps) ∧
    eraseStmts program = cleaned ∧ (Tree.program cleaned).Everywhere Tree.Clean ∧
    ∃ s s', i.Ends st (fun ev => ev.runFrom i.globals .nil program) (.value (.number 7) s) ∧
      i.Ends (st.recode .erase) (fun ev => ev.runFrom i.globals .nil cleaned)
        (.value (.number 7) s') ∧ s'.store = s.store.recode .erase := by
  intro x n one paren assigned program cleaned i st
  have herase : eraseStmts program = cleaned := rfl
  have hsteps : ∀ r, st.Reaches (.scope i.globals) (.builtin r) →
      (st.builtin r).native ≠ .steps := fun r hr => by
    cases Interpreter.reaches_create hr
  obtain ⟨v, s, hrun, hv⟩ := Interpreter.Ends.of_passes i st
    (fun ev => ev.runFrom i.globals .nil program) (fun v _ => decide (v = .number 7)) 10
    (by decide +kernel)
  obtain rfl := of_decide_eq_true hv
  have hparens : (Tree.program program).Everywhere fun t => t.spanlessParens = true :=
    Tree.everywhere_of_check (n := 9) (by decide)
  obtain ⟨hclean, hends, hrec⟩ := run_erase i st program rfl hsteps
  obtain ⟨o', ho'⟩ := hends.mp ⟨_, hrun⟩
  cases hrec _ o' hrun ho' with
  | @value a t s' hs => exact ⟨rfl, hsteps, herase, hclean hparens, s, s', hrun, ho', hs.store⟩

end TreeWalk
