/-
# A step limit stops everything that it leaves room for

With a step limit every evaluation ends, with a value or with an error, however many steps have been
taken before (`stepLimit_terminates`).  The store has to be one that a host can make: no reference
of it leads nowhere, and its chains of scopes end.  And the limit has to leave room above it in the
counter of the steps, which goes on with zero after its largest number: with the largest limit no
step is ever refused (`Action.tick_largest`).  One number above the limit is enough where errors are
not caught.  Where they are, an evaluation may go on after a refused step, but not after so many of
them as there have been granted steps before.
-/
import TreeWalk.Proofs.Endless
import TreeWalk.Proofs.Intact

namespace TreeWalk

namespace Region

open Evaluator

variable {R : Region} {σ : Setting} {B : Budget} {k : Nat} {w : Store} {c : ScopeRef}

/-- The congruence of actions that settle and do not make the debt higher. -/
def settles (R : Region) (B : Budget) (k : Nat) : TreeCongruence R Nat where
  Holds w x := R.Settles B 0 k w x
  weaken h hw := h.weaken hw
  leaf h := .of_primitive h
  bind hx hf := hx.bind hf
  blame span _ h := h.blame span

/-- The evaluators settle, and no more than the price of a step is added to the debt by calls. -/
structure Settled (R : Region) (B : Budget) (k : Nat) (ev : Nat → Evaluator) : Prop where
  tick : (settles R B k).Ticks ev
  loops : (settles R B k).Loops ev
  expr : (settles R B k).Exprs ev
  assign : (settles R B k).Assigns ev
  stmt : (settles R B k).Stmts ev
  invoke : ∀ ⦃w : Store⦄ ⦃f : Value⦄ ⦃args : List Value⦄, R.Inside w f → R.Inside w args →
    R.Settles B B.price k w fun n => (ev n).invoke f args

variable {ev : Nat → Evaluator}

/-- Only what can be called is. -/
lemma settles_call {f : Value} {args : List Value} (hf : R.Inside w f)
    (h : f.isCallable = true → R.Settles B B.price k w fun n => (ev n).invoke f args) :
    R.Settles B B.price k w fun n => (ev n).call f args := by
  unfold Evaluator.call
  cases hcall : f.isCallable with
  | true => exact h hcall
  | false => exact .of_primitive (.refuse _ hf)

namespace Settled

variable (h : R.Settled B k ev)
include h

lemma call {f : Value} {args : List Value} (hf : R.Inside w f) (ha : R.Inside w args) :
    R.Settles B B.price k w fun n => (ev n).call f args :=
  settles_call hf fun _ => h.invoke hf ha

/-- What is called has been evaluated with its arguments before, so that only the call itself makes
the debt higher. -/
lemma evalCall (hc : R.Inside w c) (callee : Expr) (args : List Expr) :
    R.Settles B B.price k w fun n => (ev n).evalCall c callee args := by
  refine Settles.bind (h.expr hc callee) fun w₁ hw₁ v hv => ?_
  refine Settles.bind (.of_primitive (.resolve (hc.mono hw₁) hv))
    fun w₂ hw₂ f hf => ?_
  cases f.isCallable with
  | true =>
    have hargs : (settles R B k).Holds w₂ fun n => (ev n).evalAll c args := by
      simpa only [List.map_id'] using (settles R B k).evalAll (f := fun _ e => e) args
        fun e _ => h.expr (hc.mono (hw₁.trans hw₂)) e
    refine Settles.bind hargs fun w₃ hw₃ vs hvs => ?_
    exact h.invoke (hf.mono hw₃) fun a ha => hvs a (Array.mem_toList_iff.mp ha)
  | false => exact .of_primitive (.refuse _ hf)

lemma evalKind (hc : R.Inside w c) (kind : ExprKind) :
    R.Settles B B.price k w fun n => (ev n).evalKind c kind := by
  cases hcall : kind.isCall with
  | true =>
    cases kind with
    | call callee args => exact h.evalCall hc callee args
    | _ => cases hcall
  | false =>
    refine Settles.of_zero ((settles R B k).evalKind hc kind (fun hcall' => ?_)
      (fun e _ => h.expr hc e) (fun e _ _ hw _ hv => h.assign (hc.mono hw) hv e)
      fun literal _ => .of_contained (.makeFunction hc literal))
    rw [hcall] at hcall'
    cases hcall'

lemma execKind (hc : R.Inside w c) (kind : StmtKind) :
    R.Settles B 0 k w fun n => (ev n).execKind c kind :=
  (settles R B k).execKind hc kind (fun _ => h.loops) (fun e _ _ _ _ hd _ => h.expr hd e)
    (fun s _ _ _ _ hd _ => h.stmt hd s) (fun _ _ _ => trivial)
    fun literal _ => .of_contained (.makeFunction hc literal)

lemma runFrom (hc : R.Inside w c) {last : Value} (hl : R.Inside w last) (program : List Stmt) :
    R.Settles B 0 k w fun n => (ev n).runFrom c last program :=
  (settles R B k).runFrom h.tick hc hl program (fun _ _ e _ => h.expr hc e)
    (fun s _ => h.stmt hc s) fun _ span => .of_contained ((Contained.raise _).blame span)

end Settled

/-! ### Calls -/

section

variable {args : List Value} (ha : R.Inside w args)
include ha

/-- The body of a function does not make the debt higher. -/
lemma settles_callClosure (hstmt : (settles R B k).Stmts ev) {f : Closure} (hf : R.Inside w f) :
    R.Settles B 0 k w fun n => (ev n).callClosure σ.config.arity f args :=
  (settles R B k).callClosure hf
    (fun _ hw _ hd _ => .of_contained (.bindArguments _ f hd (ha.mono hw)))
    fun _ _ _ hd _ => (settles R B k).answer (hstmt.execAll hd f.literal.body)
      fun _ _ => .of_contained (.raise _)

/-- The builtin that catches errors makes it higher by the price of a step, and the others do what
the calls do that they make. -/
lemma settles_runNative (hcatch : R.allows .attempt → B.price = 1) {g : ScopeRef}
    (hg : R.Inside w g) {n : Native} (hn : R.allows n)
    (hcall : R.Settles B B.price k w fun i => (ev i).call (args.getD 0 .nil) args.tail) :
    R.Settles B B.price k w fun i => (ev i).runNative g n args := by
  have hleaf : ¬ n.CallsBack → n ≠ .steps →
      R.Settles B B.price k w fun i => (ev i).runNative g n args := by
    intro hback hsteps
    simp only [runNative_eq_stuck hback]
    exact .of_primitive (.runNative hback hsteps hn hg (fun _ _ => trivial) ha stuck)
  cases n with
  | apply => exact hcall
  | attempt =>
    have hattempt := hcall.attempt B.price_le
    rw [← hcatch hn] at hattempt
    exact hattempt.bind_contained B.price_le
      fun _ _ _ hr => (Primitive.reported (B := anyName) hr).contained
  | steps =>
    exact .of_zero ((settles R B k).map (.of_contained .stepsTaken)
      fun _ _ _ _ => inside_of_node?_eq_none rfl)
  | _ => exact hleaf (by decide) (by decide)

lemma settles_enter (hcatch : R.allows .attempt → B.price = 1)
    (hglobals : .scope σ.globals ∈ R.start) (hstmt : (settles R B k).Stmts ev) {f : Value}
    (hf : R.Inside w f) (hcall : ∀ w', w ≤ w' →
      R.Settles B B.price k w' fun n => (ev n).call (args.getD 0 .nil) args.tail) :
    R.Settles B B.price k w fun n => (ev n).enter σ f args := by
  simp only [enter_eq_limited]
  refine Settles.limited ?_ _
  have hscope : ∀ w', (settles R B k).Holds w' fun _ => Action.create fun st => st.newScope none :=
    fun w' => .of_primitive (.newScope inside_none)
  cases f with
  | function r =>
    simp only [execute_function_eq]
    have hr : R.Has w (.function r) := hf.has rfl
    exact .of_zero (Settles.bind (.of_contained (.readClosure hr))
      fun _ hw _ hg => settles_callClosure (ha.mono hw) hstmt hg)
  | builtin r =>
    have hr : R.Has w (.builtin r) := hf.has rfl
    refine Settles.bind (hscope w) fun w₁ hw₁ _ _ => ?_
    refine Settles.bind (.of_primitive (.readBuiltin (hr.mono hw₁))) fun w₂ hw₂ b hb => ?_
    exact settles_runNative (ha.mono (hw₁.trans hw₂)) hcatch (.inl hglobals) hb
      (hcall w₂ (hw₁.trans hw₂))
  | _ =>
    exact Settles.bind (hscope w) fun w' hw _ _ =>
      .of_primitive (.refuse _ (hf.mono hw))

end

/-! ### The levels -/

section

variable (hglobals : .scope σ.globals ∈ R.start)
include hglobals

/-- Only targets in parentheses are written to without a step, and these get smaller. -/
lemma settles_assigns (hexpr : (settles R B k).Exprs fun n => level σ n) :
    (settles R B k).Assigns fun n => level σ n := by
  intro w c v hc hv target
  induction hsize : sizeOf target using Nat.strong_induction_on generalizing target with
  | _ size ih =>
    have hsound := fun n => (Law.sounds_level (fun _ => hglobals) n).assign hc hv target
    have hinner : ∀ inner, target.kind = .paren inner →
        (settles R B k).Holds w fun n => (level σ n).assign inner v c := by
      intro inner hk
      refine ih (sizeOf inner) ?_ inner rfl
      obtain ⟨span, kind⟩ := target
      cases hk
      simp at hsize
      omega
    exact .shift hsound (.blame (hexpr.assignTarget hc hv target hinner) target.span)

/-- Only builtins call without a step, and these pass on one argument less. -/
lemma settles_calls (hcatch : R.allows .attempt → B.price = 1)
    (hstmt : (settles R B k).Stmts fun n => level σ n) {f : Value} (hf : R.Inside w f)
    {args : List Value} (ha : R.Inside w args) :
    R.Settles B B.price k w fun n => (level σ n).invoke f args := by
  have hsound : ∀ {w f args}, R.Inside w f → R.Inside w args →
      ∀ n, R.Sound w ((level σ n).invoke f args) :=
    fun hf ha n => (Law.sounds_level (fun _ => hglobals) n).invoke hf ha
  induction args generalizing w f with
  | nil =>
    refine .shift (hsound hf ha) (settles_enter ha hcatch hglobals hstmt hf fun w' _ => ?_)
    exact .of_primitive (.refuse _ (inside_of_node?_eq_none rfl))
  | cons a as ih =>
    refine .shift (hsound hf ha) (settles_enter ha hcatch hglobals hstmt hf fun w' hw => ?_)
    have ha' := ha.mono hw
    exact settles_call (ha' a List.mem_cons_self) fun _ =>
      ih (ha' a List.mem_cons_self) fun v hv => ha' v (List.mem_cons_of_mem a hv)

variable (hlimit : σ.config.stepLimit = some B.limit)
include hlimit

lemma settles_ticks : (settles R B k).Ticks fun n => level σ n := by
  intro w
  have hsound := fun n => (Law.sounds_level (σ := σ) (fun _ => hglobals) n).tick w
  refine .shift hsound ?_
  simpa only [level_succ, above, hlimit] using Settles.tick

/-- The rounds of a loop take steps, and the loop has as many rounds as its level. -/
lemma settles_loops : (settles R B k).Loops fun n => level σ n := by
  intro β _ w x h
  refine ⟨fun n => ?_, fun s hs hg hk hroom => ?_⟩
  · have hx : (Law.sounds fun {_} (_ : R.allows _) => hglobals).Holds w fun _ => x n := h.sound n
    exact (Law.sounds_level (σ := σ) (fun _ => hglobals) n).loops hx
  · have hloop : ∀ n, Action.repeated (do (level σ n).tick; x n) (level σ n).rounds =
        Action.repeated (do Action.tick (some B.limit); x n) n := by
      intro n
      cases n with
      | zero => rfl
      | succ n => rw [rounds_level, level_succ, above, hlimit]
    simp only [hloop]
    exact Settles.repeated h s hs hg hk hroom

/-- With a step limit evaluators settle, whatever is left of the steps that may be granted. -/
theorem settled_level (hcatch : R.allows .attempt → B.price = 1) (k : Nat) :
    R.Settled B k fun n => level σ n := by
  have hsound := Law.sounds_level (R := R) (σ := σ) fun _ => hglobals
  induction k using Nat.strong_induction_on with
  | _ k ih =>
    -- an expression or a statement takes a step before it does anything else
    have hexpr : (settles R B k).Exprs fun n => level σ n := by
      intro w c hc e
      refine .shift (fun n => (hsound n).expr hc e) (.blame ?_ e.span)
      rw [hlimit]
      exact .after_tick (fun n => (hsound n).evalKind hc e.kind)
        fun j hj => (ih j hj).evalKind hc e.kind
    have hstmt : (settles R B k).Stmts fun n => level σ n := by
      intro w c hc s
      refine .shift (fun n => (hsound n).stmt hc s) (.blame ?_ s.span)
      rw [hlimit]
      exact .after_tick (fun n => (hsound n).execKind hc s.kind)
        fun j hj => .of_zero ((ih j hj).execKind hc s.kind)
    exact {
      tick := settles_ticks hglobals hlimit
      loops := settles_loops hglobals hlimit
      expr := hexpr
      assign := settles_assigns hglobals hexpr
      stmt := hstmt
      invoke := fun _ _ _ hf ha => settles_calls hglobals hcatch hstmt hf ha }

end

variable {st : Store} {h : st.Intact}

/-- What settles ends, if there is room. -/
lemma Settles.ends {α : Type} [Placed α] {i : Interpreter} {d : Nat} {task : Evaluator → Action α}
    (htask : ∀ k, (whole st h).Settles B d k st fun n => task (Evaluator.level i.toSetting n))
    (hroom : B.debt i.steps < B.room) (hchains : ∀ c, st.Has (.scope c) → st.Rooted c) :
    ∃ o, i.Ends st task o := by
  obtain ⟨o, ⟨ho, n, hn⟩, -⟩ := (htask (B.last - i.steps + 1)).settles (i.start st)
    ⟨le_rfl, valid_base _⟩ (grounded_whole hchains) (Nat.lt_succ_self _) hroom
  exact ⟨o, ho, n, hn n le_rfl⟩

end Region

open Region Evaluator

/-- With a step limit everything ends: programs, expressions, statements and calls.  The store is
intact, as the stores of hosts are, and the scopes and values are of the store.  The limit leaves
room in the counter: it is not the largest one, and if errors may be caught it is in the lower
half. -/
theorem stepLimit_terminates (i : Interpreter) (limit : UInt64)
    (hlimit : i.config.stepLimit = some limit) (st : Store) (hst : st.Intact)
    (hchains : ∀ c, st.Has (.scope c) → st.Rooted c) (hglobals : st.Has (.scope i.globals))
    (hroom : limit.toNat + 1 < 2 ^ 63 ∨ limit.toNat + 1 < 2 ^ 64 ∧
      ∀ r, st.Has (.builtin r) → (st.builtin r).native ≠ .attempt) :
    (∀ program, ∃ o, i.Ends st (fun ev => ev.runFrom i.globals .nil program) o) ∧
    (∀ c, st.Has (.scope c) →
      (∀ e, ∃ o, i.Ends st (fun ev => ev.expr e c) o) ∧
      (∀ s, ∃ o, i.Ends st (fun ev => ev.stmt s c) o) ∧
      (∀ body, ∃ o, i.Ends st (fun ev => ev.execAll c body) o) ∧
      (∀ body, ∃ o, i.Ends st (fun ev => ev.execBlock c body) o)) ∧
    (∀ f args, (∀ v ∈ f :: args, ∀ n, v.node? = some n → st.Has n) →
      ∃ o, i.Ends st (fun ev => ev.call f args) o) := by
  -- a refused step has a price where it may be caught
  obtain ⟨B, rfl, hcatch, hdebt⟩ : ∃ B : Budget, B.limit = limit ∧
      ((whole st hst).allows .attempt → B.price = 1) ∧ B.debt i.steps < B.room := by
    rcases hroom with hroom | ⟨hroom, hnone⟩
    · obtain ⟨B, hB, hprice, hdebt⟩ := Budget.exists_budget limit i.steps le_rfl (.inl hroom)
      exact ⟨B, hB, fun _ => hprice, hdebt⟩
    · obtain ⟨B, hB, -, hdebt⟩ :=
        Budget.exists_budget limit i.steps (Nat.zero_le 1) (.inr ⟨hroom, rfl⟩)
      exact ⟨B, hB, fun ⟨r, hr, hcatch⟩ => absurd hcatch (hnone r hr), hdebt⟩
  have hsettled := settled_level (R := whole st hst) hglobals hlimit hcatch
  refine ⟨fun program => ?_, fun c hc => ⟨fun e => ?_, fun s => ?_, fun body => ?_, fun body => ?_⟩,
    fun f args hvs => ?_⟩
  · have hnil : (whole st hst).Inside st Value.nil := inside_of_node?_eq_none rfl
    exact Settles.ends (fun k => (hsettled k).runFrom (.inl hglobals) hnil program) hdebt hchains
  · exact Settles.ends (fun k => (hsettled k).expr (.inl hc) e) hdebt hchains
  · exact Settles.ends (fun k => (hsettled k).stmt (.inl hc) s) hdebt hchains
  · exact Settles.ends (fun k => (hsettled k).stmt.execAll (.inl hc) body) hdebt hchains
  · exact Settles.ends (fun k => (hsettled k).stmt.execBlock (.inl hc) body) hdebt hchains
  · have hin : ∀ v ∈ f :: args, (whole st hst).Inside st v :=
      fun v hv n hn => .inl (hvs v hv n hn)
    exact Settles.ends (fun k => (hsettled k).call (hin f List.mem_cons_self)
      fun v hv => hin v (List.mem_cons_of_mem f hv)) hdebt hchains

/-- A loop without header that calls an endless recursion, and catches its failure, ends. -/
theorem stepLimit_terminates_catching :
    let f : Expr := .synthetic (.identifier "f")
    let program : List Stmt := [
      .synthetic (.function ⟨some "f", [], [.ofExpr (.synthetic (.call f []))]⟩),
      .synthetic (.loop none none none
        [.ofExpr (.synthetic (.call (.synthetic (.identifier "try")) [f]))])]
    let i := (Interpreter.create { stepLimit := some 50 } {}).1
    let st := i.defineBuiltin (Interpreter.create { stepLimit := some 50 } {}).2 ⟨"try", .attempt⟩
    st.Intact ∧ (∀ c, st.Has (.scope c) → st.Rooted c) ∧ st.Has (.scope i.globals) ∧
      ∃ o, i.Ends st (fun ev => ev.runFrom i.globals .nil program) o := by
  intro f program i st
  have hst : st.Intact := i.intact_defineBuiltin
    (Interpreter.intact_create Store.intact_empty _) _
  have hchains : ∀ c, st.Has (.scope c) → st.Rooted c := by
    rintro ⟨index⟩ hc
    obtain rfl : index = 0 := Nat.lt_one_iff.mp hc
    exact ⟨0, .root rfl⟩
  have hglobals : st.Has (.scope i.globals) := by decide
  have hends := stepLimit_terminates i 50 rfl st hst hchains hglobals (.inl (by decide))
  exact ⟨hst, hchains, hglobals, hends.1 program⟩

/-- With the largest limit a loop without header and body does not end. -/
theorem stepLimit_largest_endless :
    let config : Config := { stepLimit := some 0xFFFFFFFFFFFFFFFF }
    let i := (Interpreter.create config {}).1
    let st := (Interpreter.create config {}).2
    st.Intact ∧ (∀ c, st.Has (.scope c) → st.Rooted c) ∧ st.Has (.scope i.globals) ∧
      ¬ ∃ o, i.Ends st (fun ev => ev.runFrom i.globals .nil [.synthetic (.loop none none none [])])
        o := by
  intro config i st
  have hst : st.Intact := Interpreter.intact_create Store.intact_empty _
  have hchains : ∀ c, st.Has (.scope c) → st.Rooted c := by
    rintro ⟨index⟩ hc
    obtain rfl : index = 0 := Nat.lt_one_iff.mp hc
    exact ⟨0, .root rfl⟩
  refine ⟨hst, hchains, by decide, ?_⟩
  rintro ⟨o, ho⟩
  obtain ⟨hfinished, n, hn⟩ := (Interpreter.create {} {}).1.ends_largestLimit_iff.mp ho
  exact hfinished (hn.symm.trans
    (runFrom_of_unfinished (fun _ he => by cases he) .nil [] (stmt_emptyLoop rfl n _)))

/-- With the limit below it a loop does not end that catches the one step that is refused in each
turn of the counter. -/
theorem stepLimit_caught_endless :
    let config : Config := { stepLimit := some 0xFFFFFFFFFFFFFFFE }
    let i := (Interpreter.create config {}).1
    let st := i.defineBuiltin (Interpreter.create config {}).2 ⟨"try", .attempt⟩
    let tryLoop : Expr := .synthetic
      (.call (.synthetic (.identifier "try")) [.synthetic (.identifier "f")])
    let program : List Stmt := [
      .synthetic (.function ⟨some "f", [], [.synthetic (.loop none none none [])]⟩),
      .synthetic (.loop none (some tryLoop) none [])]
    ¬ ∃ o, i.Ends st (fun ev => ev.runFrom i.globals .nil program) o := by
  intro config i st tryLoop program
  rintro ⟨o, ho, n, hn⟩
  cases n with
  | zero => exact ho hn.symm
  | succ n =>
    let literal : FunctionLit := ⟨some "f", [], [emptyLoop]⟩
    -- the first step defines the function
    obtain ⟨s, hnext, hstore, hdepth, hsteps⟩ : ∃ s,
        (level i.toSetting (n + 1)).stmt (.synthetic (.function literal)) i.globals (i.start st) =
          .value .next s ∧
        s.store = (st.newClosure ⟨literal, i.globals⟩).2.define i.globals "f" (.function ⟨0⟩) ∧
        s.depth = 0 ∧ s.steps = 1 := ⟨_, rfl, rfl, rfl, rfl⟩
    have hloop : (level i.toSetting (n + 1)).stmt (catchingLoop "try" "f") i.globals s =
        .unfinished := by
      refine stmt_catchingLoop (b := ⟨0⟩) (f := ⟨0⟩) rfl (n + 1) (hstore ▸ ?_) (hstore ▸ ?_)
        (hstore ▸ ?_) (hstore ▸ ?_) (hstore ▸ ?_) (hstore ▸ ?_) (hstore ▸ ?_) ?_ ?_
      · decide
      · decide
      · decide
      · rfl
      · rfl
      · rfl
      · exact ⟨rfl, rfl⟩
      · unfold State.Grants
        omega
      · rw [hdepth]
        decide
    have hrun : (level i.toSetting (n + 1)).runFrom i.globals .nil program (i.start st) =
        (level i.toSetting (n + 1)).runFrom i.globals .nil [catchingLoop "try" "f"] s :=
      runFrom_of_next (fun _ he => by cases he) .nil _ hnext
    refine ho (hn.symm.trans (hrun.trans ?_))
    exact runFrom_of_unfinished (fun _ he => by cases he) .nil [] hloop

end TreeWalk
