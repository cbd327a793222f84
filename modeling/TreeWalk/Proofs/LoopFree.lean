/-
# Only loops can go on for ever

A program without loops ends, with a value or with an error, whatever functions it calls, if the
functions of the store have no loops either (`loopFree_terminates`).  No step limit is needed: the
depth of calls is bounded, so that the number `d` of calls that may still be made inside of each
other gets smaller with each call, and what is executed between two calls is a part of a tree.  The
proof is by induction on `d` (`returns_calls`) and for every `d` by induction on the parts of
expressions (`returns_expr`) and statements (`returns_stmt`).
-/
import TreeWalk.Proofs.Congruence.Calls
import TreeWalk.Proofs.Intact
import TreeWalk.Proofs.Settling
import TreeWalk.Proofs.StoredCode

namespace TreeWalk

/-- The tree is no loop. -/
def Tree.noLoop : Tree → Bool
  | .stmt s => !s.kind.isLoop
  | _ => true

/-- There are no loops anywhere in the tree, the bodies of functions included. -/
def Tree.LoopFree (t : Tree) : Prop := t.Everywhere fun u => u.noLoop = true

/-- No function of the store has a loop in it. -/
def Store.LoopFree (st : Store) : Prop :=
  ∀ r, st.Has (.function r) → (Tree.literal (st.closure r).literal).LoopFree

lemma Tree.LoopFree.isLoop {s : Stmt} (h : (Tree.stmt s).LoopFree) : s.kind.isLoop = false := by
  simpa only [noLoop, Bool.not_eq_true'] using h.here

namespace Region

variable {R : Region} {max : UInt64} {d : Nat} {w w' : Store} {α β : Type} [Placed α] [Placed β]

/-- The actions settle, in stores without loops, from every state in which no more than `d` calls
may be made inside of each other; and there are no loops in the store afterwards. -/
def Returns (R : Region) (max : UInt64) (d : Nat) (w : Store) (x : Nat → Action α) : Prop :=
  ∀ s, R.From w s → R.Grounded s.store → s.store.LoopFree → max.toNat ≤ s.depth + d →
    ∃ o, SettlesAt (fun n => x n s) o ∧ R.Safe Store.LoopFree (fun _ => True) s o

namespace Returns

lemma weaken {x : Nat → Action α} (h : R.Returns max d w x) (hw : w ≤ w') :
    R.Returns max d w' x :=
  fun s hs => h s (hs.mono hw)

/-- An action that always ends, and is the same at all levels. -/
lemma of_ends {p : Action α} (hends : ∀ s, R.From w s → R.Grounded s.store → p s ≠ .unfinished)
    (hsafe : ∀ s, R.From w s → s.store.LoopFree →
      R.Safe Store.LoopFree (fun _ => True) s (p s)) : R.Returns max d w fun _ => p := by
  intro s hs hg hfree _
  exact ⟨p s, .const (hends s hs hg), hsafe s hs hfree⟩

lemma of_primitive {p : Action α} (hp : R.Primitive anyName w p) : R.Returns max d w fun _ => p :=
  of_ends hp.contained.ends fun _ hs hfree => .of_primitive hp (fun _ _ => trivial) hs hfree

lemma stepsTaken : R.Returns max d w fun _ => Action.stepsTaken := by
  refine of_ends (Contained.stepsTaken (R := R) (w := w)).ends fun s hs hfree => ?_
  exact .value (.refl hs.valid) trivial hfree

lemma tick (limit : Option UInt64) : R.Returns max d w fun _ => Action.tick limit := by
  refine of_ends (fun s _ _ => ?_) fun s hs hfree => .tick limit hs hfree fun _ => trivial
  cases limit with
  | none => simp [Action.tick_none]
  | some l =>
    rw [Action.tick_some]
    split <;> simp

lemma bind {x : Nat → Action α} {f : Nat → α → Action β} (h : R.Returns max d w x)
    (hf : ∀ w', w ≤ w' → ∀ a, R.Inside w' a → R.Returns max d w' fun n => f n a) :
    R.Returns max d w fun n => x n >>= f n := by
  intro s hs hg hfree hd
  obtain ⟨o, ho, hsafe⟩ := h s hs hg hfree hd
  cases hsafe with
  | @value a t run inside store =>
    -- the calls that `x` made have been left, so that as many as before may be made
    have hdepth : max.toNat ≤ t.depth + d := by rwa [run.depth]
    obtain ⟨o', ho', hsafe'⟩ := hf t.store (hs.run run).le a inside t ⟨le_rfl, run.valid⟩
      (run.grounded hg) store hdepth
    exact ⟨o', ho.bind_value ho', .of_run run hsafe'⟩
  | error run store fault => exact ⟨_, ho.bind_error, .error run store fault⟩
  | unfinished => exact absurd rfl ho.1

lemma blame {x : Nat → Action α} (h : R.Returns max d w x) (span : Span) :
    R.Returns max d w fun n => Action.blame span (x n) := by
  intro s hs hg hfree hd
  obtain ⟨o, ho, hsafe⟩ := h s hs hg hfree hd
  refine ⟨Action.blame span (fun _ => o) s, ho.map (g := fun o => Action.blame span (fun _ => o) s)
    ?_, Safe.blame (x := fun _ => o) hsafe span⟩
  cases hsafe with
  | unfinished => exact absurd rfl ho.1
  | _ => simp [Action.blame]

lemma attempt {x : Nat → Action α} (h : R.Returns max d w x) :
    R.Returns max d w fun n => Action.attempt (x n) := by
  intro s hs hg hfree hd
  obtain ⟨o, ho, hsafe⟩ := h s hs hg hfree hd
  refine ⟨Action.attempt (fun _ => o) s, ho.map (g := fun o => Action.attempt (fun _ => o) s)
    ?_, Safe.attempt (x := fun _ => o) hsafe⟩
  cases hsafe with
  | unfinished => exact absurd rfl ho.1
  | _ => simp [Action.attempt]

/-- One call more may be made before the call than in it. -/
lemma limited_succ {x : Nat → Action α} (h : R.Returns max d w x) :
    R.Returns max (d + 1) w fun n => Action.limited max (x n) := by
  intro s hs hg hfree hd
  simp only [Action.limited_apply]
  by_cases hmax : max.toNat ≤ s.depth
  · simp only [if_pos hmax]
    exact ⟨_, .const (by simp), .error (.refl hs.valid) hfree trivial⟩
  · simp only [if_neg hmax]
    obtain ⟨o, ho, hsafe⟩ := h { s with depth := s.depth + 1 } ⟨hs.le, hs.valid⟩ hg hfree
      (by simp only; omega)
    refine ⟨Action.nested (fun _ => o) s, ho.map (g := fun o => Action.nested (fun _ => o) s)
      ?_, Safe.nested (x := fun _ => o) hsafe⟩
    cases hsafe with
    | unfinished => exact absurd rfl ho.1
    | _ => simp [Action.nested]

/-- Where no call may be made all calls are refused. -/
lemma limited_zero {x : Nat → Action α} :
    R.Returns max 0 w fun n => Action.limited max (x n) := by
  intro s hs _ hfree hd
  simp only [Action.limited_apply, if_pos (show max.toNat ≤ s.depth by omega)]
  exact ⟨_, .const (by simp), .error (.refl hs.valid) hfree trivial⟩

/-- It is harder to settle when more calls may be made. -/
lemma of_succ {x : Nat → Action α} (h : R.Returns max (d + 1) w x) : R.Returns max d w x :=
  fun s hs hg hfree hd => h s hs hg hfree (by omega)

/-- What a level leaves to the level below settles if that does. -/
lemma shift {x : Nat → Action α} (h : R.Returns max d w fun n => x (n + 1)) :
    R.Returns max d w x := by
  intro s hs hg hfree hd
  obtain ⟨o, ho, hsafe⟩ := h s hs hg hfree hd
  exact ⟨o, ho.shift, hsafe⟩

/-- The function that is made of a literal without loops has none. -/
lemma newClosure {c : ScopeRef} (hc : R.Inside w c) {l : FunctionLit}
    (hl : (Tree.literal l).LoopFree) :
    R.Returns max d w fun _ => Action.create fun st => st.newClosure ⟨l, c⟩ :=
  of_ends (Contained.newClosure (f := ⟨l, c⟩) hc).ends fun _ hs hfree =>
    .newClosure (f := ⟨l, c⟩) hc hl hs hfree

/-- What is read of a function of a store without loops has none. -/
lemma readClosure {r : FunctionRef} (hr : R.Inside w r) {x : Nat → Closure → Action α}
    (h : ∀ w', w ≤ w' → ∀ f, R.Inside w' f → (Tree.literal f.literal).LoopFree →
      R.Returns max d w' fun n => x n f) :
    R.Returns max d w fun n => Action.read (fun st => st.closure r) >>= x n := by
  intro s hs hg hfree hd
  have hinside : R.Inside s.store (s.store.closure r) := hs.valid.closure (hr.mono hs.le)
  have hl : (Tree.literal (s.store.closure r).literal).LoopFree :=
    Store.AllCode.closure hfree rfl r
  exact h s.store hs.le _ hinside hl s ⟨le_rfl, hs.valid⟩ hg hfree hd

end Returns

end Region

namespace Congruence

open Region Evaluator

variable {R : Region} {σ : Setting}

/-- The congruence of evaluations in stores without loops that settle while no more than `d` calls
are made inside of each other. -/
def returns (σ : Setting) (hglobals : .scope σ.globals ∈ R.start) (d : Nat) :
    Congruence R (fun _ : Nat => σ) where
  Holds w x := R.Returns σ.config.maxCallDepth d w x
  weaken hx hw := hx.weaken hw
  leaf hp := .of_primitive hp
  stepsTaken _ := .stepsTaken
  bind hx hf := hx.bind hf
  blame span _ hx := hx.blame span
  limited hx := hx.limited_succ.of_succ
  attempt _ hx := hx.attempt
  globals _ := same_globals hglobals
  arguments f _ _ hc _ ha := .of_primitive (.bindArguments _ f hc ha fun _ => trivial)

variable (hglobals : .scope σ.globals ∈ R.start) {d : Nat} {w : Store} {c : ScopeRef}

lemma returns_ticks : (returns σ hglobals d).Ticks fun n => level σ n :=
  fun _ => .shift (.tick _)

lemma returns_makeFunction (hc : R.Inside w c) {l : FunctionLit}
    (hl : (Tree.literal l).LoopFree) :
    (returns σ hglobals d).Holds w fun _ => Evaluator.makeFunction c l :=
  (returns σ hglobals d).makeFunction hc (fun _ => rfl) (fun _ _ => trivial) (.newClosure hc hl)

section

variable (hcalls : (returns σ hglobals d).Calls fun n => level σ n)
include hcalls

/-- Expressions and targets without loops settle if calls do. -/
lemma returns_expr (e : Expr) (he : (Tree.expr e).LoopFree) :
    (∀ ⦃w c⦄, R.Inside w c → (returns σ hglobals d).Holds w fun n => (level σ n).expr e c) ∧
    ∀ ⦃w c⦄ ⦃v : Value⦄, R.Inside w c → R.Inside w v →
      (returns σ hglobals d).Holds w fun n => (level σ n).assign e v c := by
  induction e using Expr.partsInduction with
  | h e ih =>
    have hparts : ∀ e' ∈ e.kind.parts, (Tree.expr e').LoopFree := fun _ he' => he.expr_part he'
    have hexpr : ∀ ⦃w c⦄, R.Inside w c →
        (returns σ hglobals d).Holds w fun n => (level σ n).expr e c := by
      intro w c hc
      refine .shift (.blame (.bind (.tick _) fun w' hw _ _ => ?_) e.span)
      refine (returns σ hglobals d).evalKind (hc.mono hw) e.kind (fun _ => hcalls)
        (fun e' he' => (ih e' he' (hparts e' he')).1 (hc.mono hw))
        (fun e' he' w'' hw' v hv =>
          (ih e' he' (hparts e' he')).2 (hc.mono (hw.trans hw')) hv) fun l hl => ?_
      obtain ⟨span, kind⟩ := e
      cases hl
      exact returns_makeFunction hglobals (hc.mono hw) (he.function rfl)
    refine ⟨hexpr, fun w c v hc hv => .shift (.blame ?_ e.span)⟩
    refine (returns σ hglobals d).assignTarget hc hv e (hexpr hc)
      (fun e' he' => (ih e' he' (hparts e' he')).1 hc) fun inner hk => ?_
    have hinner : inner ∈ e.kind.parts := by simp [hk, ExprKind.parts]
    exact (ih inner hinner (hparts inner hinner)).2 hc hv

/-- Statements without loops settle if calls do. -/
lemma returns_stmt (s : Stmt) (hs : (Tree.stmt s).LoopFree) ⦃w : Store⦄ ⦃c : ScopeRef⦄
    (hc : R.Inside w c) : (returns σ hglobals d).Holds w fun n => (level σ n).stmt s c := by
  induction s using Stmt.partsInduction generalizing w c with
  | h s ih =>
    refine .shift (.blame (.bind (.tick _) fun w' hw _ _ => ?_) s.span)
    refine (returns σ hglobals d).execKind (hc.mono hw) s.kind (fun hloop => ?_)
      (fun e he _ _ _ hd _ => (returns_expr hglobals hcalls e (hs.stmt_expr he)).1 hd)
      (fun s' hs' _ _ _ hd _ => ih s' hs' (hs.stmt_stmt hs') hd) (fun _ _ _ => trivial)
      fun l hl => ?_
    · rw [hs.isLoop] at hloop
      cases hloop
    · obtain ⟨span, kind⟩ := s
      cases hl
      exact returns_makeFunction hglobals (hc.mono hw) (hs.function rfl)

/-- The call of a function settles when as many calls as before may be made in it. -/
lemma returns_callClosure {r : FunctionRef} (hr : R.Inside w r) {args : List Value}
    (ha : R.Inside w args) : (returns σ hglobals d).Holds w fun n => (do
      let f ← Action.read fun st => st.closure r
      (level σ n).callClosure σ.config.arity f args : Action Value) := by
  refine .readClosure hr fun w' hw f hf hl => ?_
  show (returns σ hglobals d).Holds w' fun n => (level σ n).callClosure σ.config.arity f args
  refine (returns σ hglobals d).callClosure hf (ha.mono hw) fun w'' hw' c hc _ => ?_
  refine (returns σ hglobals d).answer ?_ fun _ _ => ?_
  · exact (returns σ hglobals d).execAll f.literal.body
      fun s hs => returns_stmt hglobals hcalls s (hl.body hs) hc
  · exact .of_ends (fun _ _ _ => by simp [Action.raise])
      fun _ hs hfree => .error (.refl hs.valid) hfree trivial

end

/-- Calls settle, however many of them may be made inside of each other. -/
lemma returns_calls (d : Nat) : (returns σ hglobals d).Calls fun n => level σ n := by
  intro w f args hf ha
  cases d with
  | zero => exact .shift .limited_zero
  | succ d =>
    have hcalls := returns_calls d
    refine .shift (.limited_succ ((returns σ hglobals d).execute hf ha (fun r hr => ?_) ?_))
    · subst hr
      exact returns_callClosure hglobals hcalls (hf.has rfl) ha
    · intro w' hw
      exact (returns σ hglobals d).call (inside_getD (ha.mono hw) 0) fun _ =>
        hcalls (inside_getD (ha.mono hw) 0) (inside_tail (ha.mono hw))

/-- Programs without loops settle. -/
lemma returns_runFrom {program : List Stmt} (hprogram : (Tree.program program).LoopFree)
    (hc : R.Inside w c) {last : Value} (hlast : R.Inside w last) :
    (returns σ hglobals d).Holds w fun n => (level σ n).runFrom c last program := by
  have hcalls := returns_calls (R := R) (σ := σ) hglobals d
  have hstmt : ∀ s ∈ program, (Tree.stmt s).LoopFree := fun s hs => hprogram.body hs
  refine (returns σ hglobals d).runFrom (returns_ticks hglobals) hc hlast program
    (fun s hs e he => ?_) (fun s hs => returns_stmt hglobals hcalls s (hstmt s hs) hc)
    fun w' span => ?_
  · have he' : (Tree.expr e).LoopFree := (hstmt s hs).stmt_expr (by simp [he, StmtKind.exprs])
    exact (returns_expr hglobals hcalls e he').1 hc
  · exact .blame (.of_ends (fun _ _ _ => by simp)
      fun _ hs hfree => .error (.refl hs.valid) hfree trivial) span

end Congruence

open Region

/-- A program without loops ends in every store whose functions have no loops, whatever limits
there are: calls can neither go on for ever nor be made inside of each other without end, be it
that a function calls itself, that functions call one another, or that builtins call them and catch
their failures.  The store is intact, as the stores of hosts are. -/
theorem loopFree_terminates (i : Interpreter) (st : Store) (hst : st.Intact)
    (hchains : ∀ c, st.Has (.scope c) → st.Rooted c) (hglobals : st.Has (.scope i.globals))
    (hstore : st.LoopFree) (program : List Stmt) (hprogram : (Tree.program program).LoopFree) :
    ∃ o, i.Ends st (fun ev => ev.runFrom i.globals .nil program) o := by
  have hnil : (whole st hst).Inside st Value.nil := inside_of_node?_eq_none rfl
  have hreturns := Congruence.returns_runFrom (R := whole st hst) (σ := i.toSetting) hglobals
    (d := i.config.maxCallDepth.toNat) hprogram (.inl hglobals) hnil
  obtain ⟨o, ⟨ho, n, hn⟩, -⟩ := hreturns (i.start st) ⟨le_rfl, valid_base _⟩
    (grounded_whole hchains) hstore (Nat.le_add_left _ _)
  exact ⟨o, ho, n, hn n le_rfl⟩

/-- Two functions that call each other without end, each catching the failures of the other. -/
theorem loopFree_terminates_mutual :
    let call (f g : String) : Stmt := .ofExpr (.synthetic (.call (.synthetic (.identifier f))
      [.synthetic (.identifier g)]))
    let program : List Stmt := [.synthetic (.function ⟨some "f", [], [call "try" "g"]⟩),
      .synthetic (.function ⟨some "g", [], [call "try" "f", call "try" "f"]⟩), call "try" "f"]
    let i := (Interpreter.create { maxCallDepth := 1000 } {}).1
    let st := i.defineBuiltin (Interpreter.create { maxCallDepth := 1000 } {}).2 ⟨"try", .attempt⟩
    i.config.stepLimit = none ∧ st.Intact ∧ (∀ c, st.Has (.scope c) → st.Rooted c) ∧
      st.Has (.scope i.globals) ∧ st.LoopFree ∧ (Tree.program program).LoopFree ∧
      ∃ o, i.Ends st (fun ev => ev.runFrom i.globals .nil program) o := by
  intro call program i st
  have hst : st.Intact := i.intact_defineBuiltin
    (Interpreter.intact_create Store.intact_empty _) _
  have hchains : ∀ c, st.Has (.scope c) → st.Rooted c := by
    rintro ⟨index⟩ hc
    obtain rfl : index = 0 := Nat.lt_one_iff.mp hc
    exact ⟨0, .root rfl⟩
  have hglobals : st.Has (.scope i.globals) := by decide
  have hstore : st.LoopFree := nofun
  have hprogram : (Tree.program program).LoopFree :=
    Tree.everywhere_of_check (n := 8) (by decide)
  exact ⟨rfl, hst, hchains, hglobals, hstore, hprogram,
    loopFree_terminates i st hst hchains hglobals hstore program hprogram⟩

end TreeWalk
