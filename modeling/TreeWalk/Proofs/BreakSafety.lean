/-
# Breaks that are never stray

A program fails with a stray `break` only if there is a loose one, in the program or in a function
that it can come to call.  If neither the program nor any function literal in it has a loose
`break`, and no function of the store nor any literal inside of its body has one, then no part of
the run fails so, and the functions that the store has afterwards are again without loose breaks
(`run_without_looseBreak`).  What has to be asked of the bodies of stored functions is asked of all
literals in them: a call may make a function of each
(`looseBreak_in_nested_literal`).
-/
import TreeWalk.Proofs.Congruence.Classes
import TreeWalk.Proofs.Intact
import TreeWalk.Proofs.LooseBreaks
import TreeWalk.Proofs.Spanned
import TreeWalk.Proofs.StoredCode

namespace TreeWalk

namespace Tree

/-- The tree is no function literal with a loose `break` in its body. -/
def takesBreaks : Tree → Bool
  | .literal l => !looseIn l.body
  | _ => true

/-- No function literal in the tree has a loose `break` in its body. -/
def Tidy (t : Tree) : Prop := t.Everywhere fun u => u.takesBreaks = true

lemma Tidy.not_loose {l : FunctionLit} (h : (Tree.literal l).Tidy) : looseIn l.body = false := by
  simpa only [takesBreaks, Bool.not_eq_true'] using h.here

end Tree

/-- No function of the store has a loose `break` in its body, nor has any function literal in it. -/
def Store.Tidy (st : Store) : Prop :=
  ∀ r, st.Has (.function r) → (Tree.literal (st.closure r).literal).Tidy

/-- The outcome is no failure because of a `break` outside of everything that takes one. -/
def Watch.noStrayBreak : Watch := fun _ _ o => ∀ e t, o = .error e t →
  ¬ (e.kind = .generic ∧ e.message = "break outside of loop or switch")

/-- The fault of a stray `break` can be told from all other ones that no builtin made. -/
lemma Region.MayRaise.not_stray {R : Region} (hR : ∀ n, ¬ R.allows n) {fault : Fault}
    (h : R.MayRaise fault) :
    ¬ (fault.kind = .generic ∧ fault.message = "break outside of loop or switch") := by
  rintro ⟨hkind, hmessage⟩
  cases fault with
  | strayBreak => exact h
  | raised k m => exact h.elim (hR _) (hR _)
  | newUnsupported => exact absurd hmessage (by decide)
  | badConfig => exact absurd hmessage (by decide)
  | _ => cases hkind

namespace Region

variable {R : Region} {w : Store} {α : Type} [Placed α]

/-- What is safe is no failure because of a stray `break`. -/
lemma Safe.noStrayBreak (hR : ∀ n, ¬ R.allows n) {I : Store → Prop} {s : State} {o : Outcome α}
    (h : R.Safe I R.MayRaise s o) : Watch.noStrayBreak α s o := by
  rintro e t rfl
  exact h.fault.not_stray hR

end Region

namespace Congruence

open Region Evaluator

variable {R : Region} {σ : Setting}

/-- The congruence of evaluations in tidy stores, where there are no builtins, whether or not the
parts are watched. -/
def tidy (σ : Setting) (hR : ∀ n, ¬ R.allows n) : Congruence R (fun _ : Bool => σ) where
  Holds w x := R.Watched Store.Tidy R.MayRaise w (x false) (x true)
  weaken hx hw := hx.weaken hw
  leaf hp := .of_primitive hp fun _ h => h
  stepsTaken hsteps := absurd hsteps (hR _)
  bind hx hf := hx.bind hf
  blame span _ hx := hx.blame span
  limited hx := hx.limited trivial
  attempt hattempt := absurd hattempt (hR _)
  globals hn := absurd hn (hR _)
  arguments f _ _ hc _ ha :=
    .of_primitive (B := anyName) (.bindArguments _ f hc ha fun _ => trivial) fun _ h => h

variable (hR : ∀ n, ¬ R.allows n) (alarm : Alarm) {w : Store} {c : ScopeRef}

lemma tidy_makeFunction (hc : R.Inside w c) {l : FunctionLit} (hl : (Tree.literal l).Tidy) :
    (tidy σ hR).Holds w fun _ => Evaluator.makeFunction c l :=
  (tidy σ hR).makeFunction hc (fun _ => rfl) (fun _ _ => trivial)
    (Watched.newClosure (f := ⟨l, c⟩) hc hl)

/-- A body that is not left by a loose `break` has an answer. -/
lemma tidy_answer {ev : Bool → Evaluator}
    (havoids : ∀ s, s.loose = false → ∀ c, ((ev false).stmt s c).Avoids .leave) {body : List Stmt}
    (hloose : looseIn body = false)
    (hbody : (tidy σ hR).Holds w fun b => (ev b).execAll c body) :
    (tidy σ hR).Holds w fun b => (ev b).answer c body := by
  refine Watched.bind_values hbody fun w' hw flow hflow ⟨s, t, h⟩ => ?_
  cases flow with
  | next => exact .pure (inside_of_node?_eq_none rfl)
  | leave => exact absurd h (avoids_execAll havoids hloose c s t)
  | ret v => exact .pure (hflow v rfl)

lemma tidy_call {ev : Bool → Evaluator} (hev : (tidy σ hR).Obeys (fun t => t.takesBreaks = true) ev)
    (havoids : ∀ s, s.loose = false → ∀ c, ((ev false).stmt s c).Avoids .leave) {r : FunctionRef}
    (hr : R.Inside w r) {args : List Value} (ha : R.Inside w args) :
    (tidy σ hR).Holds w fun b => (do
      let f ← Action.read fun st => st.closure r
      (ev b).callClosure σ.config.arity f args : Action Value) := by
  refine Watched.readClosure (P := fun t => t.takesBreaks = true) rfl hr
    fun w' hw f hf (htidy : (Tree.literal f.literal).Tidy) => ?_
  show (tidy σ hR).Holds w' fun b => (ev b).callClosure σ.config.arity f args
  refine (tidy σ hR).callClosure hf (ha.mono hw) fun w'' hw' d hd hnew => ?_
  exact tidy_answer hR havoids htidy.not_loose (hev.execAll hd hnew fun s hs => htidy.body hs)

/-- To watch out for stray breaks makes no difference. -/
lemma tidy_watched {P : Tree → Prop} {ev : Bool → Evaluator} (hev : (tidy σ hR).Obeys P ev) :
    (tidy σ hR).Obeys P fun b =>
      cond b ((ev true).watched .noStrayBreak alarm) (ev false) where
  tick w := hev.tick w
  loops _ _ _ _ hx := hev.loops hx
  expr _ _ hc _ hn he := (hev.expr hc hn he).watched alarm fun _ => Safe.noStrayBreak hR
  assign _ _ _ hc hv _ hn ht :=
    (hev.assign hc hv hn ht).watched alarm fun _ => Safe.noStrayBreak hR
  stmt _ _ hc _ hn hs := (hev.stmt hc hn hs).watched alarm fun _ => Safe.noStrayBreak hR
  invoke _ _ _ hf ha := (hev.invoke hf ha).watched alarm fun _ => Safe.noStrayBreak hR

lemma tidy_level (n : Nat) : (tidy σ hR).Obeys (fun t => t.takesBreaks = true) fun b =>
    cond b (watchedLevel .noStrayBreak alarm σ n) (level σ n) := by
  induction n with
  | zero => exact tidy_watched hR alarm (.stuck fun _ => Watched.unfinished)
  | succ n ih =>
    have hloops := (tidy σ hR).loops_above
      (fun b => cond b (watchedLevel .noStrayBreak alarm σ n) (level σ n))
      (fun _ => Watched.unfinished) (fun _ => Watched.tick _ fun _ => trivial)
      (rounds_watchedLevel _ alarm σ n)
    have habove := ih.above (fun _ _ hc _ _ hl => tidy_makeFunction hR hc hl)
      (fun _ => Watched.tick _ fun _ => trivial) hloops
      fun _ _ _ hr ha => tidy_call hR ih (fun _ hs c => avoids_level σ n hs c) hr ha
    rw [level_succ]
    exact tidy_watched hR alarm habove

/-- A program without a loose `break` never comes to the failure because of one. -/
lemma tidy_runFrom (n : Nat) (hc : R.Inside w c) {program : List Stmt}
    (hloose : looseIn program = false) (htidy : ∀ s ∈ program, (Tree.stmt s).Tidy) {last : Value}
    (hlast : R.Inside w last) : (tidy σ hR).Holds w fun b =>
      (cond b (watchedLevel .noStrayBreak alarm σ n) (level σ n)).runFrom c last program := by
  have hev := tidy_level (R := R) (σ := σ) hR alarm n
  induction program generalizing w last with
  | nil => exact Watched.pure hlast
  | cons s rest ih =>
    obtain ⟨hs, hrest⟩ := looseIn_cons.mp hloose
    have hrest' := fun s' hs' => htidy s' (List.mem_cons_of_mem s hs')
    have hstmt := htidy s List.mem_cons_self
    by_cases hkind : ∃ e, s.kind = .expr e
    · obtain ⟨e, he⟩ := hkind
      have hexpr : (Tree.expr e).Tidy := hstmt.stmt_expr (by simp [he, StmtKind.exprs])
      exact (tidy σ hR).runFrom_expr (fun _ => he) last hev.tick
        (fun w' hw => hev.expr (hc.mono hw) (fun _ _ => trivial) hexpr)
        fun w' hw v hv => ih (hc.mono hw) hrest hrest' hv
    · simp only [runFrom_cons _ _ fun e he => hkind ⟨e, he⟩]
      refine Watched.bind_values (hev.stmt hc (fun _ _ => trivial) hstmt)
        fun w' hw flow hflow hends => ?_
      cases flow with
      | next => exact ih (hc.mono hw) hrest hrest' (hlast.mono hw)
      | leave =>
        obtain ⟨u, t, h⟩ := hends
        exact absurd h (avoids_level σ n hs c u t)
      | ret v => exact .pure (hflow v rfl)

end Congruence

open Region Evaluator

/-- A program without loose breaks, in a store whose functions have none, never fails because of a
stray `break`, and no part of it does; its statements do not leave it, in any store; and the
functions that there are afterwards have no loose breaks again. -/
theorem run_without_looseBreak (i : Interpreter) (st : Store) (program : List Stmt)
    (hnative : ∀ r, ¬ st.Reaches (.scope i.globals) (.builtin r))
    (hloose : looseIn program = false) (hprogram : ∀ s ∈ program, (Tree.stmt s).Tidy)
    (hstore : st.Tidy) :
    (∀ o, i.Ends st (fun ev => ev.runFrom i.globals .nil program) o →
      Watch.noStrayBreak _ (i.start st) o) ∧
    i.Throughout st (fun ev => ev.runFrom i.globals .nil program) .noStrayBreak ∧
    (∀ s ∈ program, ∀ (j : Interpreter) (st' : Store) (c : ScopeRef) (t : State),
      ¬ j.Ends st' (fun ev => ev.stmt s c) (.value .leave t)) ∧
    (∀ o s, i.Ends st (fun ev => ev.runFrom i.globals .nil program) o → o.EndsIn s →
      s.store.Tidy) := by
  let R := Region.spanned st (· = .scope i.globals) (fun _ => False)
    fun _ r hm hr => hnative r (hm ▸ hr)
  have hglobals : R.Inside st i.globals := .inl ⟨_, rfl, .refl⟩
  have hnil : R.Inside st Value.nil := inside_of_node?_eq_none rfl
  have hfrom : R.From st (i.start st) := ⟨le_rfl, R.valid_base⟩
  have hrun := fun alarm n => Congruence.tidy_runFrom (R := R) (σ := i.toSetting)
    (fun _ h => h) alarm n hglobals hloose hprogram hnil
  have hsome : Alarm := fun _ _ => .unfinished
  refine ⟨?_, fun alarm n => (hrun alarm n).same _ hfrom hstore, ?_, ?_⟩
  · rintro o ⟨-, n, rfl⟩
    exact Safe.noStrayBreak (R := R) (fun _ h => h) ((hrun hsome n).safe _ hfrom hstore)
  · rintro s hs j st' c t ⟨-, n, hn⟩
    exact avoids_level j.toSetting n (loose_of_mem hloose hs) c _ t hn
  · rintro o s ⟨-, n, rfl⟩ hs
    exact (((hrun hsome n).safe _ hfrom hstore).run_store hs).2

/-- A function with a `break` in a loop and one in a switch. -/
theorem run_without_looseBreak_taken :
    let n : Expr := .synthetic (.identifier "n")
    let leave : List Stmt := [.synthetic .leave]
    let f : FunctionLit := ⟨some "f", ["n"], [.synthetic (.loop none none none leave),
      .synthetic (.switch n [⟨some (.synthetic (.number 7)), leave⟩]),
      .synthetic (.ret (some n))]⟩
    let program : List Stmt := [.synthetic (.function f),
      .ofExpr (.synthetic (.call (.synthetic (.identifier "f")) [.synthetic (.number 7)]))]
    let i := (Interpreter.create {} {}).1
    let st := (Interpreter.create {} {}).2
    (∀ r, ¬ st.Reaches (.scope i.globals) (.builtin r)) ∧ looseIn program = false ∧
      (∀ s ∈ program, (Tree.stmt s).Tidy) ∧ st.Tidy ∧
      ∃ s, i.Ends st (fun ev => ev.runFrom i.globals .nil program) (.value (.number 7) s) ∧
        s.store.Has (.function ⟨0⟩) ∧ s.store.Tidy := by
  intro n leave f program i st
  have hnative : ∀ r, ¬ st.Reaches (.scope i.globals) (.builtin r) := fun r hr => by
    cases Interpreter.reaches_create hr
  have hprogram : ∀ s ∈ program, (Tree.stmt s).Tidy := by
    have hcheck : ∀ s ∈ program, Tree.check Tree.takesBreaks 8 (.stmt s) = true := by decide
    exact fun s hs => Tree.everywhere_of_check (hcheck s hs)
  have hstore : st.Tidy := nofun
  obtain ⟨v, s, hrun, hv⟩ := Interpreter.Ends.of_passes i st
    (fun ev => ev.runFrom i.globals .nil program)
    (fun v s => decide (v = .number 7 ∧ s.store.Has (.function ⟨0⟩))) 9 (by decide +kernel)
  obtain ⟨rfl, hs⟩ := of_decide_eq_true hv
  have hloose : looseIn program = false := by decide
  have hsafe := run_without_looseBreak i st program hnative hloose hprogram hstore
  exact ⟨hnative, hloose, hprogram, hstore, s, hrun, hs, hsafe.2.2.2 _ s hrun (.value _ s)⟩

/-- It is not enough that the bodies of stored functions have no loose `break`, if a literal inside
of one has: the call of `g` makes a function of it, and the call of that one fails. -/
theorem looseBreak_in_nested_literal :
    let inner : FunctionLit := ⟨none, [], [.synthetic .leave]⟩
    let g : FunctionLit :=
      ⟨some "g", [], [.synthetic (.ret (some (.synthetic (.function inner))))]⟩
    let program : List Stmt :=
      [.ofExpr (.synthetic (.call (.synthetic (.call (.synthetic (.identifier "g")) [])) []))]
    let i := (Interpreter.create {} {}).1
    let made := (Interpreter.create {} {}).2.newClosure ⟨g, i.globals⟩
    let st := made.2.define i.globals "g" (.function made.1)
    (∀ r, ¬ st.Reaches (.scope i.globals) (.builtin r)) ∧ looseIn program = false ∧
      (∀ s ∈ program, (Tree.stmt s).Tidy) ∧
      (∀ r, st.Has (.function r) → looseIn (st.closure r).literal.body = false) ∧
      ∃ e s, i.Ends st (fun ev => ev.runFrom i.globals .nil program) (.error e s) ∧
        e.kind = .generic ∧ e.message = "break outside of loop or switch" := by
  intro inner g program i made st
  have hst : st.Intact :=
    (Interpreter.intact_create Store.intact_empty {}).defineFunction (by decide) _ _
  have hnative := hst.not_reaches_builtin (n := .scope i.globals) rfl (by decide)
  have hprogram : ∀ s ∈ program, (Tree.stmt s).Tidy := by
    have hcheck : ∀ s ∈ program, Tree.check Tree.takesBreaks 4 (.stmt s) = true := by decide
    exact fun s hs => Tree.everywhere_of_check (hcheck s hs)
  have hstore : ∀ r, st.Has (.function r) → looseIn (st.closure r).literal.body = false := by
    rintro ⟨index⟩ hr
    obtain rfl : index = 0 := Nat.lt_one_iff.mp hr
    decide
  obtain ⟨e, s, hrun, he⟩ := Interpreter.Ends.of_fails i st
    (fun ev => ev.runFrom i.globals .nil program)
    (fun e => decide (e.kind = .generic ∧ e.message = "break outside of loop or switch")) 8
    (by decide +kernel)
  exact ⟨hnative, by decide, hprogram, hstore, e, s, hrun, of_decide_eq_true he⟩

end TreeWalk
