/-
# Who is blamed for a failure

A failure has no place at first.  It gets the place of the innermost node that it passes on its way
out and that was read from a text; a builtin alone may name a place of its own.  So the error that
an evaluation ends with names the place of a node that is evaluated, in the tree itself or in the
code of a function, and the code of all functions that are called comes from the tree or from a
function that was there at the start (`error_blames_node`).  If the tree was read from a text then
the error has a place.
-/
import TreeWalk.Proofs.Congruence.Classes
import TreeWalk.Proofs.Ending
import TreeWalk.Proofs.Intact
import TreeWalk.Proofs.Spanned
import TreeWalk.Proofs.StoredCode

namespace TreeWalk

/-- An expression or a statement of the tree is at the place, maybe in the body of a function. -/
def Tree.HasSpan (t : Tree) (span : Span) : Prop := ∃ u, t.Contains u ∧ u.span? = some span

/-- The place that the tree has, if it has any and was read from a text, is one of `S`. -/
def Tree.PlacedIn (S : Span → Prop) (t : Tree) : Prop :=
  ∀ span, t.span? = some span → span ≠ .synthetic → S span

namespace EvalError

/-- The place that the error names, if it names any, is one of `S`. -/
def PlacedIn (S : Span → Prop) (e : EvalError) : Prop := ∀ span, e.span = some span → S span

variable {S : Span → Prop} {e : EvalError} {span : Span}

lemma PlacedIn.blame (h : e.PlacedIn S) (hspan : span ≠ .synthetic → S span) :
    (e.blame span).PlacedIn S := by
  by_cases heq : e.blame span = e
  · rwa [heq]
  · intro p hp
    rw [(span_of_blame_ne e span heq).2] at hp
    cases hp
    exact hspan fun hsynthetic => heq ((blame_eq_self_iff e span).mpr (.inl hsynthetic))

lemma placedIn_of_none (h : e.span = none) : e.PlacedIn S := fun span hspan => by
  rw [h] at hspan
  cases hspan

lemma span_blame_ne_none (hspan : span ≠ .synthetic) : (e.blame span).span ≠ none := by
  by_cases heq : e.blame span = e
  · rw [heq]
    exact ((blame_eq_self_iff e span).mp heq).resolve_left hspan
  · rw [(span_of_blame_ne e span heq).2]
    simp

end EvalError

namespace Region

variable {R : Region} {S : Span → Prop} {w w' : Store} {α β : Type} [Placed α] [Placed β]

/-- A primitive action fails without a place, where no builtin names one. -/
lemma Primitive.span_eq_none (hfail : ¬ R.allows .failAt) {B : ScopeRef → String → Prop}
    {p : Action α} (hp : R.Primitive B w p) {s t : State} (hs : R.From w s) {e : EvalError}
    (h : p s = .error e t) : e.span = none := by
  induction hp generalizing s t with
  | raise _ => cases h; rfl
  | search hc name =>
    rw [Action.search_apply] at h
    cases hfound : s.store.search _ name <;> rw [hfound] at h <;> cases h
  | assign hc name hv =>
    unfold Action.assign at h
    cases hfound : s.store.search _ name <;> rw [hfound] at h <;> cases h
  | @bind _ _ _ _ _ p f hp _ ihp ihf =>
    have hk := hp.contained.sound s hs
    rw [Action.bind_apply] at h
    cases ho : p s with
    | value a u =>
      rw [ho] at h hk
      cases hk with
      | value run inside => exact ihf u.store (hs.run run).le a inside ⟨le_rfl, run.valid⟩ h
    | error e' u =>
      rw [ho] at h
      cases h
      exact ihp hs ho
    | unfinished => rw [ho] at h; cases h
  | blame hallows _ _ _ => exact absurd hallows hfail
  | _ => cases h

/-- In a store with all code placed in `S` the action stays with such code, and if it fails then
with an error that is placed in `S`. -/
structure Places (R : Region) (S : Span → Prop) (w : Store) (x : Action α) : Prop where
  watched : R.Watched (Store.AllCode (Tree.PlacedIn S)) (fun _ => True) w x x
  placed : ∀ s, R.From w s → s.store.AllCode (Tree.PlacedIn S) → ∀ e t, x s = .error e t →
    e.PlacedIn S

namespace Places

lemma weaken {x : Action α} (h : R.Places S w x) (hw : w ≤ w') : R.Places S w' x where
  watched := h.watched.weaken hw
  placed s hs := h.placed s (hs.mono hw)

lemma unfinished : R.Places S w (Action.unfinished : Action α) where
  watched := .unfinished
  placed _ _ _ _ _ h := by cases h

lemma of_primitive (hfail : ¬ R.allows .failAt) {B : ScopeRef → String → Prop} {p : Action α}
    (hp : R.Primitive B w p) : R.Places S w p where
  watched := .of_primitive hp fun _ _ => trivial
  placed _ hs _ _ _ h := EvalError.placedIn_of_none (hp.span_eq_none hfail hs h)

/-- What changes no cell and fails without a place. -/
lemma still {f : State → Except EvalError α} (hf : R.Contained w (Action.still f))
    (herror : ∀ s e, f s = .error e → e.span = none) : R.Places S w (Action.still f) := by
  refine ⟨⟨fun s hs hcode => .of_kept (hf.sound s hs) (fun t _ ht => ?_) fun _ _ _ => trivial,
    fun _ _ _ => rfl⟩, fun s _ _ e t h => ?_⟩
  · rw [Action.still_apply] at ht
    cases hs : f s <;> rw [hs] at ht <;> cases ht <;> exact hcode
  · rw [Action.still_apply] at h
    cases hs : f s with
    | ok a => rw [hs] at h; cases h
    | error e' =>
      rw [hs] at h
      cases h
      exact EvalError.placedIn_of_none (herror s _ hs)

lemma raise (fault : Fault) : R.Places S w (Action.raise fault : Action α) :=
  .still (f := fun _ => .error (.ofFault fault)) (.raise fault) fun _ _ h => by cases h; rfl

lemma newClosure {f : Closure} (hf : R.Inside w f)
    (hl : (Tree.literal f.literal).Everywhere (Tree.PlacedIn S)) :
    R.Places S w (Action.create fun st => st.newClosure f) where
  watched := .newClosure hf hl
  placed _ _ _ _ _ h := by cases h

lemma bind {x : Action α} {f : α → Action β} (h : R.Places S w x)
    (hf : ∀ w', w ≤ w' → ∀ a, R.Inside w' a → R.Places S w' (f a)) :
    R.Places S w (x >>= f) where
  watched := h.watched.bind fun w' hw a ha => (hf w' hw a ha).watched
  placed s hs hcode e t he := by
    have hsafe := h.watched.safe s hs hcode
    rw [Action.bind_apply] at he
    cases ho : x s with
    | value a u =>
      rw [ho] at he hsafe
      cases hsafe with
      | value run inside hcode' =>
        exact (hf u.store (hs.run run).le a inside).placed u ⟨le_rfl, run.valid⟩ hcode' e t he
    | error e' u =>
      rw [ho] at he
      cases he
      exact h.placed s hs hcode _ _ ho
    | unfinished => rw [ho] at he; cases he

/-- The code of a function that is read is placed in `S`. -/
lemma readClosure {r : FunctionRef} (hr : R.Inside w r) {x : Closure → Action α}
    (h : ∀ w', w ≤ w' → ∀ f, R.Inside w' f →
      (Tree.literal f.literal).Everywhere (Tree.PlacedIn S) → R.Places S w' (x f)) :
    R.Places S w (Action.read (fun st => st.closure r) >>= x) where
  watched := Watched.readClosure nofun hr fun w' hw f hf hl => (h w' hw f hf hl).watched
  placed s hs hcode :=
    (h s.store hs.le _ (hs.valid.closure (hr.mono hs.le)) (hcode.closure nofun r)).placed s
      ⟨le_rfl, hs.valid⟩ hcode

lemma blame {x : Action α} (h : R.Places S w x) {span : Span}
    (hspan : span ≠ .synthetic → S span) : R.Places S w (Action.blame span x) where
  watched := h.watched.blame span
  placed s hs hcode e t he := by
    rw [Action.blame_apply] at he
    cases ho : x s with
    | value a u => rw [ho] at he; cases he
    | error e' u =>
      rw [ho] at he
      cases he
      exact (h.placed s hs hcode _ _ ho).blame hspan
    | unfinished => rw [ho] at he; cases he

lemma attempt {x : Action α} (h : R.Places S w x) : R.Places S w (Action.attempt x) where
  watched := h.watched.attempt
  placed s hs hcode e t he := by
    rw [Action.attempt_apply] at he
    cases ho : x s <;> rw [ho] at he <;> cases he

lemma limited {x : Action α} (h : R.Places S w x) (max : UInt64) :
    R.Places S w (Action.limited max x) where
  watched := h.watched.limited trivial
  placed s hs hcode e t he := by
    rw [Action.limited_apply] at he
    split at he
    · cases he
      exact EvalError.placedIn_of_none rfl
    · rw [Action.nested_apply] at he
      cases ho : x { s with depth := s.depth + 1 } with
      | value a u => rw [ho] at he; cases he
      | error e' u =>
        rw [ho] at he
        cases he
        exact h.placed { s with depth := s.depth + 1 } ⟨hs.le, hs.valid⟩ hcode _ _ ho
      | unfinished => rw [ho] at he; cases he

lemma tick (limit : Option UInt64) : R.Places S w (Action.tick limit) where
  watched := .tick limit fun _ => trivial
  placed s hs hcode e t he := by
    cases limit with
    | none => cases he
    | some l =>
      rw [Action.tick_some] at he
      split at he <;> cases he
      exact EvalError.placedIn_of_none rfl

end Places

end Region

namespace Congruence

open Region Evaluator

variable {R : Region} {σ : Setting} {S : Span → Prop}

/-- The congruence of evaluations that name places of `S` only, where no builtin names any. -/
def placing (σ : Setting) (S : Span → Prop) (hfail : ¬ R.allows .failAt)
    (hglobals : ∀ {n}, R.allows n → .scope σ.globals ∈ R.start) :
    Congruence R (fun _ : Unit => σ) where
  Holds w x := R.Places S w (x ())
  MayBlame span := span ≠ .synthetic → S span
  weaken hx hw := Places.weaken hx hw
  leaf hp := .of_primitive hfail hp
  stepsTaken _ := .still (f := fun s => .ok s.counter) .stepsTaken fun _ _ h => by cases h
  bind hx hf := Places.bind hx hf
  blame _ hspan hx := Places.blame hx hspan
  limited hx := Places.limited hx _
  attempt _ hx := Places.attempt hx
  globals h := same_globals_of_allows @hglobals h
  arguments f _ _ hc _ ha :=
    .of_primitive (B := anyName) hfail (.bindArguments _ f hc ha fun _ => trivial)

variable (hfail : ¬ R.allows .failAt)
  (hglobals : ∀ {n}, R.allows n → .scope σ.globals ∈ R.start) {w : Store} {c : ScopeRef}

lemma placing_makeFunction (hc : R.Inside w c) {l : FunctionLit}
    (hl : (Tree.literal l).Everywhere (Tree.PlacedIn S)) :
    (placing σ S hfail hglobals).Holds w fun _ => Evaluator.makeFunction c l :=
  (placing σ S hfail hglobals).makeFunction hc (fun _ => rfl) (fun _ _ => trivial)
    (Places.newClosure (f := ⟨l, c⟩) hc hl)

/-- A call names places of the body, whose code is that of a function in the store. -/
lemma placing_call {ev : Unit → Evaluator}
    (hev : (placing σ S hfail hglobals).Obeys (Tree.PlacedIn S) ev) {r : FunctionRef}
    (hr : R.Inside w r) {args : List Value} (ha : R.Inside w args) :
    (placing σ S hfail hglobals).Holds w fun i => (do
      let f ← Action.read fun st => st.closure r
      (ev i).callClosure σ.config.arity f args : Action Value) := by
  refine Places.readClosure hr fun w' hw f hf hl => ?_
  show (placing σ S hfail hglobals).Holds w' fun i => (ev i).callClosure σ.config.arity f args
  refine (placing σ S hfail hglobals).callClosure hf (ha.mono hw) fun w'' hw' d hd hnew => ?_
  exact (placing σ S hfail hglobals).answer (hev.execAll hd hnew fun s hs => hl.body hs)
    fun _ _ => Places.raise _

lemma placing_level (n : Nat) :
    (placing σ S hfail hglobals).Obeys (Tree.PlacedIn S) fun _ => level σ n := by
  induction n with
  | zero => exact .stuck fun _ => Places.unfinished
  | succ n ih =>
    have hloops := (placing σ S hfail hglobals).loops_above (fun _ => level σ n)
      (fun _ => Places.unfinished) (fun _ => Places.tick _) fun _ => rounds_level σ n
    rw [level_succ]
    exact ih.above (fun _ _ hc _ _ hl => placing_makeFunction hfail hglobals hc hl)
      (fun _ => Places.tick _) hloops (fun _ _ _ hr ha => placing_call hfail hglobals ih hr ha)
      fun _ ht span hspan => ht span hspan

end Congruence

open Region Interpreter

/-- When the evaluation of an expression or the execution of a statement fails, and its own place is
one in a text, then the error names a place.  Whatever place the error names is one in a text, and
there is an expression or a statement at it, in the tree, in the body of a function that is written
in the tree, or in the body of a function that the store had at the start.  No builtin that can be
reached from the scope names a place of its own; and if there are any others, then none does that
can be reached from the globals, which builtins may look at. -/
theorem error_blames_node (i : Interpreter) (st : Store) (c : ScopeRef)
    (hfail : ∀ r, st.Reaches (.scope c) (.builtin r) → (st.builtin r).native ≠ .failAt)
    (hglobals : ∀ r r', st.Reaches (.scope c) (.builtin r) →
      st.Reaches (.scope i.globals) (.builtin r') → (st.builtin r').native ≠ .failAt) :
    (∀ e err s, i.Ends st (fun ev => ev.expr e c) (.error err s) →
      (e.span ≠ .synthetic → err.span ≠ none) ∧ ∀ p, err.span = some p → p ≠ .synthetic ∧
        ((Tree.expr e).HasSpan p ∨ ∃ r, st.Has (.function r) ∧
          (Tree.literal (st.closure r).literal).HasSpan p)) ∧
    (∀ x err s, i.Ends st (fun ev => ev.stmt x c) (.error err s) →
      (x.span ≠ .synthetic → err.span ≠ none) ∧ ∀ p, err.span = some p → p ≠ .synthetic ∧
        ((Tree.stmt x).HasSpan p ∨ ∃ r, st.Has (.function r) ∧
          (Tree.literal (st.closure r).literal).HasSpan p)) := by
  let R := Region.spanned st
    (fun m => m = .scope c ∨ (m = .scope i.globals ∧ ∃ r, st.Reaches (.scope c) (.builtin r)))
    (fun n => n ≠ .failAt ∧ ∃ r, st.Reaches (.scope c) (.builtin r)) (by
      rintro m r (rfl | ⟨rfl, r₀, hr₀⟩) hr
      · exact ⟨hfail r hr, r, hr⟩
      · exact ⟨hglobals r₀ r hr₀ hr, r₀, hr₀⟩)
  have hstart : R.Inside st c := .inl ⟨_, .inl rfl, .refl⟩
  -- the places in texts that a tree or the code of the store has
  let S : Tree → Span → Prop := fun t p => p ≠ .synthetic ∧
    (t.HasSpan p ∨ ∃ r, st.Has (.function r) ∧ (Tree.literal (st.closure r).literal).HasSpan p)
  have htree : ∀ t : Tree, t.Everywhere (Tree.PlacedIn (S t)) :=
    fun t u hu p hp hread => ⟨hread, .inl ⟨u, hu, hp⟩⟩
  have hcode : ∀ t, st.AllCode (Tree.PlacedIn (S t)) :=
    fun t r hr u hu p hp hread => ⟨hread, .inr ⟨r, hr, u, hu, hp⟩⟩
  have hlevel := fun t n => Congruence.placing_level (R := R) (σ := i.toSetting) (S := S t)
    (fun h => h.1 rfl) (fun h => ⟨_, .inr ⟨rfl, h.2⟩, .refl⟩) n
  have hfrom : R.From st (i.start st) := ⟨le_rfl, R.valid_base⟩
  refine ⟨fun e err s h => ⟨fun hspan => ?_, ?_⟩, fun x err s h => ⟨fun hspan => ?_, ?_⟩⟩
  · rcases (ends_expr.mp h).of_blame with ⟨_, _, _, ho⟩ | ⟨err', _, _, ho⟩ <;> cases ho
    exact EvalError.span_blame_ne_none hspan
  · obtain ⟨-, n, hn⟩ := h
    exact ((hlevel (.expr e) n).expr hstart (fun _ _ => trivial) (htree _)).placed _ hfrom
      (hcode _) err s hn
  · rcases (ends_stmt.mp h).of_blame with ⟨_, _, _, ho⟩ | ⟨err', _, _, ho⟩ <;> cases ho
    exact EvalError.span_blame_ne_none hspan
  · obtain ⟨-, n, hn⟩ := h
    exact ((hlevel (.stmt x) n).stmt hstart (fun _ _ => trivial) (htree _)).placed _ hfrom
      (hcode _) err s hn

/-- The call of a stored function that calls a number: the error names the inner call, which stands
in the function, and not the outer one. -/
theorem error_blames_node_called :
    let p := Span.point 7 3
    let f : FunctionLit :=
      ⟨some "f", [], [.synthetic (.ret (some ⟨p, .call (.synthetic (.number 1)) []⟩))]⟩
    let e : Expr := ⟨.point 1 1, .call (.synthetic (.identifier "f")) []⟩
    let i := (Interpreter.create {} {}).1
    let made := (Interpreter.create {} {}).2.newClosure ⟨f, i.globals⟩
    let st := made.2.define i.globals "f" (.function made.1)
    (∀ r, st.Reaches (.scope i.globals) (.builtin r) → (st.builtin r).native ≠ .failAt) ∧
    ∃ err s, i.Ends st (fun ev => ev.expr e i.globals) (.error err s) ∧ e.span ≠ .synthetic ∧
      err.kind = .notCallable ∧ err.span = some p ∧ p ≠ .synthetic ∧
      ((Tree.expr e).HasSpan p ∨ ∃ r, st.Has (.function r) ∧
        (Tree.literal (st.closure r).literal).HasSpan p) := by
  intro p f e i made st
  have hst : st.Intact :=
    (Interpreter.intact_create Store.intact_empty {}).defineFunction (by decide) _ _
  have hnone := hst.not_reaches_builtin (n := .scope i.globals) rfl (by decide)
  obtain ⟨err, s, hrun, herr⟩ := Ends.of_fails i st (fun ev => ev.expr e i.globals)
    (fun err => decide (err.kind = .notCallable ∧ err.span = some p)) 6 (by decide +kernel)
  obtain ⟨hkind, hspan⟩ := of_decide_eq_true herr
  have hblames := ((error_blames_node i st i.globals (fun r hr => absurd hr (hnone r))
    fun r _ hr _ => absurd hr (hnone r)).1 e err s hrun).2 p hspan
  exact ⟨fun r hr => absurd hr (hnone r), err, s, hrun, by decide, hkind, hspan, hblames⟩

end TreeWalk
