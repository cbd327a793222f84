/-
# Declarations stay local

What an expression or a statement declares is bound in the scope that it is evaluated in, and what
is declared in a block, a loop, a case of a switch or a call is bound in a scope made for it.  So
the evaluation of a tree leaves all other scopes with the names they have, and adds to its own scope
none but those that the tree declares (`evaluation_declares`).  An assignment may give another value
to a name of any scope, but adds no name to it.
-/
import TreeWalk.Proofs.Congruence.Classes
import TreeWalk.Proofs.Intact
import TreeWalk.Proofs.Spanned
import TreeWalk.Proofs.StoredCode

namespace TreeWalk

/-- All scopes of the first store have the names in the second one that they had, and new ones only
as `B` allows. -/
structure Store.KeepsNames (B : ScopeRef → String → Prop) (base st : Store) : Prop where
  kept : ∀ c name, base.Has (.scope c) → base.hasLocal c name → st.hasLocal c name
  new : ∀ c name, base.Has (.scope c) → st.hasLocal c name → base.hasLocal c name ∨ B c name

/-- From the first store to the second one no scope but `c` gets or loses a name, and `c` gets none
but those that the tree declares. -/
structure Store.Declares (t : Tree) (c : ScopeRef) (st st' : Store) : Prop where
  other : ∀ d, st.Has (.scope d) → d ≠ c → ∀ name, st'.hasLocal d name = st.hasLocal d name
  kept : ∀ name, st.hasLocal c name → st'.hasLocal c name
  new : ∀ name, st'.hasLocal c name → st.hasLocal c name ∨ t.Declares name

namespace Store

variable {st : Store}

/-- The scope that a search ends in binds the name. -/
lemma hasLocal_of_search {c d : ScopeRef} {name : String} {v : Value}
    (h : st.search c name = .found (d, v)) : st.hasLocal d name := by
  rw [hasLocal, Std.TreeMap.contains_eq_isSome_getElem?, symbols_of_search h]
  rfl

lemma hasLocal_define (c d : ScopeRef) (name name' : String) (v : Value) :
    (st.define c name v).hasLocal d name' =
      (decide (c = d ∧ d.index < st.scopes.size ∧ name = name') || st.hasLocal d name') := by
  rw [hasLocal, hasLocal, scope_define]
  by_cases hd : c = d ∧ d.index < st.scopes.size
  · have hname : (compare name name' == Ordering.eq) = decide (name = name') := by
      rw [Bool.eq_iff_iff, beq_iff_eq, Std.compare_eq_iff_eq, decide_eq_true_iff]
    simp [hd, Std.TreeMap.contains_insert, hname]
  · rw [if_neg hd]
    have hno : ¬ (c = d ∧ d.index < st.scopes.size ∧ name = name') := fun h => hd ⟨h.1, h.2.1⟩
    simp [hno]

namespace KeepsNames

variable {B : ScopeRef → String → Prop} {base st' : Store}

lemma refl : KeepsNames B base base where
  kept _ _ _ h := h
  new _ _ _ h := .inl h

/-- Only the names of scopes are looked at. -/
lemma of_hasLocal (h : KeepsNames B base st)
    (hlocal : ∀ c, base.Has (.scope c) → ∀ name, st'.hasLocal c name = st.hasLocal c name) :
    KeepsNames B base st' where
  kept c name hc hname := by
    rw [hlocal c hc]
    exact h.kept c name hc hname
  new c name hc hname := by
    rw [hlocal c hc] at hname
    exact h.new c name hc hname

/-- A name is bound that may be bound in the scope, or is bound there anyway. -/
lemma define (h : KeepsNames B base st) {c : ScopeRef} {name : String} (v : Value)
    (hname : B c name ∨ st.hasLocal c name) : KeepsNames B base (st.define c name v) where
  kept d name' hd hname' := by
    rw [hasLocal_define, h.kept d name' hd hname', Bool.or_true]
  new d name' hd hname' := by
    rw [hasLocal_define, Bool.or_eq_true, decide_eq_true_iff] at hname'
    rcases hname' with ⟨rfl, -, rfl⟩ | hname'
    · rcases hname with hB | hlocal
      · exact .inr hB
      · exact h.new c name hd hlocal
    · exact h.new d name' hd hname'

/-- A new scope is none of those that were there. -/
lemma newScope (h : KeepsNames B base st) (hle : base ≤ st) (parent : Option ScopeRef) :
    KeepsNames B base (st.newScope parent).2 := by
  refine h.of_hasLocal fun c hc name => ?_
  have hne : c ≠ (st.newScope parent).1 := by
    rintro rfl
    exact (st.makes_newScope parent).fresh (has_of_le hle hc)
  rw [hasLocal, hasLocal, scope_newScope, if_neg hne]

end KeepsNames

end Store

namespace Region

variable {R : Region} {B : ScopeRef → String → Prop} {w : Store} {α : Type} [Placed α]

/-- A primitive action binds names as it may. -/
lemma Primitive.keepsNames {p : Action α} (hp : R.Primitive B w p) {s t : State}
    (hs : R.From w s) (hI : R.base.KeepsNames B s.store) (ht : (p s).EndsIn t) :
    R.base.KeepsNames B t.store := by
  induction hp generalizing s t with
  | pure _ => cases ht; exact hI
  | raise _ => cases ht; exact hI
  | read _ _ _ => cases ht; exact hI
  | search hc name =>
    rw [Action.search_apply] at ht
    cases hfound : s.store.search _ name <;> rw [hfound] at ht <;> cases ht <;> exact hI
  | define hc name hv hname =>
    cases ht
    exact hI.define _ (.inl hname)
  | assign hc name hv =>
    unfold Action.assign at ht
    cases hfound : s.store.search _ name with
    | found r =>
      rw [hfound] at ht
      cases ht
      exact hI.define _ (.inr (Store.hasLocal_of_search hfound))
    | unbound => rw [hfound] at ht; cases ht; exact hI
    | endless => rw [hfound] at ht; cases ht
  | setEntry _ _ _ => cases ht; exact hI.of_hasLocal fun _ _ _ => rfl
  | pushElement _ _ _ => cases ht; exact hI.of_hasLocal fun _ _ _ => rfl
  | setElement _ _ _ => cases ht; exact hI.of_hasLocal fun _ _ _ => rfl
  | freshScope _ =>
    cases ht
    exact hI.newScope hs.valid.le _
  | newObject _ _ _ => cases ht; exact hI.of_hasLocal fun _ _ _ => rfl
  | newArray _ => cases ht; exact hI.of_hasLocal fun _ _ _ => rfl
  | bind hp _ ihp ihf =>
    have hk := hp.contained.sound s hs
    rcases Action.endsIn_bind ht with ⟨a, u, ho, hu⟩ | he
    · have hI' := ihp hs hI (.of_value ho)
      rw [ho] at hk
      cases hk with
      | value run inside =>
        exact ihf u.store (hs.run run).le a inside ⟨le_rfl, run.valid⟩ hI' hu
    · exact ihp hs hI he
  | blame _ _ span ih => exact ih hs hI (Action.endsIn_blame ht)

/-- The actions that keep the names of the scopes there were, and add to them as they may. -/
def Declaring (R : Region) (B : ScopeRef → String → Prop) (w : Store) (x : Action α) : Prop :=
  R.Watched (R.base.KeepsNames B) (fun _ => True) w x x

namespace Declaring

lemma of_contained {p : Action α} (hp : R.Contained w p)
    (hnames : ∀ s t, R.From w s → R.base.KeepsNames B s.store → (p s).EndsIn t →
      R.base.KeepsNames B t.store) : R.Declaring B w p where
  safe s hs hI := .of_kept (hp.sound s hs) (fun t _ ht => hnames s t hs hI ht) fun _ _ _ => trivial
  same _ _ _ := rfl

lemma of_primitive {p : Action α} (hp : R.Primitive B w p) : R.Declaring B w p :=
  of_contained hp.contained fun _ _ hs hI ht => hp.keepsNames hs hI ht

lemma newClosure {f : Closure} (hf : R.Inside w f) :
    R.Declaring B w (Action.create fun st => st.newClosure f) := by
  refine of_contained (.newClosure hf) fun s t _ hI ht => ?_
  cases ht
  exact hI.of_hasLocal fun _ _ _ => rfl

/-- What changes no cell binds no name. -/
lemma still {f : State → Except EvalError α} (hf : R.Contained w (Action.still f)) :
    R.Declaring B w (Action.still f) := by
  refine of_contained hf fun s t _ hI ht => ?_
  rw [Action.still_apply] at ht
  cases hs : f s <;> rw [hs] at ht <;> cases ht <;> exact hI

end Declaring

end Region

namespace Congruence

open Region Evaluator

variable {R : Region} {σ : Setting} {B : ScopeRef → String → Prop}

/-- The congruence of evaluations that add to the scopes there were none but some names, where no
builtin binds any. -/
def declaring (σ : Setting) (hnew : ∀ {c} (name : String), R.New c → B c name)
    (hdefine : ¬ R.allows .defineGlobal)
    (hglobals : ∀ {n}, R.allows n → .scope σ.globals ∈ R.start) :
    Congruence R (fun _ : Unit => σ) where
  Holds w x := R.Declaring B w (x ())
  MayBind := B
  mayBind_new := hnew
  mayBind_of_allows h := absurd h hdefine
  weaken hx hw := Watched.weaken hx hw
  leaf hp := .of_primitive hp
  stepsTaken _ := .still (f := fun s => .ok s.counter) .stepsTaken
  bind hx hf := Watched.bind hx hf
  blame span _ hx := Watched.blame hx span
  limited hx := Watched.limited hx trivial
  attempt _ hx := Watched.attempt hx
  globals h := same_globals_of_allows @hglobals h
  arguments f _ _ hc hfresh ha :=
    .of_primitive (.bindArguments _ f hc ha fun name => hnew name hfresh)

variable (hnew : ∀ {c} (name : String), R.New c → B c name) (hdefine : ¬ R.allows .defineGlobal)
  (hglobals : ∀ {n}, R.allows n → .scope σ.globals ∈ R.start) {w : Store} {c : ScopeRef}

/-- A function literal binds no name but its own. -/
lemma declaring_makeFunction (hc : R.Inside w c) {l : FunctionLit}
    (hname : ∀ name, l.name = some name → B c name) :
    (declaring σ hnew hdefine hglobals).Holds w fun _ => Evaluator.makeFunction c l :=
  (declaring σ hnew hdefine hglobals).makeFunction hc (fun _ => rfl) hname
    (Declaring.newClosure (f := ⟨l, c⟩) hc)

/-- A call binds names in its own scope, which is new. -/
lemma declaring_call {P : Tree → Prop} {ev : Unit → Evaluator}
    (hev : (declaring σ hnew hdefine hglobals).Obeys P ev) (hP : ∀ t : Tree, t.Everywhere P)
    {r : FunctionRef} (hr : R.Inside w r) {args : List Value} (ha : R.Inside w args) :
    (declaring σ hnew hdefine hglobals).Holds w fun i => (do
      let f ← Action.read fun st => st.closure r
      (ev i).callClosure σ.config.arity f args : Action Value) := by
  have hread : R.Declaring B w (Action.read fun st => st.closure r) :=
    .still (f := fun s => .ok (s.store.closure r)) (.readClosure hr)
  refine Watched.bind hread fun w' hw f hf => ?_
  show (declaring σ hnew hdefine hglobals).Holds w' fun i =>
    (ev i).callClosure σ.config.arity f args
  refine (declaring σ hnew hdefine hglobals).callClosure hf (ha.mono hw)
    fun w'' hw' d hd hfresh => ?_
  refine (declaring σ hnew hdefine hglobals).answer (hev.execAll hd hfresh fun s _ => hP _)
    fun _ _ => ?_
  exact .still (f := fun _ => .error (.ofFault .strayBreak)) (.raise _)

lemma declaring_level (n : Nat) :
    (declaring σ hnew hdefine hglobals).Obeys (fun _ => True) fun _ => level σ n := by
  induction n with
  | zero => exact .stuck fun _ => Watched.unfinished
  | succ n ih =>
    have hloops := (declaring σ hnew hdefine hglobals).loops_above (fun _ => level σ n)
      (fun _ => Watched.unfinished) (fun _ => Watched.tick _ fun _ => trivial)
      fun _ => rounds_level σ n
    rw [level_succ]
    exact ih.above (fun _ _ hc _ hname _ => declaring_makeFunction hnew hdefine hglobals hc hname)
      (fun _ => Watched.tick _ fun _ => trivial) hloops
      fun _ _ _ hr ha => declaring_call hnew hdefine hglobals ih (fun _ _ _ => trivial) hr ha

end Congruence

open Region

/-- When the evaluation of an expression or the execution of a statement in a scope ends, with a
value or with an error, then all other scopes have the same names as before, and the scope has its
names and in addition none but those that the tree declares.  No builtin that can be reached from
the scope binds names; and if there are any others, then none does that can be reached from the
globals, which builtins may look at. -/
theorem evaluation_declares (i : Interpreter) (st : Store) (c : ScopeRef) (hc : st.Has (.scope c))
    (hdefine : ∀ r, st.Reaches (.scope c) (.builtin r) → (st.builtin r).native ≠ .defineGlobal)
    (hglobals : ∀ r r', st.Reaches (.scope c) (.builtin r) →
      st.Reaches (.scope i.globals) (.builtin r') → (st.builtin r').native ≠ .defineGlobal) :
    (∀ e o s, i.Ends st (fun ev => ev.expr e c) o → o.EndsIn s →
      st.Declares (.expr e) c s.store) ∧
    (∀ x o s, i.Ends st (fun ev => ev.stmt x c) o → o.EndsIn s →
      st.Declares (.stmt x) c s.store) := by
  let R := Region.spanned st
    (fun m => m = .scope c ∨ (m = .scope i.globals ∧ ∃ r, st.Reaches (.scope c) (.builtin r)))
    (fun n => n ≠ .defineGlobal ∧ ∃ r, st.Reaches (.scope c) (.builtin r)) (by
      rintro m r (rfl | ⟨rfl, r₀, hr₀⟩) hr
      · exact ⟨hdefine r hr, r, hr⟩
      · exact ⟨hglobals r₀ r hr₀ hr, r₀, hr₀⟩)
  have hstart : R.Inside st c := .inl ⟨_, .inl rfl, .refl⟩
  have hlevel := fun (t : Tree) n => Congruence.declaring_level (R := R) (σ := i.toSetting)
    (B := fun d name => R.New d ∨ d = c ∧ t.Declares name) (fun _ h => .inl h) (fun h => h.1 rfl)
    (fun h => ⟨_, .inr ⟨rfl, h.2⟩, .refl⟩) n
  -- the names that may be bound in the scopes there are, are those that the tree declares
  have hread : ∀ (t : Tree) {α : Type} [Placed α] {x : Action α} {s : State},
      R.Declaring (fun d name => R.New d ∨ d = c ∧ t.Declares name) st x →
      (x (i.start st)).EndsIn s → st.Declares t c s.store := by
    intro t α _ x s hx hs
    have hsafe := hx.safe (i.start st) ⟨le_rfl, R.valid_base⟩ Store.KeepsNames.refl
    have hnames : st.KeepsNames _ s.store := (hsafe.run_store hs).2
    refine ⟨fun d hd hne name => Bool.eq_iff_iff.mpr ⟨fun h => ?_, hnames.kept d name hd⟩,
      fun name => hnames.kept c name hc, fun name h => ?_⟩
    · rcases hnames.new d name hd h with hold | hnew | ⟨heq, -⟩
      · exact hold
      · exact absurd hd hnew
      · exact absurd heq hne
    · rcases hnames.new c name hc h with hold | hnew | ⟨-, hname⟩
      · exact .inl hold
      · exact absurd hc hnew
      · exact .inr hname
  refine ⟨fun e o s h hs => ?_, fun x o s h hs => ?_⟩
  · obtain ⟨-, n, rfl⟩ := h
    refine hread (.expr e) ((hlevel (.expr e) n).expr hstart ?_ fun _ _ => trivial) hs
    exact fun name hname => .inr ⟨rfl, hname⟩
  · obtain ⟨-, n, rfl⟩ := h
    refine hread (.stmt x) ((hlevel (.stmt x) n).stmt hstart ?_ fun _ _ => trivial) hs
    exact fun name hname => .inr ⟨rfl, hname⟩

/-- A choice whose condition calls a function with a named literal for its argument, and which then
executes a loop: of what is declared on the way only the name of the literal stays. -/
theorem evaluation_declares_literal :
    let f : FunctionLit := ⟨some "f", ["x"], [.synthetic (.declare "y" none),
      .synthetic (.ret (some (.synthetic (.identifier "x"))))]⟩
    let g : FunctionLit := ⟨some "g", [], []⟩
    let loop : Stmt := .synthetic (.loop (some (.synthetic (.declare "i" none))) none none
      [.synthetic (.declare "j" none), .synthetic .leave])
    let choice : Stmt := .synthetic (.branch (.synthetic (.call (.synthetic (.identifier "f"))
      [.synthetic (.function g)])) loop none)
    let i := (Interpreter.create {} {}).1
    let made := (Interpreter.create {} {}).2.newClosure ⟨f, i.globals⟩
    let st := made.2.define i.globals "f" (.function made.1)
    st.Has (.scope i.globals) ∧
    (∀ r, st.Reaches (.scope i.globals) (.builtin r) → (st.builtin r).native ≠ .defineGlobal) ∧
    ∃ s, i.Ends st (fun ev => ev.stmt choice i.globals) (.value .next s) ∧
      st.Declares (.stmt choice) i.globals s.store ∧
      s.store.names i.globals = ["f", "g"] := by
  intro f g loop choice i made st
  have hst : st.Intact :=
    (Interpreter.intact_create Store.intact_empty {}).defineFunction (by decide) _ _
  have hglobals : st.Has (.scope i.globals) := by decide
  have hnone := hst.not_reaches_builtin rfl hglobals
  obtain ⟨flow, s, hrun, hs⟩ := Interpreter.Ends.of_passes i st
    (fun ev => ev.stmt choice i.globals)
    (fun flow s => decide (flow = Flow.next ∧ s.store.names i.globals = ["f", "g"])) 9
    (by decide +kernel)
  obtain ⟨rfl, hnames⟩ := of_decide_eq_true hs
  have hdeclares := (evaluation_declares i st i.globals hglobals
    (fun r hr => absurd hr (hnone r)) fun r _ hr _ => absurd hr (hnone r)).2 choice _ s hrun
      (.value _ s)
  exact ⟨hglobals, fun r hr => absurd hr (hnone r), s, hrun, hdeclares, hnames⟩

end TreeWalk
