/-
# Positions never matter

Where the nodes of a program stood in its text makes no difference to what the program does, apart
from the position that an error reports.  Two programs that differ in spans only, run in stores that
differ in the spans of their functions only, come to the same value or to errors of the same kind
with the same message, after the same number of steps, and leave stores that differ in spans only
again (`run_unspan`).  A builtin that answers errors as values would tell the position of an error,
so that none may be reached.

Each program is compared with the one without spans, which both have in common: at every level the
evaluators come to ends that differ in spans only (`Region.Blind`).
-/
import TreeWalk.Proofs.Intact
import TreeWalk.Proofs.Simulation
import TreeWalk.Proofs.Spanless

namespace TreeWalk

/-! ### Stores with other bodies -/

namespace Store

variable {st : Store} (ρ : Recoding)

lemma has_recode (n : Node) : (st.recode ρ).Has n ↔ st.Has n := by
  cases n with
  | function r =>
    show r.index < (st.closures.map (Closure.recode ρ)).size ↔ r.index < st.closures.size
    rw [Heap.size_map]
  | _ => rfl

/-- The body of a function leads nowhere. -/
lemma refers_recode (n m : Node) : ((st.recode ρ).cell n).Refers m ↔ (st.cell n).Refers m := by
  cases n with
  | function r =>
    rw [cell, cell, closure_recode]
    constructor
    · rintro ⟨⟩
      exact .env
    · rintro ⟨⟩
      exact .env
  | _ => rfl

lemma reaches_recode (n m : Node) : (st.recode ρ).Reaches n m ↔ st.Reaches n m := by
  simp only [Reaches, refers_recode]

end Store

/-- What is inside of a region in a store is inside of it when functions have other bodies. -/
lemma Region.From.recode {R : Region} {w : Store} {s s' : State} (hs : R.From w s) {ρ : Recoding}
    (h : s'.store = s.store.recode ρ) : R.From w s' := by
  have hle : s.store ≤ s.store.recode ρ := ⟨fun n => (Store.has_recode ρ n).mpr, rfl⟩
  have hhas : ∀ n, R.Has (s.store.recode ρ) n ↔ R.Has s.store n := fun n => by
    simp only [Region.Has, Store.has_recode]
  refine ⟨h ▸ hs.le.trans hle, h ▸ ⟨hs.valid.le.trans hle, fun n m hn hm => ?_⟩⟩
  rw [hhas] at hn ⊢
  exact hs.valid.closed n m hn ((Store.refers_recode ρ n m).mp hm)

/-! ### States and outcomes -/

/-- The second state is the first one without the spans in the bodies of functions. -/
structure State.Unspans (s s' : State) : Prop where
  store : s'.store = s.store.recode .unspan
  depth : s'.depth = s.depth
  steps : s'.steps = s.steps

lemma State.Unspans.counter {s s' : State} (h : s.Unspans s') : s'.counter = s.counter :=
  congrArg UInt64.ofNat h.steps

lemma State.Unspans.ticked {s s' : State} (h : s.Unspans s') : s.ticked.Unspans s'.ticked :=
  ⟨h.store, h.depth, congrArg (· + 1) h.steps⟩

/-- Two actions have come to the same value, or to errors with the same fault, or neither has come
to an end; the second state is the first one without spans. -/
inductive Outcome.Unspans {α : Type} : Outcome α → Outcome α → Prop
  | value {a : α} {t t' : State} (h : t.Unspans t') : Unspans (.value a t) (.value a t')
  | error {e e' : EvalError} {t t' : State} (fault : e'.fault = e.fault) (h : t.Unspans t') :
      Unspans (.error e t) (.error e' t')
  | unfinished : Unspans .unfinished .unfinished

/-- Two evaluations have come to the same value, or to errors of the same kind with the same
message, after the same number of steps; the stores differ in the spans in the bodies of functions
only. -/
inductive Outcome.SameButSpans {α : Type} : Outcome α → Outcome α → Prop
  | value {a : α} {t t' : State} (store : t.store.recode .unspan = t'.store.recode .unspan)
      (steps : t.steps = t'.steps) : SameButSpans (.value a t) (.value a t')
  | error {e e' : EvalError} {t t' : State} (kind : e.kind = e'.kind)
      (message : e.message = e'.message)
      (store : t.store.recode .unspan = t'.store.recode .unspan) (steps : t.steps = t'.steps) :
      SameButSpans (.error e t) (.error e' t')

namespace Outcome

variable {α : Type} {o o' q : Outcome α}

/-- What is the same without spans differs in spans only. -/
lemma SameButSpans.of_unspans (ho : o ≠ .unfinished) (h : o.Unspans q) (h' : o'.Unspans q) :
    o.SameButSpans o' := by
  cases h with
  | value h =>
    cases h' with
    | value h' => exact .value (h.store.symm.trans h'.store) (h.steps.symm.trans h'.steps)
  | error fault h =>
    cases h' with
    | error fault' h' =>
      have hfault := fault.symm.trans fault'
      exact .error (congrArg Fault.kind hfault) (congrArg Fault.message hfault)
        (h.store.symm.trans h'.store) (h.steps.symm.trans h'.steps)
  | unfinished => exact absurd rfl ho

lemma Unspans.unfinished_iff (h : o.Unspans q) : o = .unfinished ↔ q = .unfinished := by
  cases h <;> simp

end Outcome

namespace Region

variable {R : Region} {w w' : Store} {α β : Type} [Placed α] [Placed β]

/-- The second action does in the state without spans what the first one does, and the first one
stays inside of the region. -/
structure Blind (R : Region) (w : Store) (x y : Action α) : Prop where
  sound : R.Sound w x
  follows : ∀ s s', R.From w s → s.Unspans s' → (x s).Unspans (y s')

namespace Blind

variable {x y : Action α}

lemma weaken (h : R.Blind w x y) (hw : w ≤ w') : R.Blind w' x y where
  sound := h.sound.weaken hw
  follows s s' hs := h.follows s s' (hs.mono hw)

lemma unfinished : R.Blind w (Action.unfinished : Action α) Action.unfinished where
  sound _ _ := .unfinished
  follows _ _ _ _ := .unfinished

/-- No fault comes from a span. -/
lemma raise (fault : Fault) : R.Blind w (Action.raise fault : Action α) (Action.raise fault) where
  sound := (Contained.raise fault).sound
  follows _ _ _ hss := .error rfl hss

lemma stepsTaken : R.Blind w Action.stepsTaken Action.stepsTaken where
  sound := Contained.stepsTaken.sound
  follows s s' _ hss := by
    unfold Action.stepsTaken
    rw [hss.counter]
    exact .value hss

/-- A primitive action takes no notice of the bodies of functions, and takes no step. -/
lemma of_primitive {p : Action α} (hp : R.Primitive anyName w p) : R.Blind w p p where
  sound := hp.contained.sound
  follows s s' hs hss := by
    have hrec := hp.recodes .unspan hs ⟨hss.store, hss.depth⟩
    have hsteps := hp.contained.steps s
    have hsteps' := hp.contained.steps s'
    have hs' := hs.recode hss.store
    generalize p s = o, p s' = o' at hrec hsteps hsteps' ⊢
    cases hrec with
    | @value a t t' h =>
      refine .value ⟨h.store, h.depth, ?_⟩
      rw [hsteps' t' hs' (.value a t'), hsteps t hs (.value a t), hss.steps]
    | @error e t t' h =>
      refine .error rfl ⟨h.store, h.depth, ?_⟩
      rw [hsteps' t' hs' (.error e t'), hsteps t hs (.error e t), hss.steps]
    | unfinished => exact .unfinished

lemma bind (h : R.Blind w x y) {f g : α → Action β}
    (hf : ∀ w', w ≤ w' → ∀ a, R.Inside w' a → R.Blind w' (f a) (g a)) :
    R.Blind w (x >>= f) (y >>= g) where
  sound := h.sound.bind fun w' hw a ha => (hf w' hw a ha).sound
  follows s s' hs hss := by
    have hkept := h.sound s hs
    have hxy := h.follows s s' hs hss
    rw [Action.bind_apply, Action.bind_apply]
    generalize x s = o at hkept hxy ⊢
    generalize y s' = o' at hxy ⊢
    cases hxy with
    | @value a t t' ht =>
      cases hkept with
      | value run inside =>
        exact (hf t.store (hs.run run).le a inside).follows t t' ⟨le_rfl, run.valid⟩ ht
    | error fault ht => exact .error fault ht
    | unfinished => exact .unfinished

/-- Two nodes may be blamed for one fault. -/
lemma blame (h : R.Blind w x y) (span span' : Span) :
    R.Blind w (Action.blame span x) (Action.blame span' y) where
  sound := h.sound.blame span
  follows s s' hs hss := by
    have hxy := h.follows s s' hs hss
    rw [Action.blame_apply, Action.blame_apply]
    generalize x s = o, y s' = o' at hxy ⊢
    cases hxy with
    | value ht => exact .value ht
    | error fault ht =>
      refine .error ?_ ht
      rw [EvalError.fault_blame, EvalError.fault_blame, fault]
    | unfinished => exact .unfinished

lemma limited (h : R.Blind w x y) (max : UInt64) :
    R.Blind w (Action.limited max x) (Action.limited max y) where
  sound := h.sound.limited max
  follows s s' hs hss := by
    have hdeeper : State.Unspans { s with depth := s.depth + 1 }
        { s' with depth := s'.depth + 1 } := ⟨hss.store, congrArg (· + 1) hss.depth, hss.steps⟩
    have hxy := h.follows { s with depth := s.depth + 1 } _ ⟨hs.le, hs.valid⟩ hdeeper
    rw [Action.limited_apply, Action.limited_apply, hss.depth]
    by_cases hmax : max.toNat ≤ s.depth
    · rw [if_pos hmax, if_pos hmax]
      exact .error rfl hss
    · rw [if_neg hmax, if_neg hmax, Action.nested_apply, Action.nested_apply]
      generalize x { s with depth := s.depth + 1 } = o at hxy ⊢
      generalize y { s' with depth := s'.depth + 1 } = o' at hxy ⊢
      cases hxy with
      | value ht => exact .value ⟨ht.store, congrArg (· - 1) ht.depth, ht.steps⟩
      | error fault ht => exact .error fault ⟨ht.store, congrArg (· - 1) ht.depth, ht.steps⟩
      | unfinished => exact .unfinished

lemma tick (limit : Option UInt64) : R.Blind w (Action.tick limit) (Action.tick limit) where
  sound := .tick limit
  follows s s' _ hss := by
    cases limit with
    | none => exact .value hss.ticked
    | some l =>
      rw [Action.tick_some, Action.tick_some, hss.ticked.counter]
      split
      · exact .error rfl hss.ticked
      · exact .value hss.ticked

/-- The two sides make functions with bodies that differ in spans. -/
lemma newClosure {c : ScopeRef} (hc : R.Inside w c) (l : FunctionLit) :
    R.Blind w (Action.create fun st => st.newClosure ⟨l, c⟩)
      (Action.create fun st => st.newClosure ⟨l.unspan, c⟩) where
  sound := (Contained.newClosure (f := ⟨l, c⟩) hc).sound
  follows s s' _ hss := by
    have hmade := s.store.newClosure_recode .unspan ⟨l, c⟩
    have hl : Closure.recode .unspan ⟨l, c⟩ = ⟨l.unspan, c⟩ := by cases l; rfl
    rw [hl] at hmade
    unfold Action.create
    simp only [hss.store, hmade]
    exact .value ⟨rfl, hss.depth, hss.steps⟩

end Blind

end Region

/-! ### One form, with and without spans -/

lemma ExprKind.side_unspan (b : Bool) (kind : ExprKind) : side b kind kind.unspan =
    kind.map (fun e => side b e e.unspan) fun l => side b l l.unspan := by
  cases b with
  | false => exact kind.map_id.symm
  | true => exact kind.unspan_eq_map

lemma StmtKind.side_unspan (b : Bool) (kind : StmtKind) : side b kind kind.unspan =
    kind.map (fun e => side b e e.unspan) (fun s => side b s s.unspan)
      (fun body => side b body (unspanStmts body)) fun l => side b l l.unspan := by
  cases b with
  | false => exact kind.map_id.symm
  | true => exact kind.unspan_eq_map

lemma side_unspanStmts (b : Bool) (body : List Stmt) :
    side b body (unspanStmts body) = body.map fun s => side b s s.unspan := by
  cases b with
  | false => exact (List.map_id' body).symm
  | true => exact unspanStmts_eq body

namespace Positions

open Region Evaluator

variable {R : Region} {σ : Setting} {n : Nat} {w : Store} {c : ScopeRef}

/-- The congruence of evaluations with and without spans, where errors are not caught. -/
@[reducible] def blind (σ : Setting) (hattempt : ¬ R.allows .attempt)
    (hglobals : .scope σ.globals ∈ R.start) : Congruence R (fun _ : Bool => σ) where
  Holds w x := R.Blind w (x false) (x true)
  weaken hx hw := hx.weaken hw
  leaf hp := .of_primitive hp
  stepsTaken _ := .stepsTaken
  bind hx hf := hx.bind hf
  blame span _ hx := hx.blame span span
  limited hx := hx.limited _
  attempt h := absurd h hattempt
  globals _ := Congruence.same_globals hglobals
  arguments f _ _ hc _ ha := .of_primitive (.bindArguments _ f hc ha fun _ => trivial)

/-- The evaluator of the level does the same with trees without spans. -/
structure Sound (R : Region) (σ : Setting) (n : Nat) : Prop where
  expr : ∀ ⦃w : Store⦄ ⦃c : ScopeRef⦄, R.Inside w c → ∀ e : Expr,
    R.Blind w ((level σ n).expr e c) ((level σ n).expr e.unspan c)
  assign : ∀ ⦃w : Store⦄ ⦃c : ScopeRef⦄ ⦃v : Value⦄, R.Inside w c → R.Inside w v →
    ∀ target : Expr, R.Blind w ((level σ n).assign target v c)
      ((level σ n).assign target.unspan v c)
  stmt : ∀ ⦃w : Store⦄ ⦃c : ScopeRef⦄, R.Inside w c → ∀ s : Stmt,
    R.Blind w ((level σ n).stmt s c) ((level σ n).stmt s.unspan c)
  invoke : ∀ ⦃w : Store⦄ ⦃f : Value⦄ ⦃args : List Value⦄, R.Inside w f → R.Inside w args →
    R.Blind w ((level σ n).invoke f args) ((level σ n).invoke f args)

lemma blind_tick (n : Nat) : R.Blind w (level σ n).tick (level σ n).tick := by
  cases n with
  | zero => exact .unfinished
  | succ n => exact .tick _

variable (hattempt : ¬ R.allows .attempt) (hglobals : .scope σ.globals ∈ R.start)

lemma blind_makeFunction (hc : R.Inside w c) (l : FunctionLit) :
    (blind σ hattempt hglobals).Holds w fun b => makeFunction c (side b l l.unspan) := by
  have hname : ∀ b, (side b l l.unspan).name = l.name := fun b => by cases b <;> cases l <;> rfl
  have hnew : (blind σ hattempt hglobals).Holds w fun b =>
      Action.create fun st => st.newClosure ⟨side b l l.unspan, c⟩ := .newClosure hc l
  exact (blind σ hattempt hglobals).makeFunction hc hname (fun _ _ => trivial) hnew

lemma blind_loops (n : Nat) : (blind σ hattempt hglobals).Loops fun _ => level σ n := by
  cases n with
  | zero => exact fun _ _ _ _ _ => .unfinished
  | succ n =>
    rw [level_succ]
    exact (blind σ hattempt hglobals).loops_above (fun _ => level σ n) (fun _ => .unfinished)
      (fun _ => .tick _) fun _ => rounds_level σ n

namespace Sound

lemma zero : Sound R σ 0 where
  expr _ _ _ _ := .unfinished
  assign _ _ _ _ _ _ := .unfinished
  stmt _ _ _ _ := .unfinished
  invoke _ _ _ _ _ := .unfinished

variable (h : Sound R σ n)
include h hattempt hglobals

lemma evalKind (hc : R.Inside w c) (kind : ExprKind) :
    R.Blind w ((level σ n).evalKind c kind) ((level σ n).evalKind c kind.unspan) := by
  let C := blind σ hattempt hglobals
  show C.Holds w fun b => (level σ n).evalKind c (side b kind kind.unspan)
  have hcalls : C.Calls fun _ => level σ n := h.invoke
  have hexpr : ∀ e : Expr, C.Holds w fun b => (level σ n).expr (side b e e.unspan) c :=
    h.expr hc
  have hassign : ∀ (e : Expr) (w' : Store), w ≤ w' → ∀ v : Value, R.Inside w' v →
      C.Holds w' fun b => (level σ n).assign (side b e e.unspan) v c :=
    fun e w' hw v hv => h.assign (hc.mono hw) hv e
  have hfunction : ∀ l : FunctionLit,
      C.Holds w fun b => makeFunction c (side b l l.unspan) :=
    blind_makeFunction hattempt hglobals hc
  simp only [ExprKind.side_unspan]
  exact C.evalKind_map hc kind (fun _ => hcalls) (fun e _ => hexpr e) (fun e _ => hassign e)
    fun l _ => hfunction l

lemma assignTarget (hc : R.Inside w c) {v : Value} (hv : R.Inside w v) (target : Expr) :
    R.Blind w ((level σ n).assignTarget c target v)
      ((level σ n).assignTarget c target.unspan v) := by
  have hkind : ∀ b, (side b target target.unspan).kind = target.kind.map
      (fun e => side b e e.unspan) fun l => side b l l.unspan := by
    intro b
    rw [← ExprKind.side_unspan]
    cases b <;> cases target <;> rfl
  let C := blind σ hattempt hglobals
  have hexpr : ∀ e : Expr, C.Holds w fun b => (level σ n).expr (side b e e.unspan) c :=
    h.expr hc
  have hassign : ∀ e : Expr, C.Holds w fun b => (level σ n).assign (side b e e.unspan) v c :=
    h.assign hc hv
  exact C.assignTarget_map hc hv target.kind hkind (hexpr target) (fun e _ => hexpr e)
    fun inner _ => hassign inner

lemma execAll (hc : R.Inside w c) (body : List Stmt) :
    R.Blind w ((level σ n).execAll c body) ((level σ n).execAll c (unspanStmts body)) := by
  let C := blind σ hattempt hglobals
  show C.Holds w fun b => (level σ n).execAll c (side b body (unspanStmts body))
  have hstmt : ∀ s : Stmt, C.Holds w fun b => (level σ n).stmt (side b s s.unspan) c :=
    h.stmt hc
  simp only [side_unspanStmts]
  exact C.execAll_map body fun s _ => hstmt s

lemma execKind (hc : R.Inside w c) (kind : StmtKind) :
    R.Blind w ((level σ n).execKind c kind) ((level σ n).execKind c kind.unspan) := by
  let C := blind σ hattempt hglobals
  show C.Holds w fun b => (level σ n).execKind c (side b kind kind.unspan)
  have hexpr : ∀ (e : Expr) (own : Prop), C.Evaluates (fun _ => level σ n) w (R.Open c own)
      fun b => side b e e.unspan := fun e _ _ _ _ hd _ => h.expr hd e
  have hstmt : ∀ (s : Stmt) (own : Prop), C.Executes (fun _ => level σ n) w (R.Open c own)
      fun b => side b s s.unspan := fun s _ _ _ _ hd _ => h.stmt hd s
  have hbody : ∀ body : List Stmt, C.ExecutesAll (fun _ => level σ n) w
      fun b => side b body (unspanStmts body) :=
    fun body _ _ _ hd _ => h.execAll hattempt hglobals hd body
  have hfunction : ∀ l : FunctionLit,
      C.Holds w fun b => makeFunction c (side b l l.unspan) :=
    blind_makeFunction hattempt hglobals hc
  simp only [StmtKind.side_unspan]
  exact C.execKind_map hc kind (fun _ => blind_loops hattempt hglobals n) (fun e _ => hexpr e _)
    (fun s _ => hstmt s _) (fun body _ => hbody body) (fun _ _ _ => trivial)
    fun l _ => hfunction l

/-- Both sides call a function, each with the body that it has in the store of that side. -/
lemma callFunction {r : FunctionRef} (hr : R.Inside w r) {args : List Value}
    (ha : R.Inside w args) :
    R.Blind w (Action.read (fun st => st.closure r) >>= fun f =>
        (level σ n).callClosure σ.config.arity f args)
      (Action.read (fun st => st.closure r) >>= fun f =>
        (level σ n).callClosure σ.config.arity f args) := by
  let C := blind σ hattempt hglobals
  have hcall : ∀ w', w ≤ w' → ∀ f : Closure, R.Inside w' f →
      R.Blind w' ((level σ n).callClosure σ.config.arity f args)
        ((level σ n).callClosure σ.config.arity (f.recode .unspan) args) := by
    intro w' hw f hf
    have hbody : ∀ (w'' : Store) (d : ScopeRef), R.Inside w'' d → C.Holds w'' fun b =>
        (level σ n).execAll d (side b f.literal.body (unspanStmts f.literal.body)) :=
      fun w'' d hd => h.execAll hattempt hglobals hd f.literal.body
    exact C.callClosure hf (ha.mono hw)
      fun w'' _ d hd _ => C.answer (hbody w'' d hd) fun _ _ => .raise .strayBreak
  refine ⟨(Contained.readClosure hr).sound.bind fun w' hw f hf => (hcall w' hw f hf).sound,
    fun s s' hs hss => ?_⟩
  have hread : s'.store.closure r = (s.store.closure r).recode .unspan := by
    rw [hss.store, Store.closure_recode]
  have hf : R.Inside s.store (s.store.closure r) := hs.valid.closure (hr.mono hs.le)
  simp only [Action.bind_apply, Action.read, hread]
  exact (hcall s.store hs.le _ hf).follows s s' ⟨le_rfl, hs.valid⟩ hss

/-- What evaluators do not see the one above does not see. -/
lemma succ : Sound R σ (n + 1) where
  expr w c hc e := by
    obtain ⟨span, kind⟩ := e
    rw [level_succ]
    have hkind : ∀ w', w ≤ w' → R.Blind w' ((level σ n).evalKind c kind)
        ((level σ n).evalKind c kind.unspan) := fun w' hw =>
      h.evalKind hattempt hglobals (hc.mono hw) kind
    exact ((Blind.tick _).bind fun w' hw _ _ => hkind w' hw).blame span .synthetic
  assign w c v hc hv target := by
    rw [level_succ]
    exact .blame (h.assignTarget hattempt hglobals hc hv target) target.span target.unspan.span
  stmt w c hc s := by
    obtain ⟨span, kind⟩ := s
    rw [level_succ]
    have hkind : ∀ w', w ≤ w' → R.Blind w' ((level σ n).execKind c kind)
        ((level σ n).execKind c kind.unspan) := fun w' hw =>
      h.execKind hattempt hglobals (hc.mono hw) kind
    exact ((Blind.tick _).bind fun w' hw _ _ => hkind w' hw).blame span .synthetic
  invoke w f args hf ha := by
    rw [level_succ]
    let C := blind σ hattempt hglobals
    have hcalls : C.Calls fun _ => level σ n := h.invoke
    show C.Holds w fun _ => (level σ n).enter σ f args
    refine C.enter hf ha (fun r hr => ?_) fun w' hw => ?_
    · subst hr
      exact h.callFunction hattempt hglobals (hf.has rfl) ha
    · have hg := inside_getD (ha.mono hw) 0
      exact C.call hg fun _ => hcalls hg (inside_tail (ha.mono hw))

lemma runFrom (hc : R.Inside w c) (program : List Stmt) {last : Value} (hl : R.Inside w last) :
    R.Blind w ((level σ n).runFrom c last program)
      ((level σ n).runFrom c last (unspanStmts program)) := by
  induction program generalizing w last with
  | nil => exact .of_primitive (.pure hl)
  | cons s rest ih =>
    obtain ⟨span, kind⟩ := s
    have hrest : ∀ w', w ≤ w' → ∀ v, R.Inside w' v →
        (blind σ hattempt hglobals).Holds w' fun b =>
          (level σ n).runFrom c v (side b rest (unspanStmts rest)) :=
      fun w' hw v hv => ih (hc.mono hw) hv
    by_cases hkind : ∃ e, kind = .expr e
    · obtain ⟨e, rfl⟩ := hkind
      exact (blind σ hattempt hglobals).runFrom_expr
        (s := fun b => side b ⟨span, .expr e⟩ (Stmt.unspan ⟨span, .expr e⟩))
        (e := fun b => side b e e.unspan) (fun b => by cases b <;> rfl) last
        (fun _ => blind_tick n) (fun w' hw => h.expr (hc.mono hw) e) hrest
    · refine (blind σ hattempt hglobals).runFrom_stmt
        (s := fun b => side b ⟨span, kind⟩ (Stmt.unspan ⟨span, kind⟩)) (fun b e he => ?_)
        (h.stmt hc ⟨span, kind⟩) (fun _ _ => ?_) fun w' hw => hrest w' hw last (hl.mono hw)
      · cases b with
        | false => exact hkind ⟨e, he⟩
        | true => cases kind <;> first | exact hkind ⟨_, rfl⟩ | cases he
      · exact .blame (.raise .strayBreak) _ _

end Sound

include hattempt hglobals in
/-- At no level are spans seen. -/
lemma sound (n : Nat) : Sound R σ n := by
  induction n with
  | zero => exact .zero
  | succ n ih => exact ih.succ hattempt hglobals

end Positions

namespace Interpreter

/-- At every level a program comes to what it comes to without spans. -/
lemma run_unspans (i : Interpreter) (st : Store) (program : List Stmt)
    (hattempt : ∀ r, st.Reaches (.scope i.globals) (.builtin r) →
      (st.builtin r).native ≠ .attempt) (n : Nat) :
    ((Evaluator.level i.toSetting n).runFrom i.globals .nil program (i.start st)).Unspans
      ((Evaluator.level i.toSetting n).runFrom i.globals .nil (unspanStmts program)
        (i.start (st.recode .unspan))) := by
  let R := Region.spanned st (· = .scope i.globals) (· ≠ .attempt)
    fun _ r hm hr => hattempt r (hm ▸ hr)
  have hglobals : .scope i.globals ∈ R.start := ⟨_, rfl, .refl⟩
  have hallows : ¬ R.allows .attempt := fun h => h rfl
  have hsound := Positions.sound (σ := i.toSetting) hallows hglobals n
  have hnil : R.Inside st Value.nil := Region.inside_of_node?_eq_none rfl
  have hrun := hsound.runFrom hallows hglobals (.inl hglobals) program hnil
  exact hrun.follows _ _ ⟨le_rfl, R.valid_base⟩ ⟨rfl, rfl, rfl⟩

end Interpreter

open Interpreter

/-- Two programs that are the same without spans, in stores that are the same without the spans in
the bodies of functions: if one of them comes to an end then both do, and the ends are the same
apart from spans.  No builtin that answers errors as values can be reached. -/
theorem run_unspan (i : Interpreter) (st st' : Store) (program program' : List Stmt)
    (hprogram : unspanStmts program = unspanStmts program')
    (hstore : st.recode .unspan = st'.recode .unspan)
    (hattempt : ∀ r, st.Reaches (.scope i.globals) (.builtin r) →
      (st.builtin r).native ≠ .attempt) :
    ((∃ o, i.Ends st (fun ev => ev.runFrom i.globals .nil program) o) ↔
      ∃ o', i.Ends st' (fun ev => ev.runFrom i.globals .nil program') o') ∧
    ∀ o o', i.Ends st (fun ev => ev.runFrom i.globals .nil program) o →
      i.Ends st' (fun ev => ev.runFrom i.globals .nil program') o' → o.SameButSpans o' := by
  have hattempt' : ∀ r, st'.Reaches (.scope i.globals) (.builtin r) →
      (st'.builtin r).native ≠ .attempt := by
    intro r hr
    rw [← Store.reaches_recode .unspan, ← hstore, Store.reaches_recode] at hr
    have hbuiltin : (st.recode .unspan).builtin r = (st'.recode .unspan).builtin r := by
      rw [hstore]
    show ((st'.recode .unspan).builtin r).native ≠ .attempt
    rw [← hbuiltin]
    exact hattempt r hr
  -- the two programs come to ends at the same levels, where both come to what they have in common
  have hleft := i.run_unspans st program hattempt
  have hright := i.run_unspans st' program' hattempt'
  rw [← hprogram, ← hstore] at hright
  have hgrowing := fun program => (growing_operations i.globals).1 .nil program
  refine ⟨⟨fun ⟨o, ho, n, hn⟩ => ?_, fun ⟨o', ho', n, hn⟩ => ?_⟩, fun o o' h h' => ?_⟩
  · refine ⟨_, fun h => ho ?_, n, rfl⟩
    rw [← hn]
    exact (hleft n).unfinished_iff.mpr ((hright n).unfinished_iff.mp h)
  · refine ⟨_, fun h => ho' ?_, n, rfl⟩
    rw [← hn]
    exact (hright n).unfinished_iff.mpr ((hleft n).unfinished_iff.mp h)
  · obtain ⟨ho, n, rfl⟩ := h
    have hsame := Outcome.SameButSpans.of_unspans ho (hleft n) (hright n)
    have hend : i.Ends st' (fun ev => ev.runFrom i.globals .nil program')
        ((Evaluator.level i.toSetting n).runFrom i.globals .nil program' (i.start st')) :=
      ⟨fun h => ho ((hleft n).unfinished_iff.mpr ((hright n).unfinished_iff.mp h)), n, rfl⟩
    rw [Ends.unique (hgrowing program') h' hend]
    exact hsame

/-- A call of a stored function that fails: only the positions of the two errors differ. -/
theorem run_unspan_failing :
    let f : Span → FunctionLit := fun p => ⟨some "f", ["x"],
      [⟨p, .ret (some ⟨p, .binary ⟨p, .identifier "x"⟩ .add ⟨p, .nil⟩⟩)⟩]⟩
    let program : Span → List Stmt := fun p =>
      [⟨p, .expr ⟨p, .call ⟨p, .identifier "f"⟩ [⟨p, .number 1⟩]⟩⟩]
    let i := (Interpreter.create {} {}).1
    let made : Span → FunctionRef × Store := fun p =>
      (Interpreter.create {} {}).2.newClosure ⟨f p, i.globals⟩
    let st : Span → Store := fun p => (made p).2.define i.globals "f" (.function (made p).1)
    let p := Span.point 1 2
    let q := Span.point 3 4
    unspanStmts (program p) = unspanStmts (program q) ∧
    (st p).recode .unspan = (st q).recode .unspan ∧
    (∀ r, (st p).Reaches (.scope i.globals) (.builtin r) →
      ((st p).builtin r).native ≠ .attempt) ∧
    ∃ e e' s s', i.Ends (st p) (fun ev => ev.runFrom i.globals .nil (program p)) (.error e s) ∧
      i.Ends (st q) (fun ev => ev.runFrom i.globals .nil (program q)) (.error e' s') ∧
      e.span = some p ∧ e'.span = some q ∧ e.kind = e'.kind ∧ e.message = e'.message ∧
      s.steps = s'.steps := by
  intro f program i made st p q
  have hprogram : unspanStmts (program p) = unspanStmts (program q) := rfl
  have hmade : ∀ p, (made p).2.recode .unspan = (((Interpreter.create {} {}).2.recode
      .unspan).newClosure ⟨(f p).recode .unspan, i.globals⟩).2 := fun p =>
    (congrArg Prod.snd (Store.newClosure_recode .unspan _ ⟨f p, i.globals⟩)).symm
  have hstore : (st p).recode .unspan = (st q).recode .unspan :=
    congrArg (fun w : Store => w.define i.globals "f" (.function (made p).1))
      ((hmade p).trans (hmade q).symm)
  have hintact : (st p).Intact :=
    (Interpreter.intact_create Store.intact_empty {}).defineFunction (by decide) _ _
  have hnone := hintact.not_reaches_builtin rfl (n := .scope i.globals) (by decide)
  have hattempt : ∀ r, (st p).Reaches (.scope i.globals) (.builtin r) →
      ((st p).builtin r).native ≠ .attempt := fun r hr => absurd hr (hnone r)
  obtain ⟨e, s, hrun, he⟩ := Interpreter.Ends.of_fails i (st p)
    (fun ev => ev.runFrom i.globals .nil (program p)) (fun e => decide (e.span = some p)) 6
    (by decide +kernel)
  obtain ⟨e', s', hrun', he'⟩ := Interpreter.Ends.of_fails i (st q)
    (fun ev => ev.runFrom i.globals .nil (program q)) (fun e => decide (e.span = some q)) 6
    (by decide +kernel)
  have hsame := (run_unspan i (st p) (st q) (program p) (program q) hprogram hstore hattempt).2
    _ _ hrun hrun'
  cases hsame with
  | error kind message _ steps =>
    exact ⟨hprogram, hstore, hattempt, e, e', s, s', hrun, hrun', of_decide_eq_true he,
      of_decide_eq_true he', kind, message, steps⟩

end TreeWalk
