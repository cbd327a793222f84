/-
# Limits that stop nothing

A loop all of whose rounds go on never ends (`Action.repeated_eq_unfinished`).  Such loops there are
without a step limit, and with the largest one, which no counter of 64 bits exceeds: evaluations
then do what they do without a limit (`ends_largestLimit_iff`).  With the limit below it there is
one refused step in each turn of the counter, and a loop that catches it goes on as well
(`stmt_catchingLoop`).
-/
import TreeWalk.Proofs.CallFrames
import TreeWalk.Proofs.Settling
import TreeWalk.Proofs.StepLimit
import TreeWalk.Proofs.Unbounded

namespace TreeWalk

namespace Action

variable {α β : Type}

/-- A loop never ends if from the states in which its rounds begin none of them is the last one. -/
theorem repeated_eq_unfinished {x : Action (Option β)} {P : State → Prop}
    (hx : ∀ s, P s → x s = .unfinished ∨ ∃ t, x s = .value none t ∧ P t) (n : Nat) {s : State}
    (hs : P s) : repeated x n s = .unfinished := by
  induction n generalizing s with
  | zero => rfl
  | succ n ih =>
    rw [repeated, bind_apply]
    rcases hx s hs with h | ⟨t, h, ht⟩
    · rw [h]
    · rw [h]
      exact ih ht

/-- The largest limit is no limit. -/
theorem tick_largest : tick (some 0xFFFFFFFFFFFFFFFF) = tick none := by
  funext s
  have hle : s.ticked.counter ≤ 0xFFFFFFFFFFFFFFFF := by
    rw [UInt64.le_iff_toNat_le]
    exact Nat.le_of_lt_succ s.ticked.counter.toNat_lt
  rw [tick_some, tick_none, if_neg (UInt64.not_lt.mpr hle)]

end Action

namespace Interpreter

open Evaluator

variable (i : Interpreter)

lemma level_largestLimit (n : Nat) :
    level (i.withStepLimit (some 0xFFFFFFFFFFFFFFFF)).toSetting n =
      level (i.withStepLimit none).toSetting n := by
  induction n with
  | zero => rfl
  | succ n ih =>
    have htick : Action.tick (i.withStepLimit (some 0xFFFFFFFFFFFFFFFF)).config.stepLimit =
        Action.tick (i.withStepLimit none).config.stepLimit := Action.tick_largest
    rw [level_succ, level_succ, ih]
    unfold above evalExpr execStmt
    rw [htick]
    rfl

/-- With the largest limit everything ends as it does without one. -/
theorem ends_largestLimit_iff {α : Type} {st : Store} {task : Evaluator → Action α}
    {o : Outcome α} :
    (i.withStepLimit (some 0xFFFFFFFFFFFFFFFF)).Ends st task o ↔
      (i.withStepLimit none).Ends st task o := by
  simp only [Ends, level_largestLimit]
  rfl

end Interpreter

namespace Evaluator

variable {σ : Setting} {c : ScopeRef}

section

variable {ev : Evaluator} {x : Stmt} (hkind : ∀ e, x.kind ≠ .expr e) {s t : State}
include hkind

/-- A program does not end if its first statement does not. -/
lemma runFrom_of_unfinished (last : Value) (rest : List Stmt) (h : ev.stmt x c s = .unfinished) :
    ev.runFrom c last (x :: rest) s = .unfinished := by
  rw [runFrom_cons _ _ hkind, Action.bind_apply, h]

/-- Where the first statement goes on, the program is the rest of it. -/
lemma runFrom_of_next (last : Value) (rest : List Stmt) (h : ev.stmt x c s = .value .next t) :
    ev.runFrom c last (x :: rest) s = ev.runFrom c last rest t := by
  rw [runFrom_cons _ _ hkind, Action.bind_apply, h]

end

section

variable {s : State} (hs : σ.MayStep s) (n : Nat)
include hs

lemma level_tick_apply : (level σ (n + 1)).tick s = .value () s.ticked :=
  Setting.tick_eq_value_iff.mpr ⟨hs, rfl⟩

/-- An expression whose step is granted is evaluated after it. -/
lemma level_expr_apply (e : Expr) (c : ScopeRef) : (level σ (n + 1)).expr e c s =
    ((level σ n).evalKind c e.kind s.ticked).blame e.span := by
  rw [level_succ]
  show Action.blame e.span (do Action.tick σ.config.stepLimit; (level σ n).evalKind c e.kind) s = _
  rw [Action.blame_apply, Action.bind_apply, Setting.tick_eq_value_iff.mpr ⟨hs, rfl⟩]
  rfl

/-- A statement whose step is granted is executed after it. -/
lemma level_stmt_apply (x : Stmt) (c : ScopeRef) : (level σ (n + 1)).stmt x c s =
    ((level σ n).execKind c x.kind s.ticked).blame x.span := by
  rw [level_succ]
  show Action.blame x.span (do Action.tick σ.config.stepLimit; (level σ n).execKind c x.kind) s = _
  rw [Action.blame_apply, Action.bind_apply, Setting.tick_eq_value_iff.mpr ⟨hs, rfl⟩]
  rfl

end

/-- The loop without header and body. -/
def emptyLoop : Stmt := .synthetic (.loop none none none [])

/-- A round of the empty loop makes the scope of the body. -/
lemma round_emptyLoop (ev : Evaluator) (s : State) : ev.round c none none [] s =
    .value none { s with store := (s.store.newScope (some c)).2 } := rfl

lemma execKind_emptyLoop (ev : Evaluator) (s : State) : ev.execKind c emptyLoop.kind s =
    Action.repeated (do ev.tick; ev.round (s.store.newScope (some c)).1 none none []) ev.rounds
      { s with store := (s.store.newScope (some c)).2 } := by
  rw [← execRounds_eq_repeated]
  rfl

/-- Without a step limit it never ends. -/
theorem stmt_emptyLoop (hlimit : σ.config.stepLimit = none) (n : Nat) (s : State) :
    (level σ n).stmt emptyLoop c s = .unfinished := by
  have hstep := Setting.mayStep_of_none hlimit
  cases n with
  | zero => rfl
  | succ n =>
    have hround : ∀ d u, (do (level σ n).tick; (level σ n).round d none none [] : Action _) u =
        .unfinished ∨ ∃ t, (do (level σ n).tick; (level σ n).round d none none [] : Action _) u =
          .value none t ∧ True := by
      intro d u
      cases n with
      | zero => exact .inl rfl
      | succ n =>
        refine .inr ⟨{ u.ticked with store := (u.store.newScope (some d)).2 }, ?_, trivial⟩
        rw [Action.bind_apply, level_tick_apply (hstep u)]
        rfl
    rw [level_stmt_apply (hstep s), execKind_emptyLoop,
      Action.repeated_eq_unfinished (fun u _ => hround _ u) _ trivial]
    rfl

end Evaluator

/-! ### A loop that catches the refused step -/

/-- The next `k` steps are granted by the limit below the largest one. -/
def State.Grants (k : Nat) (s : State) : Prop := (s.steps + 1) % 2 ^ 64 + k < 2 ^ 64

namespace State.Grants

variable {s : State} {k : Nat}

lemma mono {m : Nat} (h : s.Grants k) (hm : m ≤ k) : s.Grants m := by
  unfold Grants at h ⊢
  omega

lemma mayStep {σ : Setting} (hlimit : σ.config.stepLimit = some 0xFFFFFFFFFFFFFFFE)
    (h : s.Grants (k + 1)) : σ.MayStep s := by
  intro l hl
  obtain rfl : 0xFFFFFFFFFFFFFFFE = l := Option.some.inj (hlimit.symm.trans hl)
  have hcounter : s.ticked.counter.toNat = (s.steps + 1) % 2 ^ 64 := UInt64.toNat_ofNat'
  rw [UInt64.le_iff_toNat_le, hcounter]
  unfold Grants at h
  show (s.steps + 1) % 2 ^ 64 ≤ 0xFFFFFFFFFFFFFFFE
  omega

lemma ticked (h : s.Grants (k + 1)) : s.ticked.Grants k := by
  unfold Grants at h ⊢
  show (s.steps + 1 + 1) % 2 ^ 64 + k < 2 ^ 64
  omega

/-- After the refused step the counter begins anew. -/
lemma of_refused (h : 0xFFFFFFFFFFFFFFFE < s.ticked.counter) (hk : k < 2 ^ 64) :
    s.ticked.Grants k := by
  have hcounter : s.ticked.counter.toNat = (s.steps + 1) % 2 ^ 64 := UInt64.toNat_ofNat'
  rw [UInt64.lt_iff_toNat_lt, hcounter] at h
  have hlast : 0xFFFFFFFFFFFFFFFE < (s.steps + 1) % 2 ^ 64 := h
  unfold Grants
  show (s.steps + 1 + 1) % 2 ^ 64 + k < 2 ^ 64
  omega

end State.Grants

namespace Action

variable {β : Type} {l : UInt64}

/-- A loop whose rounds go on is ended by a refused step only. -/
lemma repeated_refused {x : Action (Option β)} {P : State → Prop}
    (hx : ∀ s, P s → ∃ t, x s.ticked = .value none t ∧ P t) (n : Nat) {s : State} (hs : P s) :
    repeated (do tick (some l); x) n s = .unfinished ∨ ∃ u, P u ∧ l < u.ticked.counter ∧
      repeated (do tick (some l); x) n s = .error (.ofFault (.stepLimit l)) u.ticked := by
  induction n generalizing s with
  | zero => exact .inl rfl
  | succ n ih =>
    by_cases hrefused : l < s.ticked.counter
    · exact .inr ⟨s, hs, hrefused, by rw [repeated_succ_apply, if_pos hrefused]⟩
    · obtain ⟨t, hround, ht⟩ := hx s hs
      have hrest : repeated (do tick (some l); x) (n + 1) s =
          repeated (do tick (some l); x) n t := by
        rw [repeated_succ_apply, if_neg hrefused, hround]
      rw [hrest]
      exact ih ht

end Action

/-- A store in which the scope `c` binds a builtin that catches errors and a function that loops,
and `d` is an empty scope inside of it. -/
structure Store.Ready (c d : ScopeRef) (catching looping : String) (b : BuiltinRef)
    (f : FunctionRef) (st : Store) : Prop where
  has : st.Has (.scope c) ∧ st.Has (.scope d) ∧ st.Has (.builtin b) ∧ st.Has (.function f)
  inner : st.scope d = { parent := some c }
  catching : (st.scope c).symbols[catching]? = some (.builtin b)
  looping : (st.scope c).symbols[looping]? = some (.function f)
  native : (st.builtin b).native = .attempt
  body : (st.closure f).literal.params = [] ∧
    (st.closure f).literal.body = [Evaluator.emptyLoop]

namespace Store.Ready

variable {c d : ScopeRef} {catching looping name : String} {b : BuiltinRef} {f : FunctionRef}
  {st st' : Store}

lemma of_makes (h : st.Ready c d catching looping b f) {n : Node} {x : Cell}
    (hmakes : st.Makes n x st') : st'.Ready c d catching looping b f := by
  obtain ⟨hc, hd, hb, hf⟩ := h.has
  have hold : ∀ m, st.Has m → st'.Has m ∧ st'.cell m = st.cell m := fun m hm =>
    ⟨(hmakes.has m).mpr (.inl hm), hmakes.cell_ne m fun heq => hmakes.fresh (heq ▸ hm)⟩
  have hscope : ∀ e, st.Has (.scope e) → st'.scope e = st.scope e := fun e he => by
    simpa only [Store.cell, Cell.scope.injEq] using (hold _ he).2
  have hbuiltin : st'.builtin b = st.builtin b := by
    simpa only [Store.cell, Cell.builtin.injEq] using (hold _ hb).2
  have hclosure : st'.closure f = st.closure f := by
    simpa only [Store.cell, Cell.function.injEq] using (hold _ hf).2
  exact {
    has := ⟨(hold _ hc).1, (hold _ hd).1, (hold _ hb).1, (hold _ hf).1⟩
    inner := (hscope d hd).trans h.inner
    catching := by rw [hscope c hc, h.catching]
    looping := by rw [hscope c hc, h.looping]
    native := by rw [hbuiltin, h.native]
    body := by rw [hclosure]; exact h.body }

lemma of_newScope (hc : st.Has (.scope c)) (hb : st.Has (.builtin b)) (hf : st.Has (.function f))
    (hcatching : (st.scope c).symbols[catching]? = some (.builtin b))
    (hlooping : (st.scope c).symbols[looping]? = some (.function f))
    (hnative : (st.builtin b).native = .attempt)
    (hbody : (st.closure f).literal.params = [] ∧
      (st.closure f).literal.body = [Evaluator.emptyLoop]) :
    (st.newScope (some c)).2.Ready c (st.newScope (some c)).1 catching looping b f := by
  have hmakes := st.makes_newScope (some c)
  have hscope : (st.newScope (some c)).2.scope c = st.scope c := by
    have hne : Node.scope c ≠ .scope (st.newScope (some c)).1 := fun h => hmakes.fresh (h ▸ hc)
    simpa only [Store.cell, Cell.scope.injEq] using hmakes.cell_ne _ hne
  exact {
    has := ⟨(hmakes.has _).mpr (.inl hc), (hmakes.has _).mpr (.inr rfl), hb, hf⟩
    inner := by simpa only [Store.cell, Cell.scope.injEq] using hmakes.cell
    catching := by rw [hscope, hcatching]
    looping := by rw [hscope, hlooping]
    native := hnative
    body := hbody }

lemma newScope (h : st.Ready c d catching looping b f) (parent : Option ScopeRef) :
    (st.newScope parent).2.Ready c d catching looping b f :=
  h.of_makes (st.makes_newScope parent)

lemma newArray (h : st.Ready c d catching looping b f) (items : Array Value) :
    (st.newArray items).2.Ready c d catching looping b f :=
  h.of_makes (st.makes_newArray items)

lemma lookup (h : st.Ready c d catching looping b f) {v : Value}
    (hv : (st.scope c).symbols[name]? = some v) : st.lookup d name = .found v := by
  obtain ⟨n, hn⟩ : ∃ n, st.scopes.size = n + 1 := by
    have hsize : d.index < st.scopes.size := h.has.2.1
    exact ⟨st.scopes.size - 1, by omega⟩
  have hsearch : st.search d name = .found (c, v) := by
    rw [Store.search, hn, Store.searchFrom, h.inner]
    simp only [Std.TreeMap.getElem?_emptyc, Store.searchFrom, hv]
  rw [Store.lookup, hsearch]

end Store.Ready

namespace Evaluator

variable {σ : Setting} {c d : ScopeRef} {catching looping : String} {b : BuiltinRef}
  {f : FunctionRef} (hlimit : σ.config.stepLimit = some 0xFFFFFFFFFFFFFFFE)

/-- The call of a builtin with a function, both by their names. -/
def catchingCall (catching looping : String) : Expr :=
  .synthetic (.call (.synthetic (.identifier catching)) [.synthetic (.identifier looping)])

/-- A loop whose condition is such a call. -/
def catchingLoop (catching looping : String) : Stmt :=
  .synthetic (.loop none (some (catchingCall catching looping)) none [])

/-- The state `t` in which an evaluation that began in `s` has come upon the refused step. -/
structure Refused (P : Store → Prop) (s t : State) : Prop where
  store : P t.store
  depth : t.depth = s.depth
  grants : ∀ k, k < 2 ^ 64 → t.Grants k

section

variable {ev : Evaluator} {x : Stmt} {s t : State}

/-- A body of one statement ends as the statement does, unless that comes to a value. -/
lemma answer_of_unfinished (c : ScopeRef) (h : ev.stmt x c s = .unfinished) :
    ev.answer c [x] s = .unfinished := by
  rw [answer, execAll, Action.bind_apply, Action.bind_apply, h]

lemma answer_of_error (c : ScopeRef) {e : EvalError} (h : ev.stmt x c s = .error e t) :
    ev.answer c [x] s = .error e t := by
  rw [answer, execAll, Action.bind_apply, Action.bind_apply, h]

end

include hlimit

/-- The empty loop comes upon the refused step. -/
lemma stmt_emptyLoop_refused (n : Nat) {P : Store → Prop}
    (hP : ∀ st parent, P st → P (st.newScope parent).2) {e : ScopeRef} {s : State}
    (hs : P s.store) (hgrants : s.Grants 1) :
    (level σ n).stmt emptyLoop e s = .unfinished ∨
      ∃ err t, (level σ n).stmt emptyLoop e s = .error err t ∧ Refused P s t := by
  cases n with
  | zero => exact .inl rfl
  | succ n =>
    rw [level_stmt_apply (hgrants.mayStep hlimit), execKind_emptyLoop]
    cases n with
    | zero => exact .inl rfl
    | succ n =>
      have htick : (level σ (n + 1)).tick = Action.tick (some 0xFFFFFFFFFFFFFFFE) := by
        rw [level_succ, above, hlimit]
      rw [htick, rounds_level]
      rcases Action.repeated_refused (P := fun u => P u.store ∧ u.depth = s.depth)
          (fun u hu => ⟨_, round_emptyLoop _ _, hP _ _ hu.1, hu.2⟩) (n + 1)
          (s := { s.ticked with store := (s.ticked.store.newScope (some e)).2 })
          ⟨hP _ _ hs, rfl⟩ with h | ⟨u, hu, hrefused, h⟩
      · exact .inl (congrArg _ h)
      · exact .inr ⟨_, u.ticked, congrArg _ h, hu.1, hu.2, fun k hk => .of_refused hrefused hk⟩

/-- So does the call of the function that loops. -/
lemma call_looping_refused (n : Nat) {s : State}
    (hs : s.store.Ready c d catching looping b f)
    (hgrants : s.Grants 1) (hdepth : s.depth < σ.config.maxCallDepth.toNat) :
    (level σ n).call (.function f) [] s = .unfinished ∨
      ∃ err t, (level σ n).call (.function f) [] s = .error err t ∧
        Refused (Store.Ready c d catching looping b f) s t := by
  cases n with
  | zero => exact .inl rfl
  | succ n =>
    have harity : (s.store.closure f).arity = ([] : List Value).length := by
      rw [Closure.arity, hs.body.1]
      rfl
    have hcall : (level σ (n + 1)).call (.function f) [] s =
        (level σ n).enter σ (.function f) [] s := by
      rw [level_succ]
      rfl
    -- the frame of the call is an empty scope
    have hframe : (level σ n).enter σ (.function f) [] s =
        Action.nested (do
          Action.update fun st => (st.newScope (some (s.store.closure f).env)).2
          (level σ n).answer ⟨s.store.scopes.size⟩ [emptyLoop]) s := by
      rw [enter_function _ _ _ _ _ (.inr harity), Action.limited_apply,
        if_neg (Nat.not_le.mpr hdepth), hs.body.1, hs.body.2]
      rfl
    rw [hcall, hframe, Action.nested_apply]
    have hready := hs.newScope (some (s.store.closure f).env)
    rcases stmt_emptyLoop_refused hlimit n (fun _ _ h => h.newScope _)
        (e := ⟨s.store.scopes.size⟩)
        (s := { s with
          store := (s.store.newScope (some (s.store.closure f).env)).2, depth := s.depth + 1 })
        hready hgrants with h | ⟨err, t, h, ht⟩
    · have hanswer := answer_of_unfinished ⟨s.store.scopes.size⟩ h
      exact .inl (by simp only [Action.bind_apply, Action.update, hanswer])
    · have hanswer := answer_of_error ⟨s.store.scopes.size⟩ h
      exact .inr ⟨err, { t with depth := t.depth - 1 },
        by simp only [Action.bind_apply, Action.update, hanswer], ht.store,
        congrArg (· - 1) ht.depth, ht.grants⟩

/-- The builtin catches the refused step and answers an array. -/
lemma invoke_catching (n : Nat) {s : State} (hs : s.store.Ready c d catching looping b f)
    (hgrants : s.Grants 1) (hdepth : s.depth + 1 < σ.config.maxCallDepth.toNat) :
    (level σ n).invoke (.builtin b) [.function f] s = .unfinished ∨
      ∃ r t, (level σ n).invoke (.builtin b) [.function f] s = .value (.array r) t ∧
        Refused (Store.Ready c d catching looping b f) s t := by
  cases n with
  | zero => exact .inl rfl
  | succ n =>
    have hready := hs.newScope none
    have hnative : ((s.store.newScope none).2.builtin b).native = .attempt := hready.native
    have hinvoke : (level σ (n + 1)).invoke (.builtin b) [.function f] s =
        Action.nested (do
          Action.update fun st => (st.newScope none).2
          let r ← Action.attempt ((level σ n).call (.function f) [])
          reported r) s := by
      rw [level_succ]
      show (level σ n).enter σ (.builtin b) [.function f] s = _
      rw [enter_eq_limited, Action.limited_apply, if_neg (by omega), Action.nested_apply,
        Action.nested_apply]
      simp only [Action.bind_apply, Action.create, Action.update, execute, Action.read, hnative]
      rfl
    rw [hinvoke, Action.nested_apply]
    rcases call_looping_refused hlimit n
        (s := { s with store := (s.store.newScope none).2, depth := s.depth + 1 })
        hready hgrants hdepth with h | ⟨err, t, h, ht⟩
    · exact .inl (by simp only [Action.bind_apply, Action.update, Action.attempt_apply, h])
    · obtain ⟨r, items, hreported⟩ : ∃ r items, reported (.error err) t =
          .value (.array r) { t with store := (t.store.newArray items).2 } := ⟨_, _, rfl⟩
      refine .inr ⟨r, { t with store := (t.store.newArray items).2, depth := t.depth - 1 }, ?_,
        ht.store.newArray items, congrArg (· - 1) ht.depth, ht.grants⟩
      simp only [Action.bind_apply, Action.update, Action.attempt_apply, h, hreported]

/-- The names of the two have their values in the scope of the loop. -/
lemma expr_identifier (n : Nat) {s : State} {name : String} {v : Value}
    (hs : s.store.Ready c d catching looping b f)
    (hv : (s.store.scope c).symbols[name]? = some v) (hgrants : s.Grants 1) :
    (level σ n).expr (.synthetic (.identifier name)) d s = .unfinished ∨
      (level σ n).expr (.synthetic (.identifier name)) d s = .value v s.ticked := by
  cases n with
  | zero => exact .inl rfl
  | succ n =>
    have hlookup : Action.lookup d name s.ticked = .value v s.ticked := by
      rw [Action.lookup, show s.ticked.store.lookup d name = .found v from hs.lookup hv]
    rw [level_expr_apply (hgrants.mayStep hlimit)]
    exact .inr (congrArg _ hlookup)

/-- The call of the builtin with the function comes upon the refused step after other ones. -/
lemma expr_catching (n : Nat) {s : State} (hs : s.store.Ready c d catching looping b f)
    (hgrants : s.Grants 4) (hdepth : s.depth + 1 < σ.config.maxCallDepth.toNat) :
    (level σ n).expr (catchingCall catching looping) d s = .unfinished ∨
      ∃ r t, (level σ n).expr (catchingCall catching looping) d s = .value (.array r) t ∧
        Refused (Store.Ready c d catching looping b f) s t := by
  cases n with
  | zero => exact .inl rfl
  | succ n =>
    have hexpr : (level σ (n + 1)).expr (catchingCall catching looping) d s =
        ((level σ n).evalCall d (.synthetic (.identifier catching))
          [.synthetic (.identifier looping)] s.ticked).blame .synthetic :=
      level_expr_apply (hgrants.mayStep hlimit) n _ d
    have h₁ := hgrants.ticked
    have h₂ := h₁.ticked
    have h₃ := h₂.ticked
    have hargs : (level σ n).evalAll d [.synthetic (.identifier looping)] = (do
        return #[← (level σ n).expr (.synthetic (.identifier looping)) d]) := by
      rw [evalAll, List.foldlM_cons, bind_assoc]
      rfl
    rw [hexpr]
    rcases expr_identifier hlimit n (s := s.ticked) hs hs.catching (h₁.mono (by omega)) with h | h
    · exact .inl (by rw [evalCall, Action.bind_apply, h, Outcome.blame])
    have hcall : (level σ n).evalCall d (.synthetic (.identifier catching))
        [.synthetic (.identifier looping)] s.ticked = (do
          let v ← (level σ n).expr (.synthetic (.identifier looping)) d
          (level σ n).invoke (.builtin b) [v]) s.ticked.ticked := by
      rw [evalCall, Action.bind_apply, h]
      show ((level σ n).evalAll d [.synthetic (.identifier looping)] >>= fun vs =>
        (level σ n).invoke (.builtin b) vs.toList) s.ticked.ticked = _
      rw [hargs, bind_assoc]
      rfl
    rw [hcall, Action.bind_apply]
    rcases expr_identifier hlimit n (s := s.ticked.ticked) hs hs.looping (h₂.mono (by omega)) with
      h | h
    · exact .inl (by rw [h, Outcome.blame])
    rcases invoke_catching hlimit n (s := s.ticked.ticked.ticked) hs h₃ hdepth with
      h' | ⟨r, t, h', ht⟩
    · exact .inl (by simp only [h, h', Outcome.blame])
    · exact .inr ⟨r, t, by simp only [h, h', Outcome.blame], ht.store, ht.depth, ht.grants⟩

/-- A round of the loop is never the last one. -/
lemma catchingRound (n : Nat) {s : State} (hs : s.store.Ready c d catching looping b f)
    (hgrants : s.Grants 5) (hdepth : s.depth + 1 < σ.config.maxCallDepth.toNat) :
    let x : Action (Option Flow) := do
      (level σ n).tick
      (level σ n).round d (some (catchingCall catching looping)) none []
    x s = .unfinished ∨
      ∃ t, x s = .value none t ∧ Refused (Store.Ready c d catching looping b f) s t := by
  intro x
  cases n with
  | zero => exact .inl rfl
  | succ n =>
    have hx : x s =
        (level σ (n + 1)).round d (some (catchingCall catching looping)) none [] s.ticked := by
      simp only [x, Action.bind_apply, level_tick_apply (hgrants.mayStep hlimit)]
    rw [hx, round, holds, bind_assoc, Action.bind_apply]
    rcases expr_catching hlimit (n + 1) (s := s.ticked) hs hgrants.ticked hdepth with
      h | ⟨r, t, h, ht⟩
    · exact .inl (by rw [h])
    · refine .inr ⟨{ t with store := (t.store.newScope (some d)).2 }, ?_, ht.store.newScope _,
        ht.depth, ht.grants⟩
      rw [h]
      rfl

/-- So the loop never ends, where an interpreter may make two calls inside of each other. -/
theorem stmt_catchingLoop (n : Nat) {s : State} (hc : s.store.Has (.scope c))
    (hb : s.store.Has (.builtin b)) (hf : s.store.Has (.function f))
    (hcatching : (s.store.scope c).symbols[catching]? = some (.builtin b))
    (hlooping : (s.store.scope c).symbols[looping]? = some (.function f))
    (hnative : (s.store.builtin b).native = .attempt)
    (hbody : (s.store.closure f).literal.params = [] ∧
      (s.store.closure f).literal.body = [emptyLoop])
    (hgrants : s.Grants 6) (hdepth : s.depth + 1 < σ.config.maxCallDepth.toNat) :
    (level σ n).stmt (catchingLoop catching looping) c s = .unfinished := by
  cases n with
  | zero => rfl
  | succ n =>
    have hready := Store.Ready.of_newScope hc hb hf hcatching hlooping hnative hbody
    have hstmt : (level σ (n + 1)).stmt (catchingLoop catching looping) c s =
        (Action.repeated (do
          (level σ n).tick
          (level σ n).round (s.store.newScope (some c)).1 (some (catchingCall catching looping))
            none []) (level σ n).rounds
          { s.ticked with store := (s.store.newScope (some c)).2 }).blame .synthetic := by
      rw [level_stmt_apply (hgrants.mayStep hlimit), ← execRounds_eq_repeated]
      rfl
    have hloop : Action.repeated (do
          (level σ n).tick
          (level σ n).round (s.store.newScope (some c)).1 (some (catchingCall catching looping))
            none []) (level σ n).rounds
        { s.ticked with store := (s.store.newScope (some c)).2 } = .unfinished := by
      refine Action.repeated_eq_unfinished
        (P := fun u => u.store.Ready c (s.store.newScope (some c)).1 catching looping b f ∧
          u.depth = s.depth ∧ u.Grants 5) ?_ _ ⟨hready, rfl, hgrants.ticked⟩
      rintro u ⟨hu, hdepth', hgrants'⟩
      rcases catchingRound hlimit n hu hgrants' (hdepth' ▸ hdepth) with h | ⟨t, h, ht⟩
      · exact .inl h
      · exact .inr ⟨t, h, ht.store, ht.depth.trans hdepth', ht.grants 5 (by decide)⟩
    rw [hstmt, hloop, Outcome.blame]

end Evaluator

end TreeWalk
