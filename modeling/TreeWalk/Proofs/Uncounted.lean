/-
# Steps that nobody looks at

Without a step limit, and where no builtin looks at the counter of the steps, an evaluation that is
begun some steps later is the same evaluation, and ends as many steps later (`full_expr_later`,
`full_assign_later`).  This is a congruence: all that works on the store alone has the property, and
steps have it as well as long as they are not limited (`Congruence.uncounted`).

Whole turns of the counter make no difference to any evaluation, limited or not: of the steps taken
before it sees no more than the counter shows (`level_later`).
-/
import TreeWalk.Proofs.Congruence.Classes
import TreeWalk.Proofs.Intact
import TreeWalk.Proofs.Unbounded

namespace TreeWalk

/-- The state with `d` steps more. -/
def State.later (d : Nat) (s : State) : State := { s with steps := s.steps + d }

/-- After whole turns the counter is the same. -/
lemma State.counter_later {d : Nat} (hd : 2 ^ 64 ∣ d) (s : State) :
    (s.later d).counter = s.counter := by
  obtain ⟨k, rfl⟩ := hd
  rw [← UInt64.toNat_inj]
  show (s.steps + 2 ^ 64 * k) % 2 ^ 64 = s.steps % 2 ^ 64
  exact Nat.add_mul_mod_self_left ..

/-- The same end with `d` steps more. -/
def Outcome.later {α : Type} (d : Nat) : Outcome α → Outcome α
  | .value a s => .value a (s.later d)
  | .error e s => .error e (s.later d)
  | .unfinished => .unfinished

namespace Action

variable {α : Type} {x : Action α}

namespace OnStore

/-- What takes no notice of the counters does the same later. -/
lemma later (hx : x.OnStore) (d : Nat) (s : State) : x (s.later d) = (x s).later d := by
  rw [hx s, hx (s.later d)]
  show (x { store := s.store }).withCounters s.depth (s.steps + d) = _
  cases x { store := s.store } <;> rfl

lemma search (c : ScopeRef) (name : String) : OnStore (Action.search c name) := by
  intro s
  rw [search_apply, search_apply]
  cases s.store.search c name <;> rfl

end OnStore

/-- Where each of the actions does the same later, so does what they come to. -/
lemma ComeTo.later {f : Nat → Action α} (h : ComeTo f x) {d : Nat} {s : State}
    (hf : ∀ n, f n (s.later d) = (f n s).later d) : x (s.later d) = (x s).later d := by
  by_cases hx : x s = .unfinished
  · by_contra hne
    rw [hx] at hne
    obtain ⟨n, hn⟩ := h.ends _ hne
    rcases h.le n s with hfs | hfs
    · exact hne ((hn n le_rfl).symm.trans (by rw [hf, hfs]))
    · exact hne ((hn n le_rfl).symm.trans (by rw [hf, hfs, hx]))
  · obtain ⟨n, hn⟩ := h.ends s hx
    have hlater : f n (s.later d) = (x s).later d := by rw [hf, hn n le_rfl]
    have hends : f n (s.later d) ≠ .unfinished := by
      rw [hlater]
      cases ho : x s with
      | unfinished => exact absurd ho hx
      | _ => simp [Outcome.later]
    exact (h.le n (s.later d)).resolve_left hends ▸ hlater

end Action

namespace Region

variable {R : Region} {w w' : Store} {α β : Type} [Placed α] [Placed β] {d : Nat}

/-- Begun `d` steps later, the action does the same. -/
structure Uncounted (R : Region) (d : Nat) (w : Store) (x : Action α) : Prop where
  sound : R.Sound w x
  later : ∀ s, R.From w s → x (s.later d) = (x s).later d

namespace Uncounted

lemma of_elementary {x : Action α} (hx : R.Sound w x) (h : x.Elementary) : R.Uncounted d w x :=
  ⟨hx, fun s _ => h.onStore.later d s⟩

lemma unfinished : R.Uncounted d w (Action.unfinished : Action α) :=
  ⟨fun _ _ => .unfinished, fun _ _ => rfl⟩

lemma weaken {x : Action α} (h : R.Uncounted d w x) (hw : w ≤ w') : R.Uncounted d w' x :=
  ⟨h.sound.weaken hw, fun s hs => h.later s (hs.mono hw)⟩

lemma bind {x : Action α} {f : α → Action β} (h : R.Uncounted d w x)
    (hf : ∀ w', w ≤ w' → ∀ a, R.Inside w' a → R.Uncounted d w' (f a)) :
    R.Uncounted d w (x >>= f) where
  sound := h.sound.bind fun w' hw a ha => (hf w' hw a ha).sound
  later s hs := by
    have hk := h.sound s hs
    rw [Action.bind_apply, Action.bind_apply, h.later s hs]
    generalize x s = o at hk ⊢
    cases hk with
    | @value a t run inside =>
      exact (hf t.store (hs.run run).le a inside).later t ⟨le_rfl, run.valid⟩
    | error run => rfl
    | unfinished => rfl

lemma blame {x : Action α} (h : R.Uncounted d w x) (span : Span) :
    R.Uncounted d w (Action.blame span x) where
  sound := h.sound.blame span
  later s hs := by
    rw [Action.blame_apply, Action.blame_apply, h.later s hs]
    cases x s <;> rfl

lemma attempt {x : Action α} (h : R.Uncounted d w x) : R.Uncounted d w (Action.attempt x) where
  sound := h.sound.attempt
  later s hs := by
    rw [Action.attempt_apply, Action.attempt_apply, h.later s hs]
    cases x s <;> rfl

lemma limited {x : Action α} (h : R.Uncounted d w x) (max : UInt64) :
    R.Uncounted d w (Action.limited max x) where
  sound := h.sound.limited max
  later s hs := by
    rw [Action.limited_apply, Action.limited_apply]
    show (if max.toNat ≤ s.depth then _ else _) = _
    split
    · rfl
    · have hdeeper : x { s.later d with depth := (s.later d).depth + 1 } =
          (x { s with depth := s.depth + 1 }).later d :=
        h.later { s with depth := s.depth + 1 } ⟨hs.le, hs.valid⟩
      rw [Action.nested_apply, Action.nested_apply, hdeeper]
      cases x { s with depth := s.depth + 1 } <;> rfl

lemma tick {limit : Option UInt64} (h : limit = none ∨ 2 ^ 64 ∣ d) :
    R.Uncounted d w (Action.tick limit) where
  sound := .tick limit
  later s _ := by
    have hticked : (s.later d).ticked = s.ticked.later d :=
      congrArg (fun n => { s with steps := n }) (Nat.add_right_comm s.steps d 1)
    cases limit with
    | none => rw [Action.tick_none, Action.tick_none, hticked, Outcome.later]
    | some l =>
      have hcounter : (s.ticked.later d).counter = s.ticked.counter :=
        State.counter_later (h.resolve_left (Option.some_ne_none l)) s.ticked
      rw [Action.tick_some, Action.tick_some, hticked, hcounter]
      split <;> rfl

lemma stepsTaken (hd : 2 ^ 64 ∣ d) : R.Uncounted d w Action.stepsTaken where
  sound := Contained.stepsTaken.sound
  later s _ := by
    show Outcome.value (s.later d).counter (s.later d) = .value s.counter (s.later d)
    rw [State.counter_later hd]

/-- All that evaluations are put together from works on the store alone. -/
lemma of_primitive {B : ScopeRef → String → Prop} {p : Action α} (h : R.Primitive B w p) :
    R.Uncounted d w p := by
  refine ⟨h.contained.sound, ?_⟩
  induction h with
  | pure _ => exact fun s _ => Action.OnStore.later (.pure _) d s
  | raise _ => exact fun s _ => Action.OnStore.later (.raise _) d s
  | read _ _ _ => exact fun s _ => Action.OnStore.later (.read _) d s
  | search _ name => exact fun s _ => Action.OnStore.later (.search _ name) d s
  | assign _ name _ => exact fun s _ => Action.OnStore.later (.assign _ name _) d s
  | freshScope _ => exact fun s _ => Action.OnStore.later (.create _) d s
  | newObject _ _ _ => exact fun s _ => Action.OnStore.later (.create _) d s
  | newArray _ => exact fun s _ => Action.OnStore.later (.create _) d s
  | bind hp hf ihp ihf =>
    exact (Uncounted.bind ⟨hp.contained.sound, ihp⟩ fun w' hw a ha =>
      ⟨(hf w' hw a ha).contained.sound, ihf w' hw a ha⟩).later
  | blame _ hp span ih => exact (Uncounted.blame ⟨hp.contained.sound, ih⟩ span).later
  | _ => exact fun s _ => Action.OnStore.later (.update _) d s

end Uncounted

end Region

namespace Congruence

open Region Evaluator

variable {R : Region} {σ : Setting} {d : Nat}

/-- The congruence of evaluations that nobody counts the steps of, beyond whole turns of the
counter. -/
def uncounted (σ : Setting) (d : Nat) (hsteps : R.allows .steps → 2 ^ 64 ∣ d)
    (hglobals : ∀ {n}, R.allows n → .scope σ.globals ∈ R.start) :
    Congruence R (fun _ : Unit => σ) where
  Holds w x := R.Uncounted d w (x ())
  weaken h hw := h.weaken hw
  leaf h := .of_primitive h
  stepsTaken h := .stepsTaken (hsteps h)
  bind h hf := h.bind hf
  blame span _ h := h.blame span
  limited h := h.limited _
  attempt _ h := h.attempt
  globals h := same_globals_of_allows @hglobals h
  arguments f _ _ hc _ ha := .of_elementary (Contained.bindArguments _ f hc ha).sound
    (.bindArguments _ f _ _)

variable (hsteps : R.allows .steps → 2 ^ 64 ∣ d)
  (hglobals : ∀ {n}, R.allows n → .scope σ.globals ∈ R.start) {w : Store} {c : ScopeRef}

/-- Whatever evaluators without a step limit do, they do it later as well. -/
lemma uncounted_level (hlimit : σ.config.stepLimit = none ∨ 2 ^ 64 ∣ d) (n : Nat) :
    (uncounted σ d hsteps hglobals).Obeys (fun _ => True) fun _ => level σ n := by
  induction n with
  | zero => exact .stuck fun _ => .unfinished
  | succ n ih =>
    have htick (w : Store) : R.Uncounted d w (Action.tick σ.config.stepLimit) := .tick hlimit
    have hloops := (uncounted σ d hsteps hglobals).loops_above (fun _ => level σ n)
      (fun _ => .unfinished) htick fun _ => rounds_level σ n
    rw [level_succ]
    refine ih.above (fun w c hc l _ _ => ?_) htick hloops fun w r args hr ha => ?_
    · exact .of_elementary (Contained.makeFunction hc l).sound (.makeFunction c l)
    · refine Uncounted.bind (.of_elementary (Contained.readClosure hr).sound (.read _))
        fun w' hw f hf => ?_
      show (uncounted σ d hsteps hglobals).Holds w' fun _ =>
        (level σ n).callClosure σ.config.arity f args
      refine (uncounted σ d hsteps hglobals).callClosure hf (ha.mono hw)
        fun w'' hw' c hc hnew => ?_
      exact (uncounted σ d hsteps hglobals).answer
        (ih.execAll hc hnew fun _ _ _ _ => trivial) fun _ _ =>
          .of_elementary (Contained.raise _).sound (.raise _)

end Congruence

namespace Setting

open Region Congruence

variable {R : Region} {σ : Setting} {w : Store} {c : ScopeRef} {s : State}
  (hsteps : ¬ R.allows .steps) (hglobals : ∀ {n}, R.allows n → .scope σ.globals ∈ R.start)
  (hlimit : σ.config.stepLimit = none) (hc : R.Inside w c) (hs : R.From w s)
include hsteps hglobals hlimit hc hs

/-- The evaluation of an expression stays inside of a region that it is begun in. -/
lemma full_expr_kept (e : Expr) : R.Kept s (σ.full.expr e c s) := by
  by_cases hfull : σ.full.expr e c s = .unfinished
  · rw [hfull]
    exact .unfinished
  · obtain ⟨n, hn⟩ := (σ.level_comeTo.expr e c).ends s hfull
    rw [← hn n le_rfl]
    exact ((uncounted_level (d := 0) (absurd · hsteps) hglobals (.inl hlimit) n).expr hc
      (fun _ _ => trivial) fun _ _ => trivial).sound s hs

theorem full_expr_later (e : Expr) (d : Nat) :
    σ.full.expr e c (s.later d) = (σ.full.expr e c s).later d :=
  (σ.level_comeTo.expr e c).later fun n =>
    ((uncounted_level (absurd · hsteps) hglobals (.inl hlimit) n).expr hc (fun _ _ => trivial)
      fun _ _ => trivial).later s hs

theorem full_assign_later (target : Expr) {v : Value} (hv : R.Inside w v) (d : Nat) :
    σ.full.assign target v c (s.later d) = (σ.full.assign target v c s).later d :=
  (σ.level_comeTo.assign target v c).later fun n =>
    ((uncounted_level (absurd · hsteps) hglobals (.inl hlimit) n).assign hc hv (fun _ _ => trivial)
      fun _ _ => trivial).later s hs

end Setting

namespace Evaluator

open Region Congruence

/-- Begun whole turns of the counter later an evaluation is the same, with any limit and whatever
builtins there are. -/
theorem level_later (σ : Setting) {s : State} (hst : s.store.Intact)
    (hglobals : s.store.Has (.scope σ.globals)) {d : Nat} (hd : 2 ^ 64 ∣ d) (n : Nat) :
    (∀ program, (level σ n).runFrom σ.globals .nil program (s.later d) =
      ((level σ n).runFrom σ.globals .nil program s).later d) ∧
    (∀ c, s.store.Has (.scope c) →
      (∀ e, (level σ n).expr e c (s.later d) = ((level σ n).expr e c s).later d) ∧
      (∀ x, (level σ n).stmt x c (s.later d) = ((level σ n).stmt x c s).later d)) ∧
    (∀ f args, (∀ v ∈ f :: args, ∀ m, v.node? = some m → s.store.Has m) →
      (level σ n).call f args (s.later d) = ((level σ n).call f args s).later d) := by
  have hlevel := uncounted_level (R := whole s.store hst) (σ := σ) (fun _ => hd)
    (fun _ => hglobals) (.inr hd) n
  have hs : (whole s.store hst).From s.store s := ⟨le_rfl, valid_base _⟩
  have hexpr : ∀ {w c}, (whole s.store hst).Inside w c → ∀ e,
      (whole s.store hst).Uncounted d w ((level σ n).expr e c) :=
    fun hc e => hlevel.expr hc (fun _ _ => trivial) fun _ _ => trivial
  have hstmt : ∀ {w c}, (whole s.store hst).Inside w c → ∀ x,
      (whole s.store hst).Uncounted d w ((level σ n).stmt x c) :=
    fun hc x => hlevel.stmt hc (fun _ _ => trivial) fun _ _ => trivial
  refine ⟨fun program => ?_, fun c hc => ⟨fun e => ?_, fun x => ?_⟩, fun f args hvs => ?_⟩
  · have hnil : (whole s.store hst).Inside s.store Value.nil := inside_of_node?_eq_none rfl
    have hrun : (whole s.store hst).Uncounted d s.store
        ((level σ n).runFrom σ.globals .nil program) :=
      (uncounted σ d _ _).runFrom hlevel.tick (.inl hglobals) hnil program
        (fun _ _ e _ => hexpr (.inl hglobals) e) (fun x _ => hstmt (.inl hglobals) x)
        fun _ span => .blame (.of_elementary (Contained.raise _).sound (.raise _)) span
    exact hrun.later s hs
  · exact (hexpr (.inl hc) e).later s hs
  · exact (hstmt (.inl hc) x).later s hs
  · have hin : ∀ v ∈ f :: args, (whole s.store hst).Inside s.store v :=
      fun v hv m hm => .inl (hvs v hv m hm)
    have hcall : (whole s.store hst).Uncounted d s.store ((level σ n).call f args) :=
      (uncounted σ d _ _).call (hin f List.mem_cons_self) fun _ =>
        hlevel.invoke (hin f List.mem_cons_self) fun v hv => hin v (List.mem_cons_of_mem f hv)
    exact hcall.later s hs

end Evaluator

end TreeWalk
