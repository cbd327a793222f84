/-
# Two evaluations that end alike, at levels of their own

The evaluations of a program and of a changed one need not take the same number of levels to come
to the same end.  A family of actions has one for each side and each level; if either of the sides
comes to an end, from two stores that differ in the bodies of functions, then both sides come to
that end and stay there, from some level on (`Region.Simulates`).  This is a congruence, as long as
nobody looks at the number of steps.  It speaks of ends below a level `k`, so that it can be shown
for one level after the other.
-/
import TreeWalk.Proofs.Congruence.Calls

namespace TreeWalk

/-- What belongs to one of the two sides. -/
def side {α : Type} (b : Bool) (a a' : α) : α := bif b then a' else a

section

variable {α : Type} (b : Bool) {s s' : State}

lemma side_value (a : α) :
    side b (.value a s) (.value a s') = (Outcome.value a (side b s s') : Outcome α) := by
  cases b <;> rfl

lemma side_error (e : EvalError) :
    side b (.error e s) (.error e s') = (Outcome.error e (side b s s') : Outcome α) := by
  cases b <;> rfl

lemma side_self (a : α) : side b a a = a := by cases b <;> rfl

end

/-- The outcome once the call that was made has been left. -/
def Outcome.left {α : Type} : Outcome α → Outcome α
  | .value a t => .value a { t with depth := t.depth - 1 }
  | .error e t => .error e { t with depth := t.depth - 1 }
  | .unfinished => .unfinished

namespace Region

variable {R : Region} {ρ : Recoding} {k : Nat} {w w' : Store} {α β : Type}

/-- From the states `s` and `s'` the two sides of the family come to the ends `o` and `o'`, which
differ in the bodies of functions. -/
structure Joins [Placed α] (R : Region) (ρ : Recoding) (x : Bool × Nat → Action α)
    (s s' : State) (o o' : Outcome α) : Prop where
  kept : R.Kept s o
  recodes : o.Recodes ρ o'
  settles : ∃ n, ∀ m, n ≤ m → x (false, m) s = o ∧ x (true, m) s' = o'

/-- If one of the sides comes to an end at a level up to `k`, then both sides come to that end. -/
def Simulates [Placed α] (R : Region) (ρ : Recoding) (k : Nat) (w : Store)
    (x : Bool × Nat → Action α) : Prop :=
  ∀ s s', R.From w s → s.Recodes ρ s' → ∀ i : Bool × Nat, i.2 ≤ k →
    x i (side i.1 s s') ≠ .unfinished →
    ∃ o o', R.Joins ρ x s s' o o' ∧ x i (side i.1 s s') = side i.1 o o'

variable [Placed α] [Placed β]

namespace Simulates

lemma weaken {x : Bool × Nat → Action α} (h : R.Simulates ρ k w x) (hw : w ≤ w') :
    R.Simulates ρ k w' x :=
  fun s s' hs => h s s' (hs.mono hw)

/-- An action that does the same on both sides, whatever the bodies of functions are. -/
lemma of_recodes {p : Action α} (hsound : R.Sound w p)
    (hp : ∀ s s', R.From w s → s.Recodes ρ s' → (p s).Recodes ρ (p s')) :
    R.Simulates ρ k w fun _ => p := by
  intro s s' hs hss i _ _
  refine ⟨p s, p s', ⟨hsound s hs, hp s s' hs hss, 0, fun _ _ => ⟨rfl, rfl⟩⟩, ?_⟩
  cases i.1 <;> rfl

lemma of_primitive {p : Action α} (hp : R.Primitive anyName w p) : R.Simulates ρ k w fun _ => p :=
  of_recodes hp.contained.sound fun _ _ hs hss => hp.recodes ρ hs hss

lemma raise (fault : Fault) : R.Simulates ρ k w fun _ => (Action.raise fault : Action α) :=
  of_recodes (Contained.raise fault).sound fun _ _ _ hss => .error hss

lemma bind {x : Bool × Nat → Action α} {f : Bool × Nat → α → Action β}
    (h : R.Simulates ρ k w x)
    (hf : ∀ w', w ≤ w' → ∀ a, R.Inside w' a → R.Simulates ρ k w' fun i => f i a) :
    R.Simulates ρ k w fun i => x i >>= f i := by
  intro s s' hs hss i hi hne
  change (x i >>= f i) (side i.1 s s') ≠ .unfinished at hne
  show ∃ o o', _ ∧ (x i >>= f i) (side i.1 s s') = side i.1 o o'
  have hx : x i (side i.1 s s') ≠ .unfinished := fun hx => hne (by rw [Action.bind_apply, hx])
  obtain ⟨o, o', ⟨hkept, hrec, n, hn⟩, hat⟩ := h s s' hs hss i hi hx
  rw [Action.bind_apply, hat] at hne ⊢
  cases hrec with
  | @value a t t' ht =>
    cases hkept with
    | value run inside =>
      rw [side_value] at hne ⊢
      obtain ⟨q, q', ⟨hkept', hrec', n', hn'⟩, hat'⟩ :=
        hf t.store (hs.run run).le a inside t t' ⟨le_rfl, run.valid⟩ ht i hi hne
      refine ⟨q, q', ⟨.of_run run hkept', hrec', max n n', fun m hm => ?_⟩, hat'⟩
      rw [Action.bind_apply, Action.bind_apply, (hn m (le_of_max_le_left hm)).1,
        (hn m (le_of_max_le_left hm)).2]
      exact hn' m (le_of_max_le_right hm)
  | @error e t t' ht =>
    cases hkept with
    | error run =>
      refine ⟨.error e t, .error e t', ⟨.error run, .error ht, n, fun m hm => ?_⟩, ?_⟩
      · rw [Action.bind_apply, Action.bind_apply, (hn m hm).1, (hn m hm).2]
        exact ⟨rfl, rfl⟩
      · rw [side_error, side_error]
  | unfinished => exact absurd (hat.trans (side_self _ _)) hx

/-- An action that looks at the end of another one, and at nothing else. -/
lemma lift {x : Bool × Nat → Action α} (h : R.Simulates ρ k w x) (F : Outcome α → Outcome β)
    (hF : F .unfinished = .unfinished)
    (hkept : ∀ s o, R.Kept s o → R.Kept s (F o))
    (hrec : ∀ o o', o.Recodes ρ o' → (F o).Recodes ρ (F o')) :
    R.Simulates ρ k w fun i s => F (x i s) := by
  intro s s' hs hss i hi hne
  change F (x i (side i.1 s s')) ≠ .unfinished at hne
  have hx : x i (side i.1 s s') ≠ .unfinished := fun hx => hne (by rw [hx, hF])
  obtain ⟨o, o', ⟨hk, hr, n, hn⟩, hat⟩ := h s s' hs hss i hi hx
  refine ⟨F o, F o', ⟨hkept s o hk, hrec o o' hr, n, fun m hm => ?_⟩, ?_⟩
  · exact ⟨congrArg F (hn m hm).1, congrArg F (hn m hm).2⟩
  · show F (x i (side i.1 s s')) = _
    rw [hat]
    cases i.1 <;> rfl

lemma blame {x : Bool × Nat → Action α} (h : R.Simulates ρ k w x) (span : Span) :
    R.Simulates ρ k w fun i => Action.blame span (x i) := by
  refine h.lift (fun
    | .value a t => .value a t
    | .error e t => .error (e.blame span) t
    | .unfinished => .unfinished) rfl (fun s o ho => ?_) fun o o' ho => ?_
  · cases ho with
    | value run inside => exact .value run inside
    | error run => exact .error run
    | unfinished => exact .unfinished
  · cases ho with
    | value ht => exact .value ht
    | error ht => exact .error ht
    | unfinished => exact .unfinished

lemma attempt {x : Bool × Nat → Action α} (h : R.Simulates ρ k w x) :
    R.Simulates ρ k w fun i => Action.attempt (x i) := by
  refine h.lift (fun
    | .value a t => .value (Except.ok a) t
    | .error e t => .value (Except.error e) t
    | .unfinished => .unfinished) rfl (fun s o ho => ?_) fun o o' ho => ?_
  · cases ho with
    | value run inside => exact .value run (inside_ok inside)
    | error run => exact .value run (inside_error trivial)
    | unfinished => exact .unfinished
  · cases ho with
    | value ht => exact .value ht
    | error ht => exact .value ht
    | unfinished => exact .unfinished

lemma nested {x : Bool × Nat → Action α} (h : R.Simulates ρ k w x) :
    R.Simulates ρ k w fun i => Action.nested (x i) := by
  intro s s' hs hss i hi hne
  have hdeeper : State.Recodes ρ { s with depth := s.depth + 1 }
      { s' with depth := s'.depth + 1 } := ⟨hss.store, congrArg (· + 1) hss.depth⟩
  have heq : Action.nested (x i) (side i.1 s s') = (x i
      (side i.1 { s with depth := s.depth + 1 } { s' with depth := s'.depth + 1 })).left := by
    cases i.1 <;> rfl
  obtain ⟨o, o', ⟨hk, hr, n, hn⟩, hat⟩ := h { s with depth := s.depth + 1 } _ ⟨hs.le, hs.valid⟩
    hdeeper i hi fun hx => hne (heq.trans (congrArg Outcome.left hx))
  refine ⟨o.left, o'.left, ⟨?_, ?_, n, fun m hm => ?_⟩, ?_⟩
  · cases hk with
    | value run inside => exact .value run.of_nested inside
    | error run => exact .error run.of_nested
    | unfinished => exact .unfinished
  · cases hr with
    | value ht => exact .value ⟨ht.store, congrArg (· - 1) ht.depth⟩
    | error ht => exact .error ⟨ht.store, congrArg (· - 1) ht.depth⟩
    | unfinished => exact .unfinished
  · exact ⟨congrArg Outcome.left (hn m hm).1, congrArg Outcome.left (hn m hm).2⟩
  · refine heq.trans ?_
    rw [hat]
    cases i.1 <;> rfl

lemma limited {x : Bool × Nat → Action α} (h : R.Simulates ρ k w x) (max : UInt64) :
    R.Simulates ρ k w fun i => Action.limited max (x i) := by
  intro s s' hs hss i hi hne
  have hside : (side i.1 s s').depth = s.depth := by
    cases i.1 with
    | false => rfl
    | true => exact hss.depth
  by_cases hmax : max.toNat ≤ s.depth
  · have hrefused : ∀ (y : Action α) t, t.depth = s.depth →
        Action.limited max y t = .error (.ofFault (.callDepth max)) t := fun y t ht => by
      rw [Action.limited_apply, if_pos (ht ▸ hmax)]
    refine ⟨_, _, ⟨.error (.refl hs.valid), .error hss, 0, fun m _ =>
      ⟨hrefused _ s rfl, hrefused _ s' hss.depth⟩⟩, ?_⟩
    rw [side_error]
    exact hrefused _ _ hside
  · have hallowed : ∀ (y : Action α) t, t.depth = s.depth →
        Action.limited max y t = Action.nested y t := fun y t ht => by
      rw [Action.limited_apply, if_neg (ht ▸ hmax)]
    have heq := hallowed (x i) _ hside
    obtain ⟨o, o', ⟨hk, hr, n, hn⟩, hat⟩ :=
      h.nested s s' hs hss i hi fun hx => hne (heq.trans hx)
    refine ⟨o, o', ⟨hk, hr, n, fun m hm => ?_⟩, heq.trans hat⟩
    rw [hallowed _ s rfl, hallowed _ s' hss.depth]
    exact hn m hm

/-- A step without a limit makes no difference that is looked at. -/
lemma tick : R.Simulates ρ k w fun _ => Action.tick none :=
  of_recodes (.tick none) fun _ _ _ hss => .value ⟨hss.store, hss.depth⟩

/-- Neither does one that is taken before something else. -/
lemma ticked {x : Bool × Nat → Action α} (h : R.Simulates ρ k w x) (span : Span) :
    R.Simulates ρ k w fun i => Action.blame span (do Action.tick none; x i) :=
  (tick.bind fun _ hw _ _ => h.weaken hw).blame span

/-! ### Levels -/

/-- Nothing ends below level zero. -/
lemma zero {x : Bool × Nat → Action α} (hzero : ∀ b, x (b, 0) = Action.unfinished) :
    R.Simulates ρ 0 w x := by
  rintro s s' - - ⟨b, n⟩ hn hne
  obtain rfl := Nat.le_zero.mp hn
  exact absurd (congrFun (hzero b) _) hne

/-- A family that does at each level what another one does at the level below. -/
lemma succ {x y : Bool × Nat → Action α} (h : R.Simulates ρ k w y)
    (hzero : ∀ b, x (b, 0) = Action.unfinished) (hsucc : ∀ b n, x (b, n + 1) = y (b, n)) :
    R.Simulates ρ (k + 1) w x := by
  rintro s s' hs hss ⟨b, n⟩ hn hne
  cases n with
  | zero => exact absurd (congrFun (hzero b) _) hne
  | succ n =>
    rw [hsucc] at hne ⊢
    obtain ⟨o, o', ⟨hk, hr, m₀, hm₀⟩, hat⟩ := h s s' hs hss (b, n) (Nat.le_of_succ_le_succ hn) hne
    refine ⟨o, o', ⟨hk, hr, m₀ + 1, fun m hm => ?_⟩, hat⟩
    obtain ⟨m, rfl⟩ : ∃ j, m = j + 1 := ⟨m - 1, by omega⟩
    rw [hsucc, hsucc]
    exact hm₀ m (by omega)

/-- The first side does something of its own to the counters before it does, a level higher, what
the second one does. -/
lemma ahead {x y : Bool × Nat → Action α} (h : R.Simulates ρ k w y) {D : State → State}
    (hrun : ∀ s, R.Valid s.store → R.Run s (D s)) (hstore : ∀ s, (D s).store = s.store)
    (hzero : x (false, 0) = Action.unfinished)
    (hsucc : ∀ n s, x (false, n + 1) s = y (false, n) (D s))
    (htrue : ∀ n, x (true, n) = y (true, n)) : R.Simulates ρ k w x := by
  rintro s s' hs hss ⟨b, n⟩ hn hne
  have hD := hrun s hs.valid
  have hss' : State.Recodes ρ (D s) s' :=
    ⟨by rw [hstore]; exact hss.store, by rw [hD.depth]; exact hss.depth⟩
  have hlater : ∀ o o', R.Joins ρ y (D s) s' o o' → R.Joins ρ x s s' o o' := by
    rintro o o' ⟨hk, hr, m₀, hm₀⟩
    refine ⟨.of_run hD hk, hr, m₀ + 1, fun m hm => ?_⟩
    obtain ⟨m, rfl⟩ : ∃ j, m = j + 1 := ⟨m - 1, by omega⟩
    rw [hsucc, htrue]
    exact ⟨(hm₀ m (by omega)).1, (hm₀ (m + 1) (by omega)).2⟩
  cases b with
  | true =>
    rw [htrue] at hne ⊢
    obtain ⟨o, o', hjoins, hat⟩ := h (D s) s' (hs.run hD) hss' (true, n) hn hne
    exact ⟨o, o', hlater o o' hjoins, hat⟩
  | false =>
    cases n with
    | zero => exact absurd (congrFun hzero _) hne
    | succ n =>
      have heq : x (false, n + 1) (side false s s') = y (false, n) (side false (D s) s') :=
        hsucc n s
      rw [heq] at hne ⊢
      obtain ⟨o, o', hjoins, hat⟩ :=
        h (D s) s' (hs.run hD) hss' (false, n) (Nat.le_of_succ_le hn) hne
      exact ⟨o, o', hlater o o' hjoins, hat⟩

lemma of_eq {x y : Bool × Nat → Action α} (h : R.Simulates ρ k w y) (heq : ∀ i, x i = y i) :
    R.Simulates ρ k w x := by
  rwa [funext heq]

lemma of_sides {x y : Bool × Nat → Action α} (h : R.Simulates ρ k w y)
    (hfalse : ∀ n, x (false, n) = y (false, n)) (htrue : ∀ n, x (true, n) = y (true, n)) :
    R.Simulates ρ k w x := by
  refine h.of_eq ?_
  rintro ⟨_ | _, n⟩
  · exact hfalse n
  · exact htrue n

/-! ### Loops -/

/-- The rounds of a loop come to their ends one after the other, and so does the loop, if it may
have enough rounds. -/
lemma exists_repeated {x : Bool × Nat → Action (Option β)} (h : R.Simulates ρ k w x)
    {i : Bool × Nat} (hi : i.2 ≤ k) (r : Nat) {s s' : State} (hs : R.From w s)
    (hss : s.Recodes ρ s') (hne : Action.repeated (x i) r (side i.1 s s') ≠ .unfinished) :
    ∃ o o', R.Kept s o ∧ o.Recodes ρ o' ∧
      Action.repeated (x i) r (side i.1 s s') = side i.1 o o' ∧
      ∃ n, ∀ m r', n ≤ m → n ≤ r' → Action.repeated (x (false, m)) r' s = o ∧
        Action.repeated (x (true, m)) r' s' = o' := by
  induction r generalizing s s' with
  | zero => exact absurd rfl hne
  | succ r ih =>
    have hx : x i (side i.1 s s') ≠ .unfinished := fun hx => hne (by
      rw [Action.repeated, Action.bind_apply, hx])
    obtain ⟨o, o', ⟨hk, hr, n, hn⟩, hat⟩ := h s s' hs hss i hi hx
    rw [Action.repeated, Action.bind_apply, hat] at hne ⊢
    cases hr with
    | @value a t t' ht =>
      cases hk with
      | value run inside =>
        rw [side_value] at hne ⊢
        cases a with
        | some b =>
          refine ⟨.value b t, .value b t', .value run (inside b rfl), .value ht,
            (side_value _ _).symm, n + 1, fun m r' hm hr' => ?_⟩
          obtain ⟨r', rfl⟩ : ∃ j, r' = j + 1 := ⟨r' - 1, by omega⟩
          rw [Action.repeated, Action.repeated, Action.bind_apply, Action.bind_apply,
            (hn m (by omega)).1, (hn m (by omega)).2]
          exact ⟨rfl, rfl⟩
        | none =>
          -- both sides go on with the next round
          obtain ⟨q, q', hk', hr', hat', n', hn'⟩ := ih (hs.run run) ht hne
          refine ⟨q, q', .of_run run hk', hr', hat', max n n' + 1, fun m r' hm hr' => ?_⟩
          obtain ⟨r', rfl⟩ : ∃ j, r' = j + 1 := ⟨r' - 1, by omega⟩
          rw [Action.repeated, Action.repeated, Action.bind_apply, Action.bind_apply,
            (hn m (by omega)).1, (hn m (by omega)).2]
          exact hn' m r' (by omega) (by omega)
    | @error e t t' ht =>
      cases hk with
      | error run =>
        refine ⟨.error e t, .error e t', .error run, .error ht, ?_, n + 1, fun m r' hm hr' => ?_⟩
        · rw [side_error, side_error]
        · obtain ⟨r', rfl⟩ : ∃ j, r' = j + 1 := ⟨r' - 1, by omega⟩
          rw [Action.repeated, Action.repeated, Action.bind_apply, Action.bind_apply,
            (hn m (by omega)).1, (hn m (by omega)).2]
          exact ⟨rfl, rfl⟩
    | unfinished => exact absurd (hat.trans (side_self _ _)) hx

/-- A loop that has one round for each level. -/
lemma repeated {x : Bool × Nat → Action (Option β)} (h : R.Simulates ρ k w x) :
    R.Simulates ρ k w fun i => Action.repeated (x i) i.2 := by
  intro s s' hs hss i hi hne
  obtain ⟨o, o', hk, hr, hat, n, hn⟩ := h.exists_repeated hi i.2 hs hss hne
  exact ⟨o, o', ⟨hk, hr, n, fun m hm => hn m m hm hm⟩, hat⟩

end Simulates

end Region

/-- The congruence of evaluations that come to the same ends on both sides, where nobody looks at
the number of steps. -/
def Congruence.simulates {R : Region} (ρ : Recoding) (k : Nat) (σ : Setting)
    (hsteps : ¬ R.allows .steps) (hglobals : .scope σ.globals ∈ R.start) :
    Congruence R (fun _ : Bool × Nat => σ) where
  Holds w x := R.Simulates ρ k w x
  weaken hx hw := hx.weaken hw
  leaf hp := .of_primitive hp
  stepsTaken h := absurd h hsteps
  bind hx hf := hx.bind hf
  blame span _ hx := hx.blame span
  limited hx := hx.limited _
  attempt _ hx := hx.attempt
  globals _ := ⟨σ.globals, hglobals, fun _ => rfl⟩
  arguments f _ _ hc _ ha := .of_primitive (.bindArguments _ f hc ha fun _ => trivial)

end TreeWalk
