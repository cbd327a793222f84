/-
# Settling with a step limit

A family of actions, one for each level, settles from a state if all actions of high enough levels
come to the same end there.  With a step limit the evaluation of everything settles from states that
are in a budget with room (`Budget`).  What is done settles without a higher debt, or with a debt
that is higher by one if it fails; only a call may come to a value with a higher debt, as builtins
catch errors, and the step that was taken for the call has paid for that (`Settles.after_tick`).
The number `k` bounds what is left of the steps that may be granted, and is what the proof that all
levels settle is by induction on.
-/
import TreeWalk.Proofs.Budget
import TreeWalk.Proofs.Law.Sounds

namespace TreeWalk

namespace Action

variable {α β : Type} {l : UInt64} {s : State}

lemma tick_bind_apply (f : Unit → Action α) :
    (tick (some l) >>= f) s =
      if l < s.ticked.counter then .error (.ofFault (.stepLimit l)) s.ticked
      else f () s.ticked := by
  rw [bind_apply, tick_some]
  by_cases h : l < s.ticked.counter
  · rw [if_pos h, if_pos h]
  · rw [if_neg h, if_neg h]

/-- A round that takes a step, and what comes after it. -/
lemma repeated_succ_apply (x : Action (Option β)) (n : Nat) :
    repeated (do tick (some l); x) (n + 1) s =
      if l < s.ticked.counter then .error (.ofFault (.stepLimit l)) s.ticked
      else
        match x s.ticked with
        | .value (some b) t => .value b t
        | .value none t => repeated (do tick (some l); x) n t
        | .error e t => .error e t
        | .unfinished => .unfinished := by
  rw [repeated, bind_assoc, tick_bind_apply]
  split
  · rfl
  · rw [bind_apply]
    cases x s.ticked with
    | value o t => cases o <;> rfl
    | error e t => rfl
    | unfinished => rfl

end Action

/-- The end of an action that began in the state `s`, with a debt that is higher by no more than `d`
after a value, and by no more than one after an error. -/
inductive Budget.Allows {α : Type} (B : Budget) (d : Nat) (s : State) : Outcome α → Prop
  | value {a : α} {t : State} (h : B.debt t.steps ≤ B.debt s.steps + d) : Allows B d s (.value a t)
  | error {e : EvalError} {t : State} (h : B.debt t.steps ≤ B.debt s.steps + 1) :
      Allows B d s (.error e t)

lemma Budget.Allows.ne_unfinished {α : Type} {B : Budget} {d : Nat} {s : State} {o : Outcome α}
    (h : B.Allows d s o) : o ≠ .unfinished := by
  cases h <;> simp

namespace Region

variable {R : Region} {w w' : Store} {α β : Type} [Placed α] [Placed β] {B : Budget} {d k : Nat}

/-- The family comes to the end `o` from some level on. -/
def SettlesAt (f : Nat → Outcome α) (o : Outcome α) : Prop :=
  o ≠ .unfinished ∧ ∃ n, ∀ m, n ≤ m → f m = o

namespace SettlesAt

omit [Placed α] [Placed β]

variable {f : Nat → Outcome α} {o : Outcome α} {x : Nat → Action α} {y : Nat → α → Action β}
  {s t : State}

/-- What is the same at all levels has settled. -/
lemma const (ho : o ≠ .unfinished) : SettlesAt (fun _ => o) o := ⟨ho, 0, fun _ _ => rfl⟩

/-- What looks at a family that settles settles with it. -/
lemma map (h : SettlesAt f o) {g : Outcome α → Outcome β} (hg : g o ≠ .unfinished) :
    SettlesAt (fun n => g (f n)) (g o) := by
  obtain ⟨-, n, hn⟩ := h
  exact ⟨hg, n, fun m hm => congrArg g (hn m hm)⟩

/-- What settles from the level above on settles. -/
lemma shift (h : SettlesAt (fun n => f (n + 1)) o) : SettlesAt f o := by
  obtain ⟨ho, n, hn⟩ := h
  refine ⟨ho, n + 1, fun m hm => ?_⟩
  obtain ⟨m, rfl⟩ : ∃ j, m = j + 1 := ⟨m - 1, by omega⟩
  exact hn m (by omega)

lemma bind_value {a : α} {o' : Outcome β} (hx : SettlesAt (fun n => x n s) (.value a t))
    (hy : SettlesAt (fun n => y n a t) o') : SettlesAt (fun n => (x n >>= y n) s) o' := by
  obtain ⟨-, n, hn⟩ := hx
  obtain ⟨ho, n', hn'⟩ := hy
  -- from the higher one of the two levels on, both parts have settled
  refine ⟨ho, max n n', fun m hm => ?_⟩
  simp only [Action.bind_apply, hn m (le_of_max_le_left hm)]
  exact hn' m (le_of_max_le_right hm)

lemma bind_error {e : EvalError} (hx : SettlesAt (fun n => x n s) (.error e t)) :
    SettlesAt (fun n => (x n >>= y n) s) (.error e t) := by
  obtain ⟨-, n, hn⟩ := hx
  refine ⟨by simp, n, fun m hm => ?_⟩
  simp only [Action.bind_apply, hn m hm]

end SettlesAt

/-- The actions stay inside of the region, and settle from every state in which less than `k` of the
steps that may be granted are left; their end makes the debt higher by no more than `d`. -/
structure Settles (R : Region) (B : Budget) (d k : Nat) (w : Store) (x : Nat → Action α) :
    Prop where
  sound : ∀ n, R.Sound w (x n)
  settles : ∀ s, R.From w s → R.Grounded s.store → B.last - s.steps < k →
    B.debt s.steps < B.room → ∃ o, SettlesAt (fun n => x n s) o ∧ B.Allows d s o

namespace Settles

lemma weaken {x : Nat → Action α} (h : R.Settles B d k w x) (hw : w ≤ w') :
    R.Settles B d k w' x where
  sound n := (h.sound n).weaken hw
  settles s hs := h.settles s (hs.mono hw)

/-- What leaves the debt as it is does not make it higher. -/
lemma of_zero {x : Nat → Action α} (h : R.Settles B 0 k w x) : R.Settles B d k w x where
  sound := h.sound
  settles s hs hg hk hroom := by
    obtain ⟨o, ho, hdebt⟩ := h.settles s hs hg hk hroom
    refine ⟨o, ho, ?_⟩
    cases hdebt with
    | value h => exact .value (h.trans (Nat.le_add_right _ _))
    | error h => exact .error h

lemma of_contained {p : Action α} (hp : R.Contained w p) : R.Settles B d k w fun _ => p where
  sound _ := hp.sound
  settles s hs hg _ _ := by
    have hends := hp.ends s hs hg
    have hsteps := hp.steps s
    refine ⟨p s, .const hends, ?_⟩
    cases hend : p s with
    | value a t => exact .value (by rw [hsteps t hs (hend ▸ .value a t)]; omega)
    | error e t => exact .error (by rw [hsteps t hs (hend ▸ .error e t)]; omega)
    | unfinished => exact absurd hend hends

lemma of_primitive {p : Action α} (hp : R.Primitive anyName w p) :
    R.Settles B d k w fun _ => p :=
  of_contained hp.contained

omit [Placed α] [Placed β] in
/-- An action that looks at the end of another one settles if that does. -/
lemma of_outcome {d' : Nat} {x : Nat → Action α} {y : Nat → Action β} {s t : State}
    {f : Outcome α → Outcome β} (hf : ∀ o, B.Allows d t o → B.Allows d' s (f o))
    (hy : ∀ n, y n s = f (x n t)) (h : ∃ o, SettlesAt (fun n => x n t) o ∧ B.Allows d t o) :
    ∃ o, SettlesAt (fun n => y n s) o ∧ B.Allows d' s o := by
  obtain ⟨o, ho, hdebt⟩ := h
  simp only [hy]
  exact ⟨f o, ho.map (hf o hdebt).ne_unfinished, hf o hdebt⟩

/-- Only the last one of several actions may make the debt higher. -/
lemma bind {x : Nat → Action α} {f : Nat → α → Action β} (h : R.Settles B 0 k w x)
    (hf : ∀ w', w ≤ w' → ∀ a, R.Inside w' a → R.Settles B d k w' fun n => f n a) :
    R.Settles B d k w fun n => x n >>= f n where
  sound n := (h.sound n).bind fun w' hw a ha => (hf w' hw a ha).sound n
  settles s hs hg hk hroom := by
    obtain ⟨o, ho, hdebt⟩ := h.settles s hs hg hk hroom
    obtain ⟨n, hn⟩ := ho.2
    have hkept : R.Kept s o := hn n le_rfl ▸ h.sound n s hs
    cases hdebt with
    | @value a t hdebt =>
      cases hkept with
      | value run inside =>
        have hsteps := run.steps
        obtain ⟨o', ho', hdebt'⟩ := (hf t.store (hs.run run).le a inside).settles t
          ⟨le_rfl, run.valid⟩ (run.grounded hg) (by omega) (by omega)
        refine ⟨o', ho.bind_value ho', ?_⟩
        cases hdebt' with
        | value h => exact .value (by omega)
        | error h => exact .error (by omega)
    | error hdebt => exact ⟨_, ho.bind_error, .error hdebt⟩

/-- What takes no steps may also follow the last one. -/
lemma bind_contained {x : Nat → Action α} {f : α → Action β} (h : R.Settles B d k w x)
    (hd : d ≤ 1) (hf : ∀ w', w ≤ w' → ∀ a, R.Inside w' a → R.Contained w' (f a)) :
    R.Settles B d k w fun n => x n >>= f where
  sound n := (h.sound n).bind fun w' hw a ha => (hf w' hw a ha).sound
  settles s hs hg hk hroom := by
    obtain ⟨o, ho, hdebt⟩ := h.settles s hs hg hk hroom
    obtain ⟨n, hn⟩ := ho.2
    have hkept : R.Kept s o := hn n le_rfl ▸ h.sound n s hs
    cases hdebt with
    | @value a t hdebt =>
      cases hkept with
      | value run inside =>
        have hfrom : R.From t.store t := ⟨le_rfl, run.valid⟩
        have hp := hf t.store (hs.run run).le a inside
        have hends := hp.ends t hfrom (run.grounded hg)
        have hsteps := hp.steps t
        refine ⟨f a t, ho.bind_value (.const hends), ?_⟩
        cases hend : f a t with
        | value b u => exact .value (by rw [hsteps u hfrom (hend ▸ .value b u)]; omega)
        | error e u => exact .error (by rw [hsteps u hfrom (hend ▸ .error e u)]; omega)
        | unfinished => exact absurd hend hends
    | error hdebt => exact ⟨_, ho.bind_error, .error hdebt⟩

lemma blame {x : Nat → Action α} (h : R.Settles B d k w x) (span : Span) :
    R.Settles B d k w fun n => Action.blame span (x n) where
  sound n := (h.sound n).blame span
  settles s hs hg hk hroom := by
    refine of_outcome (t := s) (f := fun o => Action.blame span (fun _ => o) s) ?_ (fun _ => rfl)
      (h.settles s hs hg hk hroom)
    rintro _ (hdebt | hdebt)
    · exact .value hdebt
    · exact .error hdebt

/-- A refused step that is caught makes the debt of a value higher. -/
lemma attempt {x : Nat → Action α} (h : R.Settles B d k w x) (hd : d ≤ 1) :
    R.Settles B 1 k w fun n => Action.attempt (x n) where
  sound n := (h.sound n).attempt
  settles s hs hg hk hroom := by
    refine of_outcome (t := s) (f := fun o => Action.attempt (fun _ => o) s) ?_ (fun _ => rfl)
      (h.settles s hs hg hk hroom)
    rintro _ (hdebt | hdebt)
    · exact .value (hdebt.trans (Nat.add_le_add_left hd _))
    · exact .value hdebt

lemma nested {x : Nat → Action α} (h : R.Settles B d k w x) :
    R.Settles B d k w fun n => Action.nested (x n) where
  sound n := (h.sound n).nested
  settles s hs hg hk hroom := by
    refine of_outcome (t := { s with depth := s.depth + 1 })
      (f := fun o => Action.nested (fun _ => o) s) ?_ (fun _ => rfl)
      (h.settles _ ⟨hs.le, hs.valid⟩ hg hk hroom)
    rintro _ (hdebt | hdebt)
    · exact .value hdebt
    · exact .error hdebt

lemma limited {x : Nat → Action α} (h : R.Settles B d k w x) (max : UInt64) :
    R.Settles B d k w fun n => Action.limited max (x n) where
  sound n := (h.sound n).limited max
  settles s hs hg hk hroom := by
    simp only [Action.limited_apply]
    split
    · exact ⟨_, .const (by simp), .error (Nat.le_succ _)⟩
    · exact h.nested.settles s hs hg hk hroom

/-- What a level leaves to the level below settles if that does. -/
lemma shift {x : Nat → Action α} (hsound : ∀ n, R.Sound w (x n))
    (h : R.Settles B d k w fun n => x (n + 1)) : R.Settles B d k w x where
  sound := hsound
  settles s hs hg hk hroom := by
    obtain ⟨o, ho, hdebt⟩ := h.settles s hs hg hk hroom
    exact ⟨o, ho.shift, hdebt⟩

/-- A step that is granted leaves less of them, and pays for what comes after it. -/
lemma after_tick {x : Nat → Action α} (hsound : ∀ n, R.Sound w (x n))
    (h : ∀ j < k, R.Settles B B.price j w x) :
    R.Settles B 0 k w fun n => Action.tick (some B.limit) >>= fun _ => x n where
  sound n := (Sound.tick _).bind fun w' hw _ _ => (hsound n).weaken hw
  settles s hs hg hk hroom := by
    simp only [Action.tick_bind_apply]
    split
    · exact ⟨_, .const (by simp), .error (B.debt_succ_le _)⟩
    · next hgranted =>
      have hleft := B.lt_last_of_granted hroom hgranted
      have hpaid := B.debt_succ_add_price hleft
      have hsteps : s.ticked.steps = s.steps + 1 := rfl
      obtain ⟨o, ho, hdebt⟩ := (h (B.last - s.steps) hk).settles s.ticked ⟨hs.le, hs.valid⟩ hg
        (by omega) (by rw [hsteps]; omega)
      refine ⟨o, ho, ?_⟩
      rw [← hsteps] at hpaid
      cases hdebt with
      | value h => exact .value (by omega)
      | error h => exact .error (by omega)

lemma tick : R.Settles B 0 k w fun _ => Action.tick (some B.limit) := by
  have hnothing : R.Contained w (Pure.pure () : Action Unit) := .pure trivial
  simpa only [bind_pure_unit] using
    after_tick (k := k) (fun _ => hnothing.sound) fun _ _ => of_contained hnothing

/-- Every round of a loop takes a step, so that the rounds come to an end with the steps that are
granted. -/
lemma exists_repeated {x : Nat → Action (Option β)} (h : R.Settles B 0 k w x) (s : State)
    (hs : R.From w s) (hg : R.Grounded s.store) (hk : B.last - s.steps < k)
    (hroom : B.debt s.steps < B.room) :
    ∃ o, o ≠ .unfinished ∧ B.Allows 0 s o ∧ ∃ n, ∀ m, n ≤ m → ∀ r, B.last - s.steps < r →
      Action.repeated (do Action.tick (some B.limit); x m) r s = o := by
  generalize hd : B.last - s.steps = d at hk
  induction d using Nat.strong_induction_on generalizing s with
  | _ d ih =>
    by_cases hspent : B.limit < s.ticked.counter
    · refine ⟨.error (.ofFault (.stepLimit B.limit)) s.ticked, by simp,
        .error (B.debt_succ_le _), 0, fun m _ r hr => ?_⟩
      obtain ⟨r, rfl⟩ : ∃ j, r = j + 1 := ⟨r - 1, by omega⟩
      rw [Action.repeated_succ_apply, if_pos hspent]
    · have hleft := B.lt_last_of_granted hroom hspent
      have hpaid := B.debt_succ_add_price hleft
      have hsteps : s.ticked.steps = s.steps + 1 := rfl
      rw [← hsteps] at hpaid
      have hfrom : R.From w s.ticked := ⟨hs.le, hs.valid⟩
      obtain ⟨o, ⟨ho, n, hn⟩, hdebt⟩ := h.settles s.ticked hfrom hg (by omega) (by omega)
      have hkept : R.Kept s.ticked o := hn n le_rfl ▸ h.sound n s.ticked hfrom
      cases hdebt with
      | @value a t hdebt =>
        cases hkept with
        | value run inside =>
          cases a with
          | some b =>
            refine ⟨.value b t, by simp, .value (by omega), n, fun m hm r hr => ?_⟩
            obtain ⟨r, rfl⟩ : ∃ j, r = j + 1 := ⟨r - 1, by omega⟩
            rw [Action.repeated_succ_apply, if_neg hspent]
            simp only [hn m hm]
          | none =>
            -- the next round starts with less of the granted steps left
            have hrun := run.steps
            obtain ⟨o', ho', hdebt', n', hn'⟩ := ih (B.last - t.steps) (by omega) t
              (hfrom.run run) (run.grounded hg) (by omega) rfl (by omega)
            refine ⟨o', ho', ?_, max n n', fun m hm r hr => ?_⟩
            · cases hdebt' with
              | value h => exact .value (by omega)
              | error h => exact .error (by omega)
            · obtain ⟨r, rfl⟩ : ∃ j, r = j + 1 := ⟨r - 1, by omega⟩
              rw [Action.repeated_succ_apply, if_neg hspent]
              simp only [hn m (le_of_max_le_left hm)]
              exact hn' m (le_of_max_le_right hm) r (by omega)
      | @error e t hdebt =>
        refine ⟨.error e t, by simp, .error (by omega), n, fun m hm r hr => ?_⟩
        obtain ⟨r, rfl⟩ : ∃ j, r = j + 1 := ⟨r - 1, by omega⟩
        rw [Action.repeated_succ_apply, if_neg hspent]
        simp only [hn m hm]

/-- A loop settles, which at level `n` may have `n` rounds. -/
lemma repeated {x : Nat → Action (Option β)} (h : R.Settles B 0 k w x) (s : State)
    (hs : R.From w s) (hg : R.Grounded s.store) (hk : B.last - s.steps < k)
    (hroom : B.debt s.steps < B.room) :
    ∃ o, SettlesAt (fun n => Action.repeated (do Action.tick (some B.limit); x n) n s) o ∧
      B.Allows 0 s o := by
  obtain ⟨o, ho, hdebt, n, hn⟩ := h.exists_repeated s hs hg hk hroom
  refine ⟨o, ⟨ho, max n (B.last - s.steps + 1), fun m hm => ?_⟩, hdebt⟩
  exact hn m (le_of_max_le_left hm) m (le_of_max_le_right hm)

end Settles

end Region

end TreeWalk
