/-
# Actions that are contained in a region

The actions that evaluations are put together from are contained in every region that what they
work with is inside of: they are sound, they cannot tell two stores apart that look the same from
inside, they take no step, and they end if the chains of scopes do.  There is one law for each way
to read the store, to change a cell of it and to make a cell in it.
-/
import TreeWalk.Proofs.Twin

namespace TreeWalk

namespace Action

variable {α : Type}

/-- Answer or fail, and change nothing. -/
def still (f : State → Except EvalError α) : Action α := fun s =>
  match f s with
  | .ok a => .value a s
  | .error e => .error e s

/-- The nearest binding of a name, if there is one. -/
def search (c : ScopeRef) (name : String) : Action (Option (ScopeRef × Value)) := fun s =>
  match s.store.search c name with
  | .found r => .value (some r) s
  | .unbound => .value none s
  | .endless => .unfinished

lemma still_apply (f : State → Except EvalError α) (s : State) :
    still f s =
      match f s with
      | .ok a => .value a s
      | .error e => .error e s := rfl

lemma search_apply (c : ScopeRef) (name : String) (s : State) :
    search c name s =
      match s.store.search c name with
      | .found r => .value (some r) s
      | .unbound => .value none s
      | .endless => .unfinished := rfl

lemma assign_eq_search (c : ScopeRef) (name : String) (v : Value) :
    assign c name v = search c name >>= fun
      | some r => do
        update fun st => st.define r.1 name v
        return true
      | none => pure false := by
  funext s
  rw [bind_apply]
  unfold assign search
  cases s.store.search c name <;> rfl

end Action

namespace Region

variable {R : Region} {w w' : Store} {α β : Type} [Placed α] [Placed β]

/-- An action that does nothing that could be noticed outside of the region, and takes no step. -/
structure Contained (R : Region) (w : Store) (p : Action α) : Prop extends R.Twin w p p where
  steps : ∀ s t, R.From w s → (p s).EndsIn t → t.steps = s.steps
  ends : ∀ s, R.From w s → R.Grounded s.store → p s ≠ .unfinished

namespace Contained

lemma bind {p : Action α} {f : α → Action β} (hp : R.Contained w p)
    (hf : ∀ w', w ≤ w' → ∀ a, R.Inside w' a → R.Contained w' (f a)) :
    R.Contained w (p >>= f) where
  toTwin := hp.toTwin.bind fun w' hw a ha => (hf w' hw a ha).toTwin
  steps s t hs h := by
    have hk := hp.sound s hs
    have hsteps := hp.steps s
    rw [Action.bind_apply] at h
    generalize p s = o at hk hsteps h
    cases hk with
    | @value a u run inside =>
      have hu := (hf u.store (hs.run run).le a inside).steps u t ⟨le_rfl, run.valid⟩ h
      exact hu.trans (hsteps u hs (.value a u))
    | @error e u run =>
      cases h
      exact hsteps _ hs (.error e _)
    | unfinished => cases h
  ends s hs hg := by
    have hk := hp.sound s hs
    have he := hp.ends s hs hg
    rw [Action.bind_apply]
    generalize p s = o at hk he ⊢
    cases hk with
    | @value a t run inside =>
      exact (hf t.store (hs.run run).le a inside).ends t ⟨le_rfl, run.valid⟩ (run.grounded hg)
    | error run => simp
    | unfinished => exact absurd rfl he

lemma blame {p : Action α} (hp : R.Contained w p) (span : Span) :
    R.Contained w (Action.blame span p) where
  toTwin := hp.toTwin.blame span
  steps s t hs h := by
    have hsteps := hp.steps s
    rw [Action.blame_apply] at h
    generalize p s = o at hsteps h
    cases o with
    | value a u =>
      cases h
      exact hsteps _ hs (.value a _)
    | error e u =>
      cases h
      exact hsteps _ hs (.error e _)
    | unfinished => cases h
  ends s hs hg := by
    have he := hp.ends s hs hg
    rw [Action.blame_apply]
    generalize p s = o at he ⊢
    cases o with
    | unfinished => exact absurd rfl he
    | _ => simp

/-! ### Reading -/

lemma still {f : State → Except EvalError α}
    (hin : ∀ s a, R.From w s → f s = .ok a → R.Inside s.store a)
    (heq : ∀ s s', R.From w s → R.Alike s s' → f s = f s') : R.Contained w (Action.still f) where
  sound s hs := by
    rw [Action.still_apply]
    cases h : f s with
    | ok a => exact .value (.refl hs.valid) (hin s a hs h)
    | error e => exact .error (.refl hs.valid)
  meets s s' hs ha := by
    rw [Action.still_apply, Action.still_apply, heq s s' hs ha]
    cases f s' with
    | ok a => exact .value ha
    | error e => exact .error ha
  steps s t _ h := by
    rw [Action.still_apply] at h
    cases hf : f s <;> rw [hf] at h <;> cases h <;> rfl
  ends s _ _ := by
    rw [Action.still_apply]
    cases f s <;> simp

lemma pure {a : α} (ha : R.Inside w a) : R.Contained w (Pure.pure a) :=
  still (f := fun _ => .ok a) (fun _ _ hs h => by cases h; exact ha.mono hs.le) fun _ _ _ _ => rfl

lemma raise (fault : Fault) : R.Contained w (Action.raise fault : Action α) :=
  still (f := fun _ => .error (.ofFault fault)) (fun _ _ _ h => by cases h) fun _ _ _ _ => rfl

lemma stepsTaken : R.Contained w Action.stepsTaken :=
  still (f := fun s => .ok s.counter) (fun _ _ _ _ => trivial) fun _ _ _ ha =>
    congrArg _ ha.counter

lemma read {f : Store → α} (hin : ∀ st, w ≤ st → R.Valid st → R.Inside st (f st))
    (heq : ∀ st st', w ≤ st → R.Valid st → R.Agree st st' → f st = f st') :
    R.Contained w (Action.read f) :=
  still (f := fun s => .ok (f s.store))
    (fun s _ hs h => by cases h; exact hin s.store hs.le hs.valid)
    fun s s' hs ha => congrArg _ (heq s.store s'.store hs.le hs.valid ha.store)

/-- A search that starts inside stays inside, and ends if the chains of scopes do. -/
lemma search {c : ScopeRef} (hc : R.Inside w c) (name : String) :
    R.Contained w (Action.search c name) where
  sound s hs := by
    rw [Action.search_apply]
    cases h : s.store.search c name with
    | found r =>
      refine .value (.refl hs.valid) fun q hq => ?_
      cases hq
      exact hs.valid.search (hc.mono hs.le) h
    | unbound => exact .value (.refl hs.valid) fun _ hq => by cases hq
    | endless => exact .unfinished
  meets s s' hs ha := by
    rw [Action.search_apply, Action.search_apply, ha.store.search hs.valid (hc.mono hs.le)]
    cases s'.store.search c name with
    | found r => exact .value ha
    | unbound => exact .value ha
    | endless => exact .unfinished
  steps s t _ h := by
    rw [Action.search_apply] at h
    cases hq : s.store.search c name <;> rw [hq] at h <;> cases h <;> rfl
  ends s hs hg := by
    have hne := (hg c (hc.mono hs.le)).2.search_ne_endless name
    rw [Action.search_apply]
    cases h : s.store.search c name with
    | endless => exact absurd h hne
    | _ => simp

/-! ### Changing and making cells -/

/-- Only where builtins may push an array becomes longer. -/
lemma update {f : Store → Store} {n : Node} {e : Edit} (hf : ∀ st : Store, st.Edits n e (f st))
    (hn : R.Has w n) (he : R.Inside w e.value)
    (hpush : ∀ v, e = .push v → R.allows .push := by exact nofun) :
    R.Contained w (Action.update f) where
  sound s hs :=
    .value (.of_edits hs.valid (hf s.store) (hn.mono hs.le) (he.mono hs.le) hpush) trivial
  meets s s' _ ha := .value ⟨ha.depth, ha.steps, ha.store.of_edits (hf s.store) (hf s'.store)⟩
  steps s t _ h := by cases h; rfl
  ends s _ _ := by simp [Action.update]

lemma assign {c : ScopeRef} {v : Value} (hc : R.Inside w c) (name : String)
    (hv : R.Inside w v) : R.Contained w (Action.assign c name v) := by
  rw [Action.assign_eq_search]
  refine (search hc name).bind fun w' hw o ho => ?_
  cases o with
  | some r =>
    have hd : R.Inside w' r.1 := (ho r rfl).1
    exact (update (fun st => st.edits_define r.1 name v) hd (hv.mono hw)).bind
      fun _ _ _ _ => pure trivial
  | none => exact pure trivial

/-- `f` makes a cell at the node of its answer, which holds `x st` in the store `st`. -/
lemma create {f : Store → α × Store} {n : α → Node} {x : Store → Cell}
    (hf : ∀ st : Store, st.Makes (n (f st).1) (x st) (f st).2)
    (hx : ∀ st, w ≤ st → R.Valid st → ∀ m, (x st).Refers m → R.Has st m)
    (hin : ∀ st a, ¬ R.base.Has (n a) → R.Has st (n a) → R.Inside st a)
    (heq : ∀ st st', w ≤ st → R.Valid st → R.Agree st st' →
      (f st).1 = (f st').1 ∧ (x st).Same (x st')) :
    R.Contained w (Action.create f) where
  sound s hs := by
    have hmakes := hf s.store
    have hrun := Run.of_makes hs.valid hmakes (hx s.store hs.le hs.valid)
    -- the region was marked off in a store that had no more cells than this one
    have hnew : ¬ R.base.Has (n (f s.store).1) :=
      fun h => hmakes.fresh (Store.has_of_le hs.valid.le h)
    exact .value hrun (hin _ _ hnew ((has_of_makes hs.valid hmakes).mpr (.inr rfl)))
  meets s s' hs ha := by
    obtain ⟨hfst, hsame⟩ := heq s.store s'.store hs.le hs.valid ha.store
    -- the new cells have one name, since both stores have the same number of cells
    have hagree : R.Agree (f s.store).2 (f s'.store).2 :=
      ha.store.of_makes hs.valid (hf s.store) (hfst ▸ hf s'.store) hsame
    unfold Action.create
    simp only [hfst]
    exact .value ⟨ha.depth, ha.steps, hagree⟩
  steps s t _ h := by cases h; rfl
  ends s _ _ := by simp [Action.create]

end Contained

end Region

end TreeWalk
