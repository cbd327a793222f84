/-
# Primitive actions

The actions that evaluations are put together from, apart from those that are about the code of
functions: to read the store, to look for a name, to change a cell, to make a scope or a container,
and to fail (`Region.Primitive`).  Which names may be bound in which scopes is a parameter; names
that are bound already may always be given other values.  What holds of these and passes to one
action after another holds of every primitive action: it is contained in the region that it works in
(`Primitive.contained`), it takes no notice of the bodies of functions (`Primitive.recodes`), and it
makes no function and leaves no list of statements (`Primitive.quiet`).
-/
import TreeWalk.Proofs.Contained
import TreeWalk.Proofs.Recoding

namespace TreeWalk.Region

/-- Make a scope. -/
def freshScope (parent : Option ScopeRef) : Action FreshScope :=
  Action.create fun st => (⟨(st.newScope parent).1⟩, (st.newScope parent).2)

/-- Any name may be bound in any scope. -/
@[reducible] def anyName : ScopeRef → String → Prop := fun _ _ => True

/-- The actions that neither evaluate nor make functions, working with what is inside a region, and
binding names in a scope only as `B` allows, apart from those that are bound in it already. -/
inductive Primitive (R : Region) (B : ScopeRef → String → Prop) :
    {α : Type} → [Placed α] → Store → Action α → Prop
  | pure {α : Type} [Placed α] {w : Store} {a : α} (ha : R.Inside w a) :
      Primitive R B w (Pure.pure a : Action α)
  | raise {α : Type} [Placed α] {w : Store} {fault : Fault} (h : R.Inside w fault) :
      Primitive R B w (Action.raise fault : Action α)
  /-- What is read is inside, and the same in stores that agree on the region, whatever bodies
  their functions have. -/
  | read {α : Type} [Placed α] {w : Store} {f : Store → α}
      (hin : ∀ st, w ≤ st → R.Valid st → R.Inside st (f st))
      (heq : ∀ st st', w ≤ st → R.Valid st → R.Agree st st' → f st = f st')
      (hcode : ∀ (ρ : Recoding) st, f (st.recode ρ) = f st) : Primitive R B w (Action.read f)
  | search {w : Store} {c : ScopeRef} (hc : R.Inside w c) (name : String) :
      Primitive R B w (Action.search c name)
  | define {w : Store} {c : ScopeRef} {v : Value} (hc : R.Inside w c) (name : String)
      (hv : R.Inside w v) (hname : B c name) :
      Primitive R B w (Action.update fun st => st.define c name v)
  | assign {w : Store} {c : ScopeRef} {v : Value} (hc : R.Inside w c) (name : String)
      (hv : R.Inside w v) : Primitive R B w (Action.assign c name v)
  | setEntry {w : Store} {r : ObjectRef} {v : Value} (hr : R.Inside w r) (key : String)
      (hv : R.Inside w v) : Primitive R B w (Action.update fun st => st.setEntry r key v)
  /-- Only a builtin makes an array longer. -/
  | pushElement {w : Store} {r : ArrayRef} {v : Value} (h : R.allows .push) (hr : R.Inside w r)
      (hv : R.Inside w v) : Primitive R B w (Action.update fun st => st.pushElement r v)
  | setElement {w : Store} {r : ArrayRef} {v : Value} (hr : R.Inside w r) (i : Int64)
      (hv : R.Inside w v) : Primitive R B w (Action.update fun st => st.setElement r i v)
  | freshScope {w : Store} {parent : Option ScopeRef} (hp : R.Inside w parent) :
      Primitive R B w (Region.freshScope parent)
  /-- The entries may be those of an object in the store. -/
  | newObject {w : Store} {t : Store → Table}
      (hin : ∀ st, w ≤ st → R.Valid st → R.Inside st (t st))
      (heq : ∀ st st', w ≤ st → R.Valid st → R.Agree st st' → (t st).Equiv (t st'))
      (hcode : ∀ (ρ : Recoding) st, t (st.recode ρ) = t st) :
      Primitive R B w (Action.create fun st => st.newObject (t st))
  | newArray {w : Store} {items : Array Value} (hi : R.Inside w items) :
      Primitive R B w (Action.create fun st => st.newArray items)
  | bind {α β : Type} [Placed α] [Placed β] {w : Store} {p : Action α} {f : α → Action β}
      (hp : Primitive R B w p)
      (hf : ∀ w', w ≤ w' → ∀ a, R.Inside w' a → Primitive R B w' (f a)) :
      Primitive R B w (p >>= f)
  /-- Only a builtin names a place that is not that of a node. -/
  | blame {α : Type} [Placed α] {w : Store} {p : Action α} (h : R.allows .failAt)
      (hp : Primitive R B w p) (span : Span) : Primitive R B w (Action.blame span p)

namespace Primitive

variable {R : Region} {B : ScopeRef → String → Prop} {w : Store} {α : Type} [Placed α]
  {p : Action α}

/-- A primitive action is contained in the region that it works in. -/
theorem contained (h : R.Primitive B w p) : R.Contained w p := by
  induction h with
  | pure ha => exact .pure ha
  | raise _ => exact .raise _
  | read hin heq _ => exact .read hin heq
  | search hc name => exact .search hc name
  | define hc name hv => exact .update (fun st => st.edits_define _ name _) hc hv
  | assign hc name hv => exact .assign hc name hv
  | setEntry hr key hv => exact .update (fun st => st.edits_setEntry _ key _) hr hv
  | pushElement h hr hv => exact .update (fun st => st.edits_pushElement _ _) hr hv fun _ _ => h
  | setElement hr i hv => exact .update (fun st => st.edits_setElement _ i _) hr hv
  | freshScope hp =>
    refine .create (n := fun c => .scope c.ref) (fun st => st.makes_newScope _)
      (fun st hw _ m hm => ?_) (fun _ _ hnew h => ⟨hnew, h⟩) fun st st' _ _ ha =>
        ⟨congrArg (fun n => FreshScope.mk ⟨n⟩) ha.extent.scopes, .refl _⟩
    cases hm with
    | parent h => exact (hp _ h).mono hw
    | binding h hv => simp at h
  | newObject hin heq _ =>
    refine .create (n := .object) (fun st => st.makes_newObject _) (fun st hw hst m hm => ?_)
      (fun _ _ _ h => h) fun st st' hw hst ha =>
        ⟨congrArg ObjectRef.mk ha.extent.objects, .object (heq st st' hw hst ha)⟩
    cases hm with
    | entry h hv => exact (hin st hw hst _ _ h).has hv
  | newArray hi =>
    refine .create (n := .array) (fun st => st.makes_newArray _) (fun st hw _ m hm => ?_)
      (fun _ _ _ h => h) fun st st' _ _ ha => ⟨congrArg ArrayRef.mk ha.extent.arrays, .refl _⟩
    cases hm with
    | element h hv => exact ((hi _ h).mono hw).has hv
  | bind _ _ ihp ihf => exact ihp.bind ihf
  | blame _ _ span ih => exact ih.blame span

/-- A primitive action does the same when functions have other bodies. -/
theorem recodes (h : R.Primitive B w p) (ρ : Recoding) {s s' : State} (hs : R.From w s)
    (hss : s.Recodes ρ s') : (p s).Recodes ρ (p s') := by
  induction h generalizing s s' with
  | pure _ => exact .value hss
  | raise _ => exact .error hss
  | read _ _ hcode =>
    unfold Action.read
    rw [hss.store, hcode]
    exact .value hss
  | search hc name =>
    rw [Action.search_apply, Action.search_apply, hss.store, Store.search_recode]
    cases s.store.search _ name with
    | found r => exact .value hss
    | unbound => exact .value hss
    | endless => exact .unfinished
  | define hc name hv => exact .value ⟨by rw [hss.store]; rfl, hss.depth⟩
  | assign hc name hv =>
    unfold Action.assign
    rw [hss.store, Store.search_recode]
    cases s.store.search _ name with
    | found r => exact .value ⟨rfl, hss.depth⟩
    | unbound => exact .value hss
    | endless => exact .unfinished
  | setEntry hr key hv => exact .value ⟨by rw [hss.store]; rfl, hss.depth⟩
  | pushElement _ hr hv => exact .value ⟨by rw [hss.store]; rfl, hss.depth⟩
  | setElement hr i hv => exact .value ⟨by rw [hss.store]; rfl, hss.depth⟩
  | freshScope hp =>
    unfold Region.freshScope Action.create
    rw [hss.store]
    exact .value ⟨rfl, hss.depth⟩
  | newObject _ _ hcode =>
    unfold Action.create
    rw [hss.store]
    simp only [hcode]
    exact .value ⟨rfl, hss.depth⟩
  | newArray hi =>
    unfold Action.create
    rw [hss.store]
    exact .value ⟨rfl, hss.depth⟩
  | @bind _ _ _ _ w p f hp _ ihp ihf =>
    have hk := hp.contained.sound s hs
    have hp' := ihp hs hss
    rw [Action.bind_apply, Action.bind_apply]
    generalize p s = o at hk hp' ⊢
    generalize p s' = o' at hp' ⊢
    cases hp' with
    | @value a t t' ht =>
      cases hk with
      | value run inside => exact ihf t.store (hs.run run).le a inside ⟨le_rfl, run.valid⟩ ht
    | error ht => exact .error ht
    | unfinished => exact .unfinished
  | @blame _ _ w p _ _ span ih =>
    have hp' := ih hs hss
    rw [Action.blame_apply, Action.blame_apply]
    generalize p s = o, p s' = o' at hp' ⊢
    cases hp' with
    | value ht => exact .value ht
    | error ht => exact .error ht
    | unfinished => exact .unfinished

end Primitive

/-- An outcome with the functions there were in the state `s`, and with no fault of a list of
statements that was left. -/
inductive Quiet (R : Region) (s : State) {α : Type} : Outcome α → Prop
  | value {a : α} {t : State} (closures : t.store.closures = s.store.closures) :
      Quiet R s (.value a t)
  | error {e : EvalError} {t : State} (closures : t.store.closures = s.store.closures)
      (fault : R.MayRaise e.fault) : Quiet R s (.error e t)
  | unfinished : Quiet R s .unfinished

lemma Quiet.of_closures {R : Region} {s t : State} {α : Type} {o : Outcome α}
    (h : t.store.closures = s.store.closures) (ho : R.Quiet t o) : R.Quiet s o := by
  cases ho with
  | value hu => exact .value (hu.trans h)
  | error hu fault => exact .error (hu.trans h) fault
  | unfinished => exact .unfinished

/-- A primitive action makes no function and leaves no list of statements. -/
theorem Primitive.quiet {R : Region} {B : ScopeRef → String → Prop} {w : Store} {α : Type}
    [Placed α] {p : Action α} (h : R.Primitive B w p) {s : State} (hs : R.From w s) :
    R.Quiet s (p s) := by
  induction h generalizing s with
  | raise hfault => exact .error rfl hfault
  | search hc name =>
    rw [Action.search_apply]
    cases s.store.search _ name with
    | endless => exact .unfinished
    | _ => exact .value rfl
  | assign hc name hv =>
    unfold Action.assign
    cases s.store.search _ name with
    | endless => exact .unfinished
    | _ => exact .value rfl
  | @bind _ _ _ _ w p f hp _ ihp ihf =>
    have hk := hp.contained.sound s hs
    have hp' := ihp hs
    rw [Action.bind_apply]
    generalize p s = o at hk hp' ⊢
    cases hp' with
    | @value a t ht =>
      cases hk with
      | value run inside =>
        exact .of_closures ht (ihf t.store (hs.run run).le a inside ⟨le_rfl, run.valid⟩)
    | error ht fault => exact .error ht fault
    | unfinished => exact .unfinished
  | @blame _ _ w p _ _ span ih =>
    have hp' := ih hs
    rw [Action.blame_apply]
    generalize p s = o at hp' ⊢
    cases hp' with
    | value ht => exact .value ht
    | @error e t ht fault => exact .error ht (by rwa [EvalError.fault_blame])
    | unfinished => exact .unfinished
  | _ => exact .value rfl

end TreeWalk.Region
