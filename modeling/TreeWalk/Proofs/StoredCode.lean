/-
# The code of stored functions

A function is made from a literal of the code that is executed, and the call of it executes the body
of that literal.  So a property that holds everywhere in a program and in all functions of the store
(`Store.AllCode`) goes on to hold of all functions: nothing but the making of a function adds one
(`Safe.of_primitive`, `Safe.newClosure`), and what is called is one of those there are
(`AllCode.closure`, `Watched.readClosure`).
-/
import TreeWalk.Proofs.Trees
import TreeWalk.Proofs.Watch

namespace TreeWalk

/-- The property holds everywhere in the code of the functions of the store. -/
def Store.AllCode (P : Tree → Prop) (st : Store) : Prop :=
  ∀ r, st.Has (.function r) → (Tree.literal (st.closure r).literal).Everywhere P

namespace Store.AllCode

variable {P : Tree → Prop} {st st' : Store}

lemma of_closures (h : st.AllCode P) (hclosures : st'.closures = st.closures) :
    st'.AllCode P := by
  intro r hr
  have hr' : r.index < st'.closures.size := hr
  rw [hclosures] at hr'
  have hclosure : st'.closure r = st.closure r := congrArg (fun hp => Heap.get hp r.index) hclosures
  exact hclosure ▸ h r hr'

/-- What does not exist is a function without a body. -/
lemma closure (h : st.AllCode P) (hdefault : P (.literal default)) (r : FunctionRef) :
    (Tree.literal (st.closure r).literal).Everywhere P := by
  by_cases hr : st.Has (.function r)
  · exact h r hr
  · have hclosure : st.closure r = default := Heap.get_of_size_le (Nat.le_of_not_lt hr)
    rw [hclosure]
    exact .of_parts hdefault nofun

lemma newClosure (h : st.AllCode P) {f : Closure} (hf : (Tree.literal f.literal).Everywhere P) :
    (st.newClosure f).2.AllCode P := by
  intro r hr
  rw [closure_newClosure]
  split
  · exact hf
  · next hne =>
    have hmakes := st.makes_newClosure f
    exact h r (((hmakes.has _).mp hr).resolve_right fun heq => hne (by cases heq; rfl))

end Store.AllCode

namespace Region.Safe

variable {R : Region} {P : Tree → Prop} {F : Fault → Prop} {w : Store} {s : State} {α : Type}
  [Placed α]

/-- A primitive action makes no function. -/
lemma of_primitive {B : ScopeRef → String → Prop} {p : Action α} (hp : R.Primitive B w p)
    (hF : ∀ fault, R.MayRaise fault → F fault) (hs : R.From w s) (hcode : s.store.AllCode P) :
    R.Safe (Store.AllCode P) F s (p s) := by
  have hquiet := hp.quiet hs
  refine .of_kept (hp.contained.sound s hs) (fun t _ ht => ?_) fun e t he => ?_
  · generalize p s = o at hquiet ht
    cases hquiet with
    | value closures => cases ht; exact hcode.of_closures closures
    | error closures _ => cases ht; exact hcode.of_closures closures
    | unfinished => cases ht
  · rw [he] at hquiet
    cases hquiet with
    | error _ fault => exact hF _ fault

/-- What holds everywhere in the literal holds of the function that is made of it. -/
lemma newClosure {f : Closure} (hf : R.Inside w f) (hl : (Tree.literal f.literal).Everywhere P)
    (hs : R.From w s) (hcode : s.store.AllCode P) :
    R.Safe (Store.AllCode P) F s (Action.create (fun st => st.newClosure f) s) := by
  refine .of_kept ((Contained.newClosure hf).sound s hs) (fun t _ ht => ?_) nofun
  cases ht
  exact hcode.newClosure hl

end Region.Safe

namespace Region.Watched

variable {R : Region} {P : Tree → Prop} {F : Fault → Prop} {w : Store} {α : Type} [Placed α]

/-- A primitive action makes no function. -/
lemma of_primitive {B : ScopeRef → String → Prop} {p : Action α} (hp : R.Primitive B w p)
    (hF : ∀ fault, R.MayRaise fault → F fault) : R.Watched (Store.AllCode P) F w p p where
  safe _ hs hcode := .of_primitive hp hF hs hcode
  same _ _ _ := rfl

/-- What holds everywhere in the literal holds of the function that is made of it. -/
lemma newClosure {f : Closure} (hf : R.Inside w f) (hl : (Tree.literal f.literal).Everywhere P) :
    R.Watched (Store.AllCode P) F w (Action.create fun st => st.newClosure f)
      (Action.create fun st => st.newClosure f) where
  safe _ hs hcode := .newClosure hf hl hs hcode
  same _ _ _ := rfl

/-- What holds everywhere in the functions of a store holds of a function that is read. -/
lemma readClosure (hdefault : P (.literal default)) {r : FunctionRef} (hr : R.Inside w r)
    {x y : Closure → Action α} (h : ∀ w', w ≤ w' → ∀ f, R.Inside w' f →
      (Tree.literal f.literal).Everywhere P → R.Watched (Store.AllCode P) F w' (x f) (y f)) :
    R.Watched (Store.AllCode P) F w (Action.read (fun st => st.closure r) >>= x)
      (Action.read (fun st => st.closure r) >>= y) := by
  have hread : ∀ s, R.From w s → s.store.AllCode P → R.Watched (Store.AllCode P) F s.store
      (x (s.store.closure r)) (y (s.store.closure r)) := fun s hs hcode =>
    h s.store hs.le _ (hs.valid.closure (hr.mono hs.le)) (hcode.closure hdefault r)
  exact ⟨fun s hs hcode => (hread s hs hcode).safe s ⟨le_rfl, hs.valid⟩ hcode,
    fun s hs hcode => (hread s hs hcode).same s ⟨le_rfl, hs.valid⟩ hcode⟩

end Region.Watched

end TreeWalk
