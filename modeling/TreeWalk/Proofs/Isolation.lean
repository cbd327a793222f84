/-
# A function sees what it captured and what it is given

A call of a function in two stores that agree on what can be reached from the function and from its
arguments ends in both or in neither, with the same value or the same error after the same number of
steps, and the stores then agree on what can be reached from the function, the arguments and the
value (`call_isolated`).  What the caller has bound itself makes no difference to a function that
has neither captured it nor been given it.
-/
import TreeWalk.Proofs.Law.Twins
import TreeWalk.Proofs.Spanned

namespace TreeWalk

/-- Two stores have the same cells, and those that can be reached from the values hold the same. -/
structure Store.AgreeFrom (vs : List Value) (st st' : Store) : Prop where
  extent : st.SameExtent st'
  cell : ∀ n, st.ReachableFrom vs n → (st.cell n).Same (st'.cell n)

/-- If two stores agree, the same cells can be reached in the one and in the other. -/
lemma Store.AgreeFrom.reachable {vs : List Value} {st st' : Store} (h : st.AgreeFrom vs st')
    {n : Node} : st'.ReachableFrom vs n ↔ st.ReachableFrom vs n := by
  constructor
  · rintro ⟨m, hm, hn⟩
    induction hn with
    | refl => exact ⟨m, hm, .refl⟩
    | tail _ hk ih =>
      obtain ⟨m', hm', hn'⟩ := ih
      exact ⟨m', hm', hn'.tail ((h.cell _ ⟨m', hm', hn'⟩).symm.refers hk)⟩
  · rintro ⟨m, hm, hn⟩
    refine ⟨m, hm, ?_⟩
    induction hn with
    | refl => exact .refl
    | tail hk hk' ih => exact ih.tail ((h.cell _ ⟨m, hm, hk⟩).refers hk')

/-- So it does not matter in which of the two the cells are looked for. -/
theorem Store.AgreeFrom.symm {vs : List Value} {st st' : Store} (h : st.AgreeFrom vs st') :
    st'.AgreeFrom vs st where
  extent := h.extent.symm
  cell n hn := (h.cell n (h.reachable.mp hn)).symm

/-- Two ends of a call are the same value or the same error after the same number of steps, in
stores that agree on what can be reached from the values `vs` and from the value of the call. -/
inductive Outcome.Matches (vs : List Value) : Outcome Value → Outcome Value → Prop
  | value {v : Value} {s s' : State} (steps : s.steps = s'.steps)
      (store : s.store.AgreeFrom (v :: vs) s'.store) : Matches vs (.value v s) (.value v s')
  | error {e : EvalError} {s s' : State} (steps : s.steps = s'.steps)
      (store : s.store.AgreeFrom vs s'.store) : Matches vs (.error e s) (.error e s')

lemma Outcome.Matches.left_ne_unfinished {vs : List Value} {o o' : Outcome Value}
    (h : o.Matches vs o') : o ≠ .unfinished := by
  cases h <;> simp

lemma Outcome.Matches.right_ne_unfinished {vs : List Value} {o o' : Outcome Value}
    (h : o.Matches vs o') : o' ≠ .unfinished := by
  cases h <;> simp

namespace Region

/-- All that can be reached from values from which no builtin can be reached. -/
def below (st : Store) (vs : List Value) (h : ∀ r, ¬ st.ReachableFrom vs (.builtin r)) : Region :=
  spanned st (fun m => ∃ v ∈ vs, v.node? = some m) (fun _ => False) fun m r hm hr => h r ⟨m, hm, hr⟩

variable {st : Store} {vs : List Value} {h : ∀ r, ¬ st.ReachableFrom vs (.builtin r)}

lemma inside_below : (below st vs h).Inside st vs :=
  fun v hv _ hn => .inl ⟨_, ⟨v, hv, hn⟩, .refl⟩

lemma agree_below {st' : Store} (hst : st.AgreeFrom vs st') : (below st vs h).Agree st st' where
  extent := hst.extent
  cell n hn := hst.cell n (has_base.mp hn)

/-- Stores that agree on a region agree on all that can be reached from values inside. -/
lemma Agree.agreeFrom {R : Region} {st st' : Store} (ha : R.Agree st st') (hst : R.Valid st)
    {vs : List Value} (hvs : R.Inside st vs) : st.AgreeFrom vs st' where
  extent := ha.extent
  cell n hn := ha.cell n (hst.has_of_reachableFrom hvs hn)

/-- Outcomes that look the same from inside the region of some values match, if they are ends. -/
lemma Meets.matches {s : State} {o o' : Outcome Value} (hs : s.store = st)
    (hkept : (below st vs h).Kept s o) (hmeets : (below st vs h).Meets o o') :
    (o = .unfinished ∧ o' = .unfinished) ∨ o.Matches vs o' := by
  have hin : ∀ {t}, (below st vs h).Run s t → (below st vs h).Inside t.store vs :=
    fun run => inside_below.mono (hs ▸ run.le)
  cases hmeets with
  | value alike =>
    cases hkept with
    | value run inside =>
      refine .inr (.value alike.steps (alike.store.agreeFrom run.valid fun w hw => ?_))
      rcases List.mem_cons.mp hw with rfl | hw
      · exact inside
      · exact hin run w hw
  | error alike =>
    cases hkept with
    | error run => exact .inr (.error alike.steps (alike.store.agreeFrom run.valid (hin run)))
  | unfinished => exact .inl ⟨rfl, rfl⟩

end Region

open Region

/-- The evaluators of any one level do the same with a function in the two stores. -/
lemma call_level_matches (i j : Interpreter) (hconfig : i.config = j.config)
    (hdepth : i.depth = j.depth) (hsteps : i.steps = j.steps) {st st' : Store} {f : Value}
    {args : List Value} (hst : st.AgreeFrom (f :: args) st')
    (h : ∀ b, ¬ st.ReachableFrom (f :: args) (.builtin b)) (n : Nat) :
    ((Evaluator.level i.toSetting n).call f args (i.start st) = .unfinished ∧
      (Evaluator.level j.toSetting n).call f args (j.start st') = .unfinished) ∨
    ((Evaluator.level i.toSetting n).call f args (i.start st)).Matches (f :: args)
      ((Evaluator.level j.toSetting n).call f args (j.start st')) := by
  let R := below st (f :: args) h
  let σ : Bool → Setting := fun b => cond b j.toSetting i.toSetting
  have hf : R.Inside st f := inside_below f List.mem_cons_self
  have ha : R.Inside st args := fun v hv => inside_below v (List.mem_cons_of_mem _ hv)
  -- no builtin is in the region, so it does not matter that the globals may differ
  have htwin : R.Twin st ((Evaluator.level i.toSetting n).call f args)
      ((Evaluator.level j.toSetting n).call f args) :=
    (Law.twins_level (σ := σ) hconfig False.elim n).call hf ha
  have hfrom : R.From st (i.start st) := ⟨le_rfl, valid_base _⟩
  have halike : R.Alike (i.start st) (j.start st') := ⟨hdepth, hsteps, agree_below hst⟩
  exact Meets.matches (s := i.start st) rfl (htwin.sound _ hfrom) (htwin.meets _ _ hfrom halike)

/-- What a call of a function does depends on nothing but what can be reached from the function and
from its arguments. -/
theorem call_isolated (i j : Interpreter) (hconfig : i.config = j.config)
    (hdepth : i.depth = j.depth) (hsteps : i.steps = j.steps) (st st' : Store) (r : FunctionRef)
    (args : List Value) (hst : st.AgreeFrom (.function r :: args) st')
    (h : ∀ b, ¬ st.ReachableFrom (.function r :: args) (.builtin b)) :
    (∀ o, i.Ends st (fun ev => ev.call (.function r) args) o →
      ∃ o', j.Ends st' (fun ev => ev.call (.function r) args) o' ∧
        o.Matches (.function r :: args) o') ∧
    (∀ o', j.Ends st' (fun ev => ev.call (.function r) args) o' →
      ∃ o, i.Ends st (fun ev => ev.call (.function r) args) o ∧
        o.Matches (.function r :: args) o') := by
  have hlevel := fun n => call_level_matches i j hconfig hdepth hsteps hst h n
  constructor
  · rintro o ⟨ho, n, rfl⟩
    rcases hlevel n with ⟨hu, -⟩ | hm
    · exact absurd hu ho
    · exact ⟨_, ⟨hm.right_ne_unfinished, n, rfl⟩, hm⟩
  · rintro o' ⟨ho', n, rfl⟩
    rcases hlevel n with ⟨-, hu⟩ | hm
    · exact absurd hu ho'
    · exact ⟨_, ⟨hm.left_ne_unfinished, n, rfl⟩, hm⟩

/-- A function that writes what it has captured into what it is given does not see that the caller
binds the same name. -/
theorem call_isolated_from_caller :
    let target : Expr :=
      .synthetic (.index (.synthetic (.identifier "a")) (.synthetic (.number 0)))
    let f : Closure := ⟨⟨none, ["a"], [.synthetic (.ret (some (.synthetic (.assign target
      (.synthetic (.identifier "n"))))))]⟩, ⟨0⟩⟩
    let captured : Scope := { symbols := (∅ : Table).insert "n" (.number 2) }
    let st : Store := { scopes := ⟨#[captured, {}]⟩, arrays := ⟨#[#[.nil]]⟩, closures := ⟨#[f]⟩ }
    let st' : Store := st.define ⟨1⟩ "n" (.number 7)
    let i : Interpreter := { config := {}, globals := ⟨1⟩ }
    let roots : List Value := [.function ⟨0⟩, .array ⟨0⟩]
    st.AgreeFrom roots st' ∧ (∀ b, ¬ st.ReachableFrom roots (.builtin b)) ∧
      ∃ s, i.Ends st (fun ev => ev.call (.function ⟨0⟩) [.array ⟨0⟩]) (.value (.number 2) s) ∧
        ∃ o', i.Ends st' (fun ev => ev.call (.function ⟨0⟩) [.array ⟨0⟩]) o' ∧
          (Outcome.value (.number 2) s).Matches roots o' := by
  intro target f captured st st' i roots
  have hreach : ∀ {n}, st.ReachableFrom roots n →
      n = .function ⟨0⟩ ∨ n = .array ⟨0⟩ ∨ n = .scope ⟨0⟩ := by
    rintro n ⟨m, ⟨v, hv, hm⟩, hn⟩
    refine hn.of_closed
      (S := fun k => k = .function ⟨0⟩ ∨ k = .array ⟨0⟩ ∨ k = .scope ⟨0⟩) ?_ ?_
    · rintro _ k (rfl | rfl | rfl) hk
      · have hcell : st.cell (.function ⟨0⟩) = .function f := rfl
        rw [hcell] at hk
        cases hk
        exact .inr (.inr rfl)
      · have hcell : st.cell (.array ⟨0⟩) = .array #[.nil] := rfl
        rw [hcell] at hk
        cases hk with
        | element hmem hv =>
          obtain rfl := Array.mem_singleton.mp hmem
          cases hv
      · have hcell : st.cell (.scope ⟨0⟩) = .scope captured := rfl
        cases (hcell ▸ hk).of_binding
    · simp only [roots, List.mem_cons, List.not_mem_nil, or_false] at hv
      rcases hv with rfl | rfl
      · cases hm
        exact .inl rfl
      · cases hm
        exact .inr (.inl rfl)
  have hedits := st.edits_define ⟨1⟩ "n" (.number 7)
  have hagree : st.AgreeFrom roots st' := by
    refine ⟨fun n _ => (hedits.has n).symm, fun n hn => ?_⟩
    rw [hedits.cell_ne n (by rcases hreach hn with rfl | rfl | rfl <;> simp)]
  have hbuiltin : ∀ b, ¬ st.ReachableFrom roots (.builtin b) := fun b hb => by
    rcases hreach hb with h | h | h <;> cases h
  obtain ⟨v, s, hs, hv⟩ := Interpreter.Ends.of_passes i st
    (fun ev => ev.call (.function ⟨0⟩) [.array ⟨0⟩]) (fun v _ => decide (v = .number 2)) 8
    (by decide +kernel)
  obtain rfl := of_decide_eq_true hv
  have hcall := call_isolated i i rfl rfl rfl st st' ⟨0⟩ [.array ⟨0⟩] hagree hbuiltin
  exact ⟨hagree, hbuiltin, s, hs, hcall.1 _ hs⟩

end TreeWalk
