/-
# Evaluation writes only what it can reach

An evaluation in a scope from which no builtin can be reached leaves every cell as it is that cannot
be reached from the scope, and leads to nothing but what could be reached from the scope and what it
has made itself (`evaluation_confined`).  So the state that two functions keep in their scopes stays
apart, as long as neither can be reached from the other.
-/
import TreeWalk.Proofs.Law.Sounds
import TreeWalk.Proofs.Spanned

namespace TreeWalk

/-- The value that a statement hands on, if it hands one on. -/
def Flow.values : Flow → List Value
  | .ret v => [v]
  | .next | .leave => []

/-- How an evaluation in the scope `c` that came to the values `results` may have changed the store
`st` into the store `st'`. -/
structure Store.Confined (st : Store) (c : ScopeRef) (results : List Value) (st' : Store) :
    Prop where
  /-- A cell that could not be reached is as it was. -/
  unchanged : ∀ n, st.Has n → ¬ st.Reaches (.scope c) n → st'.cell n = st.cell n
  /-- What can be reached now could be reached before, or is new. -/
  reaches : ∀ n, st'.Reaches (.scope c) n ∨ st'.ReachableFrom results n →
    st.Reaches (.scope c) n ∨ (¬ st.Has n ∧ st'.Has n)

namespace Region

/-- All that can be reached from a scope from which no builtin can be reached. -/
def under (st : Store) (c : ScopeRef) (h : ∀ r, ¬ st.Reaches (.scope c) (.builtin r)) : Region :=
  spanned st (· = .scope c) (fun _ => False) fun _ r hm hr => h r (hm ▸ hr)

variable {st : Store} {c : ScopeRef} {h : ∀ r, ¬ st.Reaches (.scope c) (.builtin r)}

lemma mem_start_under {n : Node} : n ∈ (under st c h).start ↔ st.Reaches (.scope c) n := by
  constructor
  · rintro ⟨m, rfl, hn⟩
    exact hn
  · intro hn
    exact ⟨_, rfl, hn⟩

lemma inside_under : (under st c h).Inside st c := .inl (mem_start_under.mpr .refl)

lemma confined_of_run {s t : State} (hs : s.store = st) (run : (under st c h).Run s t)
    {results : List Value} (hin : (under st c h).Inside t.store results) :
    st.Confined c results t.store where
  unchanged n hn hout := hs ▸ run.outside n hn (mt mem_start_under.mp hout)
  reaches n hn := by
    have hc : (under st c h).Inside t.store c := inside_under.mono (hs ▸ run.le)
    have hhas : (under st c h).Has t.store n := by
      rcases hn with hn | hn
      · exact run.valid.has_of_reaches hc hn
      · exact run.valid.has_of_reachableFrom hin hn
    exact hhas.imp_left mem_start_under.mp

end Region

open Region

/-- A task that stays inside of what can be reached from a scope is confined to it. -/
lemma confined_of_ends {α : Type} [Placed α] {i : Interpreter} {st : Store} {c : ScopeRef}
    {h : ∀ r, ¬ st.Reaches (.scope c) (.builtin r)} {task : Evaluator → Action α}
    (htask : ∀ n, (under st c h).Sound st (task (Evaluator.level i.toSetting n)))
    (results : α → List Value)
    (hresults : ∀ st' a, (under st c h).Inside st' a → (under st c h).Inside st' (results a)) :
    (∀ a s, i.Ends st task (.value a s) → st.Confined c (results a) s.store) ∧
      (∀ e s, i.Ends st task (.error e s) → st.Confined c [] s.store) := by
  have hkept : ∀ {o}, i.Ends st task o → (under st c h).Kept (i.start st) o := by
    rintro o ⟨-, n, rfl⟩
    exact htask n _ ⟨le_rfl, valid_base _⟩
  constructor
  · intro a s hends
    cases hkept hends with
    | value run inside => exact confined_of_run (s := i.start st) rfl run (hresults _ a inside)
  · intro e s hends
    cases hkept hends with
    | error run => exact confined_of_run (s := i.start st) rfl run fun v hv => by cases hv

/-- An evaluation writes only what it can reach, and leads to nothing else but what it makes. -/
theorem evaluation_confined (i : Interpreter) (st : Store) (c : ScopeRef)
    (h : ∀ r, ¬ st.Reaches (.scope c) (.builtin r)) :
    (∀ e : Expr,
      (∀ v s, i.Ends st (fun ev => ev.expr e c) (.value v s) → st.Confined c [v] s.store) ∧
      (∀ err s, i.Ends st (fun ev => ev.expr e c) (.error err s) → st.Confined c [] s.store)) ∧
    (∀ stmt : Stmt,
      (∀ f s, i.Ends st (fun ev => ev.stmt stmt c) (.value f s) →
        st.Confined c f.values s.store) ∧
      (∀ err s, i.Ends st (fun ev => ev.stmt stmt c) (.error err s) →
        st.Confined c [] s.store)) := by
  have hobeys := fun n => Law.sounds_level (R := under st c h) (σ := i.toSetting) False.elim n
  constructor
  · intro e
    have hsound : ∀ n, (under st c h).Sound st ((Evaluator.level i.toSetting n).expr e c) :=
      fun n => (hobeys n).expr inside_under e
    refine confined_of_ends hsound (fun v => [v]) fun st' v hv w hw => ?_
    rw [List.mem_singleton.mp hw]
    exact hv
  · intro stmt
    have hsound : ∀ n, (under st c h).Sound st ((Evaluator.level i.toSetting n).stmt stmt c) :=
      fun n => (hobeys n).stmt inside_under stmt
    refine confined_of_ends hsound Flow.values fun st' f hf w hw => ?_
    cases f with
    | ret v =>
      rw [List.mem_singleton.mp hw]
      exact hf v rfl
    | next => cases hw
    | leave => cases hw

/-- Of two counters made from one literal, a call of the one that a scope has leaves the count of the
other one alone. -/
theorem evaluation_confined_counter :
    let step : Expr := .synthetic (.step .increment true (.synthetic (.identifier "n")))
    let counter : FunctionLit := ⟨none, [], [.synthetic (.ret (some step))]⟩
    let own : Scope := { symbols := (∅ : Table).insert "n" (.number 0) }
    let outer : Scope := { symbols := (∅ : Table).insert "f" (.function ⟨0⟩) }
    let st : Store :=
      { scopes := ⟨#[outer, own, own]⟩, closures := ⟨#[⟨counter, ⟨1⟩⟩, ⟨counter, ⟨2⟩⟩]⟩ }
    let i : Interpreter := { config := {}, globals := ⟨0⟩ }
    let call : Expr := .synthetic (.call (.synthetic (.identifier "f")) [])
    (∀ r, ¬ st.Reaches (.scope ⟨0⟩) (.builtin r)) ∧
      ∃ s, i.Ends st (fun ev => ev.expr call ⟨0⟩) (.value (.number 1) s) ∧
        st.Confined ⟨0⟩ [.number 1] s.store ∧
        s.store.cell (.scope ⟨2⟩) = st.cell (.scope ⟨2⟩) := by
  intro step counter own outer st i call
  have hreach : ∀ {m}, st.Reaches (.scope ⟨0⟩) m →
      m = .scope ⟨0⟩ ∨ m = .function ⟨0⟩ ∨ m = .scope ⟨1⟩ := by
    intro m hm
    refine hm.of_closed (S := fun k => k = .scope ⟨0⟩ ∨ k = .function ⟨0⟩ ∨ k = .scope ⟨1⟩) ?_
      (.inl rfl)
    rintro _ k (rfl | rfl | rfl) hk
    · have hcell : st.cell (.scope ⟨0⟩) = .scope outer := rfl
      cases (hcell ▸ hk).of_binding
      exact .inr (.inl rfl)
    · have hcell : st.cell (.function ⟨0⟩) = .function ⟨counter, ⟨1⟩⟩ := rfl
      rw [hcell] at hk
      cases hk
      exact .inr (.inr rfl)
    · have hcell : st.cell (.scope ⟨1⟩) = .scope own := rfl
      cases (hcell ▸ hk).of_binding
  have hbuiltin : ∀ r, ¬ st.Reaches (.scope ⟨0⟩) (.builtin r) := fun r hr => by
    rcases hreach hr with h | h | h <;> cases h
  obtain ⟨v, s, hs, hv⟩ := Interpreter.Ends.of_passes i st (fun ev => ev.expr call ⟨0⟩)
    (fun v _ => decide (v = .number 1)) 8 (by decide +kernel)
  obtain rfl := of_decide_eq_true hv
  have hconfined := ((evaluation_confined i st ⟨0⟩ hbuiltin).1 call).1 _ s hs
  refine ⟨hbuiltin, s, hs, hconfined, hconfined.unchanged _ (by decide) fun h => ?_⟩
  rcases hreach h with h | h | h <;> cases h

end TreeWalk
