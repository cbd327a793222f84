/-
# Chains of scopes go on to end

If the chains of all scopes of a store end, nothing that an interpreter does puts a scope inside of
another one than before, and the chains of all scopes end again, those of new scopes among them
(`evaluation_keepsChains`).  So no search for a name is endless, neither afterwards nor at any time
before, even if the evaluation never ends.  A call does move a scope, but that is the fresh one of
the call, which no other scope is inside of yet.
-/
import TreeWalk.Proofs.Intact
import TreeWalk.Proofs.Watch

namespace TreeWalk

/-- All searches for names come to an end. -/
def Store.Searchable (st : Store) : Prop := ∀ c name, st.search c name ≠ .endless

lemma Store.searchable_of_rooted {st : Store}
    (h : ∀ c, st.Has (.scope c) → st.Rooted c) : st.Searchable := by
  intro c name
  refine Rooted.search_ne_endless ?_ name
  by_cases hc : st.Has (.scope c)
  · exact h c hc
  · exact rooted_of_size_le (Nat.le_of_not_lt hc)

/-- The searches end in the store that a part of an evaluation starts in, and in the one that it
leaves. -/
def Watch.searches : Watch := fun _ s o =>
  s.store.Searchable ∧ ∀ t, o.EndsIn t → t.store.Searchable

/-- A task moves no scope, leaves chains of scopes that end, and has searches that end all along. -/
structure Interpreter.KeepsChains {α : Type} (i : Interpreter) (st : Store)
    (task : Evaluator → Action α) : Prop where
  parent : ∀ o s, i.Ends st task o → o.EndsIn s → ∀ c, st.Has (.scope c) →
    (s.store.scope c).parent = (st.scope c).parent
  rooted : ∀ o s, i.Ends st task o → o.EndsIn s → ∀ c, s.store.Has (.scope c) →
    s.store.Rooted c
  searches : i.Throughout st task .searches

namespace Region

variable {st : Store} {h : st.Intact} {w : Store} {α : Type} [Placed α]

/-- In the region of all cells the chains of scopes go on to end. -/
lemma Watched.of_contained {p : Action α} (hp : (whole st h).Contained w p) :
    (whole st h).Watched (fun st' => ∀ c, st'.Has (.scope c) → st'.Rooted c) (fun _ => True)
      w p p where
  safe s hs hrooted := by
    have hgrounded : (whole st h).Grounded s.store := fun c hc => by
      have hc' : s.store.Has (.scope c) := (has_whole hs.valid.le).mp hc
      exact ⟨hc', hrooted c hc'⟩
    refine .of_kept (hp.sound s hs) (fun t run _ c hc => ?_) fun _ _ _ => trivial
    exact (run.grounded hgrounded c ((has_whole run.valid.le).mpr hc)).2
  same _ _ _ := rfl

/-- Where all chains of scopes end, before and after, there is nothing to be alarmed about. -/
lemma Safe.searches {R : Region} {s : State} {o : Outcome α} {F : Fault → Prop}
    (hs : ∀ c, s.store.Has (.scope c) → s.store.Rooted c)
    (h : R.Safe (fun st' => ∀ c, st'.Has (.scope c) → st'.Rooted c) F s o) :
    Watch.searches α s o :=
  ⟨Store.searchable_of_rooted hs, fun _ ht => Store.searchable_of_rooted (h.run_store ht).2⟩

end Region

namespace Law

open Region Evaluator

variable {st : Store} {h : st.Intact} {σ : Setting}

/-- The law that chains of scopes go on to end, whether or not the parts are watched. -/
def keepsChains (h : st.Intact) (hglobals : st.Has (.scope σ.globals)) :
    Law (whole st h) (fun _ : Bool => σ) where
  Holds w x := (whole st h).Watched (fun st' => ∀ c, st'.Has (.scope c) → st'.Rooted c)
    (fun _ => True) w (x false) (x true)
  weaken hx hw := hx.weaken hw
  contained hp := .of_contained hp
  bind hx hf := hx.bind hf
  blame span _ hx := hx.blame span
  limited hx := hx.limited trivial
  attempt _ hx := hx.attempt
  globals _ := ⟨σ.globals, hglobals, fun _ => rfl⟩
  arguments f _ _ hc _ ha := .of_contained (.bindArguments _ f hc ha)

variable (hglobals : st.Has (.scope σ.globals)) (alarm : Alarm)

/-- To watch the searches makes no difference. -/
lemma keepsChains_watched {ev : Bool → Evaluator} (hev : (keepsChains h hglobals).Obeys ev) :
    (keepsChains h hglobals).Obeys fun b =>
      cond b ((ev true).watched .searches alarm) (ev false) where
  tick w := hev.tick w
  loops _ _ _ _ hx := hev.loops hx
  expr _ _ hc e := (hev.expr hc e).watched alarm Safe.searches
  assign _ _ _ hc hv target := (hev.assign hc hv target).watched alarm Safe.searches
  stmt _ _ hc s := (hev.stmt hc s).watched alarm Safe.searches
  invoke _ _ _ hf ha := (hev.invoke hf ha).watched alarm Safe.searches

lemma keepsChains_level (n : Nat) : (keepsChains h hglobals).Obeys fun b =>
    cond b (watchedLevel .searches alarm σ n) (level σ n) := by
  induction n with
  | zero =>
    have hstuck := obeys_level (keepsChains h hglobals) (fun _ => Watched.unfinished)
      (fun _ => Watched.tick _ fun _ => trivial) 0
    exact keepsChains_watched hglobals alarm hstuck
  | succ n ih =>
    have hloops := (keepsChains h hglobals).loops_above
      (fun b => cond b (watchedLevel .searches alarm σ n) (level σ n))
      (fun _ => Watched.unfinished) (fun _ => Watched.tick _ fun _ => trivial)
      (rounds_watchedLevel _ alarm σ n)
    have habove := ih.above (fun _ => Watched.tick _ fun _ => trivial) hloops
    rw [level_succ]
    exact keepsChains_watched hglobals alarm habove

end Law

namespace Interpreter

open Region Evaluator

variable {α : Type} [Placed α] {i : Interpreter} {st : Store} {hst : st.Intact}

/-- A task for which watching makes no difference keeps the chains of scopes. -/
lemma KeepsChains.of_watched {task : Evaluator → Action α}
    (hchains : ∀ c, st.Has (.scope c) → st.Rooted c)
    (htask : ∀ alarm n, (whole st hst).Watched
      (fun st' => ∀ c, st'.Has (.scope c) → st'.Rooted c) (fun _ => True) st
      (task (level i.toSetting n)) (task (watchedLevel .searches alarm i.toSetting n))) :
    i.KeepsChains st task := by
  have hfrom : (whole st hst).From st (i.start st) := ⟨le_rfl, valid_base _⟩
  have hsome : Alarm := fun _ _ => .unfinished
  refine ⟨?_, ?_, fun alarm n => (htask alarm n).same _ hfrom hchains⟩
  · rintro o s ⟨-, n, rfl⟩ hs
    exact (((htask hsome n).safe _ hfrom hchains).run_store hs).1.parent
  · rintro o s ⟨-, n, rfl⟩ hs
    exact (((htask hsome n).safe _ hfrom hchains).run_store hs).2

end Interpreter

open Region Interpreter

/-- Programs, expressions, statements and calls keep the chains of scopes.  The store is intact, as
the stores of hosts are, and the scopes and values are of the store. -/
theorem evaluation_keepsChains (i : Interpreter) (st : Store) (hst : st.Intact)
    (hchains : ∀ c, st.Has (.scope c) → st.Rooted c) (hglobals : st.Has (.scope i.globals)) :
    (∀ program, i.KeepsChains st fun ev => ev.runFrom i.globals .nil program) ∧
    (∀ c, st.Has (.scope c) →
      (∀ e, i.KeepsChains st fun ev => ev.expr e c) ∧
      (∀ s, i.KeepsChains st fun ev => ev.stmt s c) ∧
      (∀ body, i.KeepsChains st fun ev => ev.execAll c body) ∧
      (∀ body, i.KeepsChains st fun ev => ev.execBlock c body)) ∧
    (∀ f args, (∀ v ∈ f :: args, ∀ n, v.node? = some n → st.Has n) →
      i.KeepsChains st fun ev => ev.call f args) := by
  have hobeys := fun alarm n => Law.keepsChains_level (h := hst) (σ := i.toSetting) hglobals alarm n
  refine ⟨fun program => ?_, fun c hc => ⟨fun e => ?_, fun s => ?_, fun body => ?_, fun body => ?_⟩,
    fun f args hvs => ?_⟩
  · have hnil : (whole st hst).Inside st Value.nil := inside_of_node?_eq_none rfl
    exact .of_watched hchains fun alarm n => (hobeys alarm n).runFrom (.inl hglobals) hnil program
  · exact .of_watched hchains fun alarm n => (hobeys alarm n).expr (.inl hc) e
  · exact .of_watched hchains fun alarm n => (hobeys alarm n).stmt (.inl hc) s
  · exact .of_watched hchains fun alarm n => (hobeys alarm n).stmt.execAll (.inl hc) body
  · exact .of_watched hchains fun alarm n => (hobeys alarm n).stmt.execBlock (.inl hc) body
  · have hin : ∀ v ∈ f :: args, (whole st hst).Inside st v :=
      fun v hv n hn => .inl (hvs v hv n hn)
    exact .of_watched hchains fun alarm n => (hobeys alarm n).call (hin f List.mem_cons_self)
      fun v hv => hin v (List.mem_cons_of_mem f hv)

/-- The call of a function that another call has made adds two scopes to the globals, the second one
inside of the first. -/
theorem evaluation_keepsChains_captured :
    let x : Expr := .synthetic (.identifier "x")
    let inner : FunctionLit := ⟨none, [], [.synthetic (.ret (some x))]⟩
    let outer : FunctionLit :=
      ⟨some "f", ["x"], [.synthetic (.ret (some (.synthetic (.function inner))))]⟩
    let f : Expr := .synthetic (.identifier "f")
    let program : List Stmt := [.synthetic (.function outer),
      .ofExpr (.synthetic (.call (.synthetic (.call f [.synthetic (.number 7)])) []))]
    let i := (Interpreter.create {} {}).1
    let st := (Interpreter.create {} {}).2
    st.Intact ∧ (∀ c, st.Has (.scope c) → st.Rooted c) ∧ st.Has (.scope i.globals) ∧
      (i.KeepsChains st fun ev => ev.runFrom i.globals .nil program) ∧
      ∃ s, i.Ends st (fun ev => ev.runFrom i.globals .nil program) (.value (.number 7) s) ∧
        s.store.Has (.scope ⟨2⟩) ∧ s.store.Rooted ⟨2⟩ := by
  intro x inner outer f program i st
  have hst : st.Intact := Interpreter.intact_create Store.intact_empty _
  have hchains : ∀ c, st.Has (.scope c) → st.Rooted c := by
    rintro ⟨index⟩ hc
    obtain rfl : index = 0 := Nat.lt_one_iff.mp hc
    exact ⟨0, .root rfl⟩
  have hglobals : st.Has (.scope i.globals) := by decide
  have hkeeps := (evaluation_keepsChains i st hst hchains hglobals).1 program
  obtain ⟨v, s, hrun, hv⟩ := Interpreter.Ends.of_passes i st
    (fun ev => ev.runFrom i.globals .nil program)
    (fun v s => decide (v = .number 7 ∧ s.store.Has (.scope ⟨2⟩))) 8 (by decide +kernel)
  obtain ⟨rfl, hs⟩ := of_decide_eq_true hv
  exact ⟨hst, hchains, hglobals, hkeeps, s, hrun, hs, hkeeps.rooted _ s hrun (.value _ s) _ hs⟩

end TreeWalk
