/-
# The nearest binding of a name

A name means its binding in the nearest scope of the chain that has one (`Store.Nearest`).  Where all
chains end, a search finds this scope (`search_eq_found_iff`), so that looking a name up and assigning
to it agree on the binding.  An assignment changes this one binding, which is seen from all scopes
that have it for their nearest one, and from no other scope and under no other name
(`assign_nearest`).
-/
import TreeWalk.Proofs.Chains
import TreeWalk.Proofs.Places
import TreeWalk.Proofs.Unbounded

namespace TreeWalk

namespace Store

variable {st st' : Store} {name : String} {c d e : ScopeRef} {v w : Value}

/-- The last scope is the nearest one, on the chain of the first one, that binds the name itself. -/
inductive Nearest (st : Store) (name : String) : ScopeRef → ScopeRef → Prop
  | here {c : ScopeRef} (h : st.hasLocal c name = true) : Nearest st name c c
  | outer {c parent d : ScopeRef} (h : st.hasLocal c name = false)
      (hparent : (st.scope c).parent = some parent) (hd : Nearest st name parent d) :
      Nearest st name c d

lemma hasLocal_eq_isSome (st : Store) (c : ScopeRef) (name : String) :
    st.hasLocal c name = (st.at? (.binding c name)).isSome :=
  Std.TreeMap.contains_eq_isSome_getElem?

/-- There is one nearest scope at most. -/
lemma Nearest.unique (hd : st.Nearest name c d) (he : st.Nearest name c e) : d = e := by
  induction hd with
  | here h =>
    cases he with
    | here => rfl
    | outer hno => simp [h] at hno
  | outer h hparent _ ih =>
    cases he with
    | here hlocal => simp [h] at hlocal
    | outer _ hparent' he =>
      obtain rfl := Option.some.inj (hparent.symm.trans hparent')
      exact ih he

/-! ### Searches -/

/-- A search looks at the scope that it starts in before it goes on with the scope around it. -/
lemma searchFrom_succ (st : Store) (name : String) (n : Nat) (c : ScopeRef) :
    st.searchFrom name (n + 1) c =
      match st.at? (.binding c name), (st.scope c).parent with
      | some v, _ => .found (c, v)
      | none, some parent => st.searchFrom name n parent
      | none, none => .unbound := by
  rw [searchFrom, at?]
  cases (st.scope c).symbols[name]? with
  | some v => rfl
  | none => cases (st.scope c).parent <;> rfl

lemma nearest_of_searchFrom {n : Nat} (h : st.searchFrom name n c = .found (d, v)) :
    st.Nearest name c d := by
  induction n generalizing c with
  | zero => cases h
  | succ n ih =>
    rw [searchFrom_succ] at h
    cases hlocal : st.at? (.binding c name) with
    | some u =>
      rw [hlocal] at h
      cases h
      exact .here (by simp [hasLocal_eq_isSome, hlocal])
    | none =>
      rw [hlocal] at h
      cases hparent : (st.scope c).parent with
      | none => rw [hparent] at h; cases h
      | some parent =>
        rw [hparent] at h
        exact .outer (by simp [hasLocal_eq_isSome, hlocal]) hparent (ih h)

lemma not_nearest_of_searchFrom {n : Nat} (h : st.searchFrom name n c = .unbound)
    (d : ScopeRef) : ¬ st.Nearest name c d := by
  induction n generalizing c with
  | zero => cases h
  | succ n ih =>
    rw [searchFrom_succ] at h
    cases hlocal : st.at? (.binding c name) with
    | some u => rw [hlocal] at h; cases h
    | none =>
      rw [hlocal] at h
      rintro (hhere | ⟨-, hparent, hd⟩)
      · simp [hasLocal_eq_isSome, hlocal] at hhere
      · rw [hparent] at h
        exact ih h hd

/-- On a chain that ends a search finds the nearest scope that binds the name. -/
lemma search_eq_found_iff (hc : st.Rooted c) :
    (∃ v, st.search c name = .found (d, v)) ↔ st.Nearest name c d := by
  constructor
  · rintro ⟨v, h⟩
    exact nearest_of_searchFrom h
  · intro hd
    cases h : st.search c name with
    | found r =>
      obtain ⟨e, v⟩ := r
      obtain rfl := hd.unique (nearest_of_searchFrom h)
      exact ⟨v, rfl⟩
    | unbound => exact absurd hd (not_nearest_of_searchFrom h d)
    | endless => exact absurd h (hc.search_ne_endless name)

/-! ### Searches after a change -/

namespace ChangedAt

variable (h : ChangedAt (.binding d name) v w st st')
include h

/-- A search goes the same way after a binding has changed, and finds the new value there. -/
lemma searchFrom_eq (m : String) (n : Nat) (x : ScopeRef) :
    st'.searchFrom m n x =
      match st.searchFrom m n x with
      | .found (y, u) => .found (y, if y = d ∧ m = name then w else u)
      | .unbound => .unbound
      | .endless => .endless := by
  induction n generalizing x with
  | zero => rfl
  | succ n ih =>
    rw [searchFrom_succ, searchFrom_succ, h.parent x]
    by_cases hx : x = d ∧ m = name
    · obtain ⟨rfl, rfl⟩ := hx
      rw [h.before, h.after]
      simp
    · have hne : Place.binding x m ≠ .binding d name := fun heq => hx (by simpa using heq)
      rw [h.others _ hne]
      cases st.at? (.binding x m) with
      | some u => simp [hx]
      | none =>
        cases (st.scope x).parent with
        | some parent => exact ih parent
        | none => rfl

lemma search_eq (m : String) (x : ScopeRef) :
    st'.search x m =
      match st.search x m with
      | .found (y, u) => .found (y, if y = d ∧ m = name then w else u)
      | .unbound => .unbound
      | .endless => .endless := by
  have hsize : st'.scopes.size = st.scopes.size := SameExtent.scopes fun n _ => h.has n
  rw [search, search, hsize, h.searchFrom_eq]

lemma hasLocal_eq (x : ScopeRef) (m : String) : st'.hasLocal x m = st.hasLocal x m := by
  rw [hasLocal_eq_isSome, hasLocal_eq_isSome]
  by_cases hx : Place.binding x m = .binding d name
  · rw [hx, h.before, h.after]
    rfl
  · rw [h.others _ hx]

/-- The changed binding is what its name means in the scopes that have it for their nearest one. -/
lemma lookup_of_nearest {x : ScopeRef} (hx : st.Rooted x) (hd : st.Nearest name x d) :
    st'.lookup x name = .found w := by
  obtain ⟨u, hfound⟩ := (search_eq_found_iff hx).mpr hd
  simp [lookup, h.search_eq, hfound]

lemma lookup_of_not_nearest {m : String} {x : ScopeRef}
    (hno : ¬ (m = name ∧ st.Nearest name x d)) : st'.lookup x m = st.lookup x m := by
  rw [lookup, lookup, h.search_eq]
  cases hfound : st.search x m with
  | found r =>
    obtain ⟨y, u⟩ := r
    have hne : ¬ (y = d ∧ m = name) := by
      rintro ⟨rfl, rfl⟩
      exact hno ⟨rfl, nearest_of_searchFrom hfound⟩
    simp [hne]
  | unbound => rfl
  | endless => rfl

end ChangedAt

end Store

open Interpreter in
/-- Where all chains of scopes end, an assignment to a name succeeds if and only if the name can be
looked up.  If it fails, nothing has changed; if it succeeds, it has changed the nearest binding and
nothing else, and a lookup finds the new value in the scopes from which this binding is the nearest
one and what it found before everywhere else.  The same is what becomes of a name as the target of an
assignment. -/
theorem assign_nearest (st : Store) (hchains : ∀ c, st.Has (.scope c) → st.Rooted c) (c : ScopeRef)
    (name : String) (v : Value) :
    ∃ found st',
      (∀ depth steps, Action.assign c name v { store := st, depth, steps } =
        .value found { store := st', depth, steps }) ∧
      st.assign c name v = (if found then .found st' else .unbound) ∧
      (∀ (i : Interpreter) (span : Span),
        i.Ends st (fun ev => ev.assign ⟨span, .identifier name⟩ v c)
          (if found then .value () (i.start st')
            else .error ((EvalError.ofFault (.unbound name)).blame span) (i.start st))) ∧
      (found = true ↔ ∃ u, st.lookup c name = .found u) ∧
      (found = false → st' = st) ∧
      (found = true → ∃ d u, st.Nearest name c d ∧ st.ChangedAt (.binding d name) u v st' ∧
        (∀ x m, st'.hasLocal x m = st.hasLocal x m) ∧
        (∀ x, st.Nearest name x d → st'.lookup x name = .found v) ∧
        ∀ x m, ¬ (m = name ∧ st.Nearest name x d) → st'.lookup x m = st.lookup x m) := by
  have hrooted : ∀ x, st.Rooted x := fun x =>
    if hx : st.Has (.scope x) then hchains x hx
    else Store.rooted_of_size_le (Nat.le_of_not_lt hx)
  have hends : ∀ (i : Interpreter) (span : Span) (o : Outcome Unit), o ≠ .unfinished →
      (Evaluator.assignName c name v (i.start st)).blame span = o →
      i.Ends st (fun ev => ev.assign ⟨span, .identifier name⟩ v c) o := by
    intro i span o ho h
    refine (ends_iff (i.toSetting.level_comeTo.assign _ v c)).mpr ⟨ho, ?_⟩
    rw [Setting.full_assign_apply]
    exact h
  cases hsearch : st.search c name with
  | found r =>
    obtain ⟨d, u⟩ := r
    have hchanged : st.ChangedAt (.binding d name) u v (st.define d name v) :=
      Store.changedAt_define (Store.symbols_of_search hsearch) v
    refine ⟨true, st.define d name v, fun depth steps => ?_, ?_, fun i span => ?_, ?_, nofun,
      fun _ => ⟨d, u, Store.nearest_of_searchFrom hsearch, hchanged, hchanged.hasLocal_eq,
        fun x hx => hchanged.lookup_of_nearest (hrooted x) hx,
        fun x m hno => hchanged.lookup_of_not_nearest hno⟩⟩
    · simp [Action.assign, hsearch]
    · simp [Store.assign, hsearch]
    · refine hends i span _ (by simp) ?_
      simp [Evaluator.assignName, Action.bind_apply, Action.assign, Interpreter.start, hsearch,
        Outcome.blame]
    · simp [Store.lookup, hsearch]
  | unbound =>
    refine ⟨false, st, fun depth steps => ?_, ?_, fun i span => ?_, ?_, fun _ => rfl,
      fun h => absurd h Bool.false_ne_true⟩
    · simp [Action.assign, hsearch]
    · simp [Store.assign, hsearch]
    · refine hends i span _ (by simp) ?_
      simp [Evaluator.assignName, Action.bind_apply, Action.assign, Action.raise,
        Interpreter.start, hsearch, Outcome.blame]
    · simp [Store.lookup, hsearch]
  | endless => exact absurd hsearch ((hrooted c).search_ne_endless name)

/-- A name is bound in the outermost scope and in one inside of it.  An assignment from a scope
inside of that one is not seen from a scope next to it. -/
theorem assign_nearest_shadowed :
    let outer := (({} : Store).newScope none).2.define ⟨0⟩ "x" (.number 1)
    let inner := (outer.newScope (some ⟨0⟩)).2.define ⟨1⟩ "x" (.number 2)
    let st := ((inner.newScope (some ⟨1⟩)).2.newScope (some ⟨0⟩)).2
    (∀ c, st.Has (.scope c) → st.Rooted c) ∧ st.Nearest "x" ⟨2⟩ ⟨1⟩ ∧ st.Nearest "x" ⟨3⟩ ⟨0⟩ ∧
      ∃ st', Action.assign ⟨2⟩ "x" (.number 3) { store := st } = .value true { store := st' } ∧
        st'.lookup ⟨2⟩ "x" = .found (.number 3) ∧ st'.lookup ⟨1⟩ "x" = .found (.number 3) ∧
        st'.lookup ⟨3⟩ "x" = .found (.number 1) := by
  intro outer inner st
  have h0 : st.Rooted ⟨0⟩ := ⟨0, .root rfl⟩
  have h1 : st.Rooted ⟨1⟩ := h0.inside rfl
  have hchains : ∀ c, st.Has (.scope c) → st.Rooted c := by
    rintro ⟨index⟩ hc
    have hlt : index < 4 := hc
    obtain rfl | rfl | rfl | rfl : index = 0 ∨ index = 1 ∨ index = 2 ∨ index = 3 := by omega
    · exact h0
    · exact h1
    · exact h1.inside rfl
    · exact h0.inside rfl
  have hnear1 : st.Nearest "x" ⟨1⟩ ⟨1⟩ := .here (by decide +kernel)
  have hnear2 : st.Nearest "x" ⟨2⟩ ⟨1⟩ := .outer (by decide +kernel) rfl hnear1
  have hnear3 : st.Nearest "x" ⟨3⟩ ⟨0⟩ := .outer (by decide +kernel) rfl (.here (by decide +kernel))
  refine ⟨hchains, hnear2, hnear3, ?_⟩
  obtain ⟨found, st', hassign, -, -, hfound, -, hchanged⟩ :=
    assign_nearest st hchains ⟨2⟩ "x" (.number 3)
  obtain rfl : found = true := hfound.mpr ⟨.number 2, by decide +kernel⟩
  obtain ⟨d, u, hd, -, -, hseen, hother⟩ := hchanged rfl
  obtain rfl : d = ⟨1⟩ := hd.unique hnear2
  have hunseen : ¬ ("x" = "x" ∧ st.Nearest "x" ⟨3⟩ ⟨1⟩) := fun h =>
    absurd (h.2.unique hnear3) (by decide)
  refine ⟨st', hassign 0 0, hseen _ hnear2, hseen _ hnear1, ?_⟩
  rw [hother _ _ hunseen]
  decide +kernel

end TreeWalk
