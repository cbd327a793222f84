/-
# The case that a switch selects

A switch executes the body of one case at most (`Evaluator.execSwitch_eq_select`): of the first one
whose test equals the subject, or else of the first one without a test, wherever that stands.  So
this one may as well stand at the end, behind all tests, and neither the bodies of the other cases
nor what stands behind a match is of any importance.  The main statement is `switch_selects`.
-/
import TreeWalk.Proofs.TopLevel

namespace TreeWalk

/-- The cases with a test, in order, and after them the first one without a test. -/
def Case.defaultLast (cases : List Case) : List Case :=
  cases.filter (fun k => k.test.isSome) ++ (cases.find? fun k => k.test.isNone).toList

namespace Evaluator

variable (ev : Evaluator) (c : ScopeRef)

/-- The position of the case that a switch selects: of the first one whose test equals the subject,
or, if there is none, of the first one without a test. -/
def select (subject : Expr) (cases : List Case) : Action (Option Nat) := do
  let v ← ev.expr subject c
  return (← ev.matching c v cases).or (cases.findIdx? fun k => k.test.isNone)

/-- Whether a case has a test that equals the subject. -/
def meets (subject : Value) : Option Expr → Action Bool
  | none => pure false
  | some test => do return (← ev.expr test c) = subject

/-! ### Matches -/

lemma matching_cons (v : Value) (k : Case) (cases : List Case) :
    ev.matching c v (k :: cases) = (do
      if ← ev.meets c v k.test then return some 0
      else return (← ev.matching c v cases).map (· + 1)) := by
  obtain ⟨test, body⟩ := k
  cases test <;> simp [matching, meets]

/-- Which case matches depends on the tests alone. -/
lemma matching_congr (v : Value) {cases cases' : List Case}
    (htests : cases'.map (·.test) = cases.map (·.test)) :
    ev.matching c v cases' = ev.matching c v cases := by
  induction cases generalizing cases' with
  | nil =>
    obtain rfl : cases' = [] := by simpa using htests
    rfl
  | cons k rest ih =>
    cases cases' with
    | nil => simp at htests
    | cons k' rest' =>
      obtain ⟨htest, hrest⟩ : k'.test = k.test ∧ rest'.map (·.test) = rest.map (·.test) := by
        simpa using htests
      rw [matching_cons, matching_cons, htest, ih hrest]

section

variable {ev c} {v : Value} {k : Case} {cases cases' : List Case} {p : Nat} {s t : State}

/-- Either the first case matches or one behind it does. -/
lemma matching_cons_iff :
    ev.matching c v (k :: cases) s = .value (some p) t ↔
      ∃ met u, ev.meets c v k.test s = .value met u ∧
        if met = true then p = 0 ∧ u = t
        else ∃ q, p = q + 1 ∧ ev.matching c v cases u = .value (some q) t := by
  rw [matching_cons, Action.bind_eq_value]
  refine exists₂_congr fun met u => and_congr_right fun _ => ?_
  cases met with
  | true => simp [eq_comm]
  | false =>
    simp only [Bool.false_eq_true, if_false, Action.bind_eq_value, Action.pure_apply,
      Outcome.value.injEq, Option.map_eq_some_iff]
    constructor
    · rintro ⟨_, w, hq, ⟨q, rfl, rfl⟩, rfl⟩
      exact ⟨q, rfl, hq⟩
    · rintro ⟨q, rfl, hq⟩
      exact ⟨some q, t, hq, ⟨q, rfl, rfl⟩, rfl⟩

/-- If there is a match, the tests up to it alone say where it is. -/
lemma matching_of_take (h : ev.matching c v cases s = .value (some p) t)
    (htests : (cases'.take (p + 1)).map (·.test) = (cases.take (p + 1)).map (·.test)) :
    ev.matching c v cases' s = .value (some p) t := by
  induction cases generalizing cases' p s with
  | nil => cases h
  | cons k rest ih =>
    cases cases' with
    | nil => simp at htests
    | cons k' rest' =>
      obtain ⟨htest, hrest⟩ : k'.test = k.test ∧
          (rest'.take p).map (·.test) = (rest.take p).map (·.test) := by
        simpa using htests
      obtain ⟨met, u, hmet, hp⟩ := matching_cons_iff.mp h
      refine matching_cons_iff.mpr ⟨met, u, htest ▸ hmet, ?_⟩
      cases met with
      | true => exact hp
      | false =>
        obtain ⟨q, rfl, hq⟩ := hp
        exact ⟨q, rfl, ih hq hrest⟩

/-- It is a case with a test that matches. -/
lemma test_of_matching (h : ev.matching c v cases s = .value (some p) t) :
    ∃ k, cases[p]? = some k ∧ k.test.isSome := by
  induction cases generalizing p s with
  | nil => cases h
  | cons k rest ih =>
    obtain ⟨met, u, hmet, hp⟩ := matching_cons_iff.mp h
    cases met with
    | true =>
      obtain ⟨rfl, -⟩ := hp
      obtain ⟨test, body⟩ := k
      cases test with
      | none => simp [meets] at hmet
      | some test => exact ⟨_, rfl, rfl⟩
    | false =>
      obtain ⟨q, rfl, hq⟩ := hp
      exact ih hq

end

/-! ### Selection -/

/-- A switch executes the body of the case that it selects. -/
lemma execSwitch_eq_select (subject : Expr) (cases : List Case) :
    ev.execSwitch c subject cases = (do
      let position ← ev.select c subject cases
      ev.execCase c (position.bind fun k => cases[k]?.map (·.body))) := by
  rw [execSwitch_eq, select, bind_assoc]
  congr 1
  funext v
  rw [bind_assoc]
  funext s
  rw [Action.bind_apply, Action.bind_apply]
  cases hmatching : ev.matching c v cases s with
  | value position t =>
    cases position with
    | none =>
      have hdefault : defaultBody cases =
          (cases.findIdx? fun k => k.test.isNone).bind fun k => cases[k]?.map (·.body) := by
        rw [defaultBody, List.find?_eq_bind_findIdx?_getElem?, Option.map_bind]
        rfl
      simp [selected, hdefault]
    | some p =>
      obtain ⟨k, hk, -⟩ := test_of_matching hmatching
      simp [selected, hk]
  | error e t => rfl
  | unfinished => rfl

lemma select_congr (subject : Expr) {cases cases' : List Case}
    (htests : cases'.map (·.test) = cases.map (·.test)) :
    ev.select c subject cases' = ev.select c subject cases := by
  have hdefault : ∀ cases : List Case, (cases.findIdx? fun k => k.test.isNone) =
      (cases.map (·.test)).findIdx? Option.isNone := fun cases => by
    rw [List.findIdx?_map]
    rfl
  have hmatching : ∀ v, ev.matching c v cases' = ev.matching c v cases := fun v =>
    ev.matching_congr c v htests
  simp only [select, hmatching, hdefault, htests]

/-! ### The default -/

lemma defaultBody_defaultLast (cases : List Case) :
    defaultBody (Case.defaultLast cases) = defaultBody cases := by
  have htests : (cases.filter fun k => k.test.isSome).find? (fun k => k.test.isNone) = none := by
    simp +contextual [List.find?_eq_none, Option.isSome_iff_ne_none]
  rw [defaultBody, defaultBody, Case.defaultLast, List.find?_append, htests, Option.none_or]
  cases hdefault : cases.find? fun k => k.test.isNone with
  | none => rfl
  | some k =>
    have hk := List.find?_some hdefault
    simp [hk]

lemma firstMatch_default (v : Value) (k : Option Case) (hk : ∀ k' ∈ k, k'.test = none) :
    ev.firstMatch c v k.toList = pure none := by
  cases k with
  | none => rfl
  | some k =>
    obtain ⟨test, body⟩ := k
    obtain rfl : test = none := hk _ rfl
    rfl

lemma firstMatch_defaultLast (v : Value) (cases : List Case) :
    ev.firstMatch c v (Case.defaultLast cases) = ev.firstMatch c v cases := by
  have hdefault := ev.firstMatch_default c v (cases.find? fun k => k.test.isNone)
    fun k hk => Option.isNone_iff_eq_none.mp (by simpa using List.find?_some hk)
  rw [Case.defaultLast]
  generalize (cases.find? fun k => k.test.isNone).toList = rest at hdefault
  induction cases with
  | nil => exact hdefault
  | cons k cases ih =>
    obtain ⟨test, body⟩ := k
    cases test with
    | none => exact ih
    | some test => simp [firstMatch, ih]

lemma execSwitch_defaultLast (subject : Expr) (cases : List Case) :
    ev.execSwitch c subject (Case.defaultLast cases) = ev.execSwitch c subject cases := by
  simp only [execSwitch, firstMatch_defaultLast, defaultBody_defaultLast]

/-! ### Other cases in place of the cases -/

section

variable {ev c} {subject : Expr} {cases cases' : List Case} {s : State}

lemma select_eq_value_iff {position : Option Nat} {t : State} :
    ev.select c subject cases s = .value position t ↔
      ∃ v u p, ev.expr subject c s = .value v u ∧ ev.matching c v cases u = .value p t ∧
        position = p.or (cases.findIdx? fun k => k.test.isNone) := by
  simp only [select, Action.bind_eq_value, Action.pure_apply, Outcome.value.injEq]
  constructor
  · rintro ⟨v, u, hv, p, w, hp, rfl, rfl⟩
    exact ⟨v, u, p, hv, hp, rfl⟩
  · rintro ⟨v, u, p, hv, hp, rfl⟩
    exact ⟨v, u, hv, p, t, hp, rfl, rfl⟩

/-- Only the body of the selected case is of importance. -/
lemma execSwitch_congr_bodies (htests : cases'.map (·.test) = cases.map (·.test))
    (hselected : ∀ p t, ev.select c subject cases s = .value (some p) t → cases'[p]? = cases[p]?) :
    ev.execSwitch c subject cases' s = ev.execSwitch c subject cases s := by
  rw [execSwitch_eq_select, execSwitch_eq_select, ev.select_congr c subject htests,
    Action.bind_apply, Action.bind_apply]
  cases hselect : ev.select c subject cases s with
  | value position t =>
    cases position with
    | none => rfl
    | some p => simp [hselected p t hselect]
  | error e t => rfl
  | unfinished => rfl

/-- What stands behind a match is of no importance. -/
lemma execSwitch_congr_behind {p : Nat} {k : Case} {t : State}
    (hselect : ev.select c subject cases s = .value (some p) t) (hk : cases[p]? = some k)
    (htest : k.test.isSome) (hk' : cases'[p]? = some k)
    (htests : (cases'.take p).map (·.test) = (cases.take p).map (·.test)) :
    ev.execSwitch c subject cases' s = ev.execSwitch c subject cases s := by
  obtain ⟨v, u, position, hv, hmatching, hp⟩ := select_eq_value_iff.mp hselect
  -- the selected case has a test, so that it has not been selected for having none
  obtain rfl : position = some p := by
    rcases Option.or_eq_some_iff.mp hp.symm with hp | ⟨-, hp⟩
    · exact hp
    · obtain ⟨hlt, hnone, -⟩ := List.findIdx?_eq_some_iff_getElem.mp hp
      obtain rfl : cases[p] = k := by simpa [hlt] using hk
      rw [Option.isNone_iff_eq_none.mp hnone] at htest
      cases htest
  have hupto : (cases'.take (p + 1)).map (·.test) = (cases.take (p + 1)).map (·.test) := by
    rw [List.take_add_one, List.take_add_one, List.map_append, List.map_append, htests, hk, hk']
  have hselect' : ev.select c subject cases' s = .value (some p) t :=
    select_eq_value_iff.mpr ⟨v, u, some p, hv, matching_of_take hmatching hupto, rfl⟩
  rw [execSwitch_eq_select, execSwitch_eq_select, Action.bind_apply, Action.bind_apply, hselect,
    hselect']
  simp [hk, hk']

end

end Evaluator

/-! ### Runs -/

namespace Compatible.Related

variable {C : Compatible} {ev ev' : Evaluator} (h : C.Related ev ev')
include h

lemma matching (c : ScopeRef) (v : Value) (cases : List Case) :
    C.Rel (ev.matching c v cases) (ev'.matching c v cases) := by
  induction cases with
  | nil => exact C.pure _
  | cons k rest ih =>
    rw [Evaluator.matching_cons, Evaluator.matching_cons]
    have hmeets : C.Rel (ev.meets c v k.test) (ev'.meets c v k.test) := by
      cases k.test with
      | none => exact C.pure _
      | some test => exact C.andThen (h.expr test c) fun _ => .pure _
    exact C.bind hmeets fun _ => C.ite (C.pure _) (C.andThen ih fun _ => .pure _)

lemma select (c : ScopeRef) (subject : Expr) (cases : List Case) :
    C.Rel (ev.select c subject cases) (ev'.select c subject cases) :=
  C.bind (h.expr subject c) fun v => C.andThen (h.matching c v cases) fun _ => .pure _

end Compatible.Related

namespace Interpreter

variable {i : Interpreter} {st : Store} {c : ScopeRef} {span : Span}

/-- What high enough levels do alike for two tasks, they end alike with. -/
lemma Ends.of_levels {α : Type} {x y : Evaluator → Action α} (hx : Growing x) (n : Nat)
    (hxy : ∀ m, n ≤ m → x (Evaluator.level i.toSetting m) (i.start st) =
      y (Evaluator.level i.toSetting m) (i.start st)) {o : Outcome α} (h : i.Ends st x o) :
    i.Ends st y o := by
  obtain ⟨ho, m, rfl⟩ := h
  have hmax := (hx (Evaluator.level_mono i.toSetting (Nat.le_max_right n m))).eq ho
  exact ⟨ho, max n m, (hxy _ (Nat.le_max_left n m)).symm.trans hmax⟩

/-- Statements of the same place end alike if high enough levels do the same for them after their
step. -/
lemma ends_stmt_congr {kind kind' : StmtKind} (n : Nat)
    (h : ∀ m, n ≤ m → (Evaluator.level i.toSetting m).execKind c kind (i.ticked.start st) =
      (Evaluator.level i.toSetting m).execKind c kind' (i.ticked.start st)) (o : Outcome Flow) :
    i.Ends st (fun ev => ev.stmt ⟨span, kind⟩ c) o ↔
      i.Ends st (fun ev => ev.stmt ⟨span, kind'⟩ c) o := by
  have hgrowing : ∀ k, Growing fun ev => ev.execStmt i.toSetting ⟨span, k⟩ c := fun k _ _ h =>
    h.related.execStmt i.toSetting ⟨span, k⟩ c
  have hlevels : ∀ m, n ≤ m → (Evaluator.level i.toSetting m).execStmt i.toSetting ⟨span, kind⟩ c
      (i.start st) =
      (Evaluator.level i.toSetting m).execStmt i.toSetting ⟨span, kind'⟩ c (i.start st) := by
    intro m hm
    unfold Evaluator.execStmt Action.blame
    rw [Action.bind_apply, Action.bind_apply]
    cases htick : Action.tick i.config.stepLimit (i.start st) with
    | value a t =>
      obtain rfl : t = i.ticked.start st := Ends.of_tick ⟨by simp, 0, htick⟩
      dsimp only
      rw [h m hm]
    | error e t => rfl
    | unfinished => rfl
  rw [ends_stmt, ends_stmt]
  exact ⟨.of_levels (hgrowing kind) n hlevels,
    .of_levels (hgrowing kind') n fun m hm => (hlevels m hm).symm⟩

open Evaluator in
/-- A switch ends as the one does in which the first case without a test stands behind all of those
with a test, and the others without a test are left out.  It ends as every switch does that has the
same tests and, if a case is selected, the same case there; and if the selected case has a test, then
as every switch does that has the same tests before that case, whatever stands behind it. -/
theorem switch_selects (i : Interpreter) (st : Store) (c : ScopeRef) (span : Span)
    (subject : Expr) (cases : List Case) :
    (∀ o, i.Ends st (fun ev => ev.stmt ⟨span, .switch subject cases⟩ c) o ↔
      i.Ends st (fun ev => ev.stmt ⟨span, .switch subject (Case.defaultLast cases)⟩ c) o) ∧
    (∀ cases', cases'.map (·.test) = cases.map (·.test) →
      (∀ p s, i.ticked.Ends st (fun ev => ev.select c subject cases) (.value (some p) s) →
        cases'[p]? = cases[p]?) →
      ∀ o, i.Ends st (fun ev => ev.stmt ⟨span, .switch subject cases⟩ c) o ↔
        i.Ends st (fun ev => ev.stmt ⟨span, .switch subject cases'⟩ c) o) ∧
    (∀ p k s, i.ticked.Ends st (fun ev => ev.select c subject cases) (.value (some p) s) →
      cases[p]? = some k → k.test.isSome →
      ∀ cases', cases'[p]? = some k →
        (cases'.take p).map (·.test) = (cases.take p).map (·.test) →
      ∀ o, i.Ends st (fun ev => ev.stmt ⟨span, .switch subject cases⟩ c) o ↔
        i.Ends st (fun ev => ev.stmt ⟨span, .switch subject cases'⟩ c) o) := by
  refine ⟨ends_stmt_congr 0 fun m _ => ?_, fun cases' htests hselected => ?_,
    fun p k s hselect hk htest cases' hk' htests => ?_⟩
  · exact congrFun (execSwitch_defaultLast _ c subject cases).symm _
  · refine ends_stmt_congr 0 fun m _ => (execSwitch_congr_bodies htests fun p s h => ?_).symm
    exact hselected p s ⟨by simp, m, h⟩
  · obtain ⟨-, n, hn⟩ := hselect
    replace hn : (level i.toSetting n).select c subject cases (i.ticked.start st) =
      .value (some p) s := hn
    refine ends_stmt_congr n fun m hm => ?_
    have hselect := ((level_mono i.toSetting hm).related.select c subject cases).eq
      (s := i.ticked.start st) (by rw [hn]; simp)
    exact (execSwitch_congr_behind (hselect.trans hn) hk htest hk' htests).symm

/-- The default stands first and the third case is selected.  The default may as well stand last, the
other bodies may be any, and the test behind the match may be one that would fail. -/
theorem switch_selects_third :
    let number (n : Int64) : Expr := .synthetic (.number n)
    let answer (n : Int64) : List Stmt := [.synthetic (.ret (some (number n)))]
    let cases : List Case := [⟨none, answer 0⟩, ⟨some (number 1), answer 10⟩,
      ⟨some (number 2), answer 20⟩, ⟨some (number 3), answer 30⟩]
    let others : List Case := [⟨none, []⟩, ⟨some (number 1), [.synthetic .leave]⟩,
      ⟨some (number 2), answer 20⟩, ⟨some (number 3), []⟩]
    let unmet : List Case := [⟨none, []⟩, ⟨some (number 1), []⟩, ⟨some (number 2), answer 20⟩,
      ⟨some (.synthetic (.identifier "missing")), []⟩]
    let switch (cases : List Case) : Stmt := .synthetic (.switch (number 2) cases)
    let i := (Interpreter.create {} {}).1
    let st := (Interpreter.create {} {}).2
    (∃ s, i.ticked.Ends st (fun ev => ev.select i.globals (number 2) cases) (.value (some 2) s)) ∧
      ∃ s, ∀ cases' ∈ [cases, Case.defaultLast cases, others, unmet],
        i.Ends st (fun ev => ev.stmt (switch cases') i.globals) (.value (.ret (.number 20)) s) := by
  intro number answer cases others unmet switch i st
  obtain ⟨position, s, hselect, hposition⟩ := Ends.of_passes i.ticked st
    (fun ev => ev.select i.globals (number 2) cases) (fun p _ => decide (p = some 2)) 2
    (by decide +kernel)
  obtain rfl : position = some 2 := of_decide_eq_true hposition
  obtain ⟨flow, t, hstmt, hflow⟩ := Ends.of_passes i st
    (fun ev => ev.stmt (switch cases) i.globals) (fun f _ => decide (f = .ret (.number 20))) 4
    (by decide +kernel)
  obtain rfl : flow = .ret (.number 20) := of_decide_eq_true hflow
  obtain ⟨hlast, hothers, hunmet⟩ :=
    switch_selects i st i.globals .synthetic (number 2) cases
  have hthird : ∀ p u, i.ticked.Ends st (fun ev => ev.select i.globals (number 2) cases)
      (.value (some p) u) → others[p]? = cases[p]? := by
    intro p u h
    have hgrowing : Growing fun ev => ev.select i.globals (number 2) cases := fun _ _ h =>
      h.related.select i.globals (number 2) cases
    have hp := h.unique hgrowing hselect
    obtain ⟨rfl, -⟩ : p = 2 ∧ u = s := by simpa using hp
    rfl
  refine ⟨⟨s, hselect⟩, t, ?_⟩
  simp only [List.forall_mem_cons, List.not_mem_nil, false_imp_iff, implies_true, and_true]
  exact ⟨hstmt, (hlast _).mp hstmt, (hothers others rfl hthird _).mp hstmt,
    (hunmet 2 _ s hselect rfl rfl unmet rfl rfl _).mp hstmt⟩

end Interpreter

end TreeWalk
