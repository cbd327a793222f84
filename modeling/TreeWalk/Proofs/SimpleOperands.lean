/-
# Operands without side effects

An expression that is put together from scalars, names, index reads and operators only reads the
store: it comes to the same end as often as it is evaluated, after the same number of steps
(`Simple.isReading`).  If its value is a number and it can be assigned to, the assignment goes the
way that the evaluation went and comes to the place that was read, even if the place depends on what
other places hold (`Simple.assign`).  So a number that is stepped in place is the number that was
read (`step_simple`).
-/
import TreeWalk.Proofs.Chains
import TreeWalk.Proofs.Places
import TreeWalk.Proofs.TopLevel
import TreeWalk.Proofs.Unbounded

namespace TreeWalk

/-- The expression is put together from scalars, names, index reads and operators that write
nothing. -/
inductive Expr.Simple : Expr → Prop
  | nil (span : Span) : Simple ⟨span, .nil⟩
  | bool (span : Span) (b : Bool) : Simple ⟨span, .bool b⟩
  | number (span : Span) (n : Int64) : Simple ⟨span, .number n⟩
  | string (span : Span) (s : String) : Simple ⟨span, .string s⟩
  | identifier (span : Span) (name : String) : Simple ⟨span, .identifier name⟩
  | index (span : Span) {container key : Expr} (hcontainer : Simple container)
      (hkey : Simple key) : Simple ⟨span, .index container key⟩
  | unary (span : Span) (op : UnaryOp) {operand : Expr} (h : Simple operand) :
      Simple ⟨span, .unary op operand⟩
  | binary (span : Span) (op : BinaryOp) {left right : Expr} (hleft : Simple left)
      (hright : Simple right) : Simple ⟨span, .binary left op right⟩
  | conditional (span : Span) {condition whenTrue whenFalse : Expr} (hcondition : Simple condition)
      (htrue : Simple whenTrue) (hfalse : Simple whenFalse) :
      Simple ⟨span, .conditional condition whenTrue whenFalse⟩
  | paren (span : Span) {inner : Expr} (h : Simple inner) : Simple ⟨span, .paren inner⟩

/-- The end in the given state. -/
def Outcome.ofExcept {α : Type} (r : Except EvalError α) (s : State) : Outcome α :=
  match r with
  | .ok a => .value a s
  | .error e => .error e s

/-- The same end, with `b` for its value. -/
def Outcome.answer {α β : Type} (b : β) : Outcome α → Outcome β
  | .value _ s => .value b s
  | .error e s => .error e s
  | .unfinished => .unfinished

namespace Action

variable {α β : Type} {st : Store}

/-- In the store `st` the action comes to `r` after `k` steps, and changes nothing else. -/
def Reads (x : Action α) (st : Store) (r : Except EvalError α) (k : Nat) : Prop :=
  ∀ s, s.store = st → x s = .ofExcept r { s with steps := s.steps + k }

/-- In the store `st` the action only reads. -/
def IsReading (x : Action α) (st : Store) : Prop := ∃ r k, x.Reads st r k

namespace IsReading

lemma pure (a : α) : IsReading (Pure.pure a : Action α) st := ⟨.ok a, 0, fun _ _ => rfl⟩

lemma raise (fault : Fault) : IsReading (Action.raise fault : Action α) st :=
  ⟨.error (.ofFault fault), 0, fun _ _ => rfl⟩

lemma read (f : Store → α) : IsReading (Action.read f) st := by
  refine ⟨.ok (f st), 0, fun s hs => ?_⟩
  subst hs
  rfl

lemma ofExcept (r : Except Fault α) : IsReading (Action.ofExcept r) st := by
  cases r with
  | ok a => exact pure a
  | error fault => exact raise fault

lemma tick : IsReading (Action.tick none) st := ⟨.ok (), 1, fun _ _ => rfl⟩

/-- A name is looked up along a chain that ends. -/
lemma lookup {c : ScopeRef} (hc : st.Rooted c) (name : String) :
    IsReading (Action.lookup c name) st := by
  have hends : st.lookup c name ≠ .endless := by
    have hsearch := hc.search_ne_endless name
    unfold Store.lookup
    split <;> simp_all
  cases hfound : st.lookup c name with
  | found v =>
    refine ⟨.ok v, 0, fun s hs => ?_⟩
    subst hs
    rw [Action.lookup, hfound]
    rfl
  | unbound =>
    refine ⟨.error (.ofFault (.unbound name)), 0, fun s hs => ?_⟩
    subst hs
    rw [Action.lookup, hfound]
    rfl
  | endless => exact absurd hfound hends

lemma bind {x : Action α} {f : α → Action β} (hx : x.IsReading st)
    (hf : ∀ a, (f a).IsReading st) : (x >>= f).IsReading st := by
  obtain ⟨r, k, hx⟩ := hx
  cases r with
  | ok a =>
    obtain ⟨r, m, hf⟩ := hf a
    refine ⟨r, k + m, fun s hs => ?_⟩
    rw [bind_apply, hx s hs]
    show f a { s with steps := s.steps + k } = _
    rw [hf { s with steps := s.steps + k } hs, Nat.add_assoc]
  | error e =>
    refine ⟨.error e, k, fun s hs => ?_⟩
    rw [bind_apply, hx s hs]
    rfl

/-- An action comes to a value after a reading of a value. -/
lemma of_bind_value {x : Action α} {f : α → Action β} (hx : x.IsReading st) {s t : State}
    (hs : s.store = st) {b : β} (h : (x >>= f) s = .value b t) :
    ∃ a k, x.Reads st (.ok a) k ∧ f a { s with steps := s.steps + k } = .value b t := by
  obtain ⟨r, k, hx⟩ := hx
  rw [bind_apply, hx s hs] at h
  cases r with
  | ok a => exact ⟨a, k, hx, h⟩
  | error e => cases h

lemma ite {p : Prop} [Decidable p] {x y : Action α} (hx : x.IsReading st) (hy : y.IsReading st) :
    (if p then x else y).IsReading st := by
  split
  · exact hx
  · exact hy

lemma blame {x : Action α} (hx : x.IsReading st) (span : Span) :
    (Action.blame span x).IsReading st := by
  obtain ⟨r, k, hx⟩ := hx
  refine ⟨r.mapError (·.blame span), k, fun s hs => ?_⟩
  unfold Action.blame
  rw [hx s hs]
  cases r <;> rfl

lemma refuse (fault : String → Fault) (v : Value) :
    IsReading (Evaluator.refuse fault v : Action α) st :=
  (read _).bind fun _ => raise _

lemma readKey (container key : Value) : (Evaluator.readKey container key).IsReading st := by
  unfold Evaluator.readKey
  split
  · exact read _
  · refine (read _).bind fun o => ?_
    cases o with
    | some v => exact pure v
    | none => exact (read _).bind fun _ => raise _
  · exact refuse _ _

end IsReading

end Action

open TreeWalk.Action (IsReading)

section

variable {σ : Setting} {c : ScopeRef} {e : Expr} (hlimit : σ.config.stepLimit = none)
include hlimit

/-- A simple expression only reads. -/
theorem Expr.Simple.isReading {st : Store} (hc : st.Rooted c) (he : e.Simple) :
    (σ.full.expr e c).IsReading st := by
  have hexpr (e : Expr) (h : (σ.full.evalKind c e.kind).IsReading st) :
      (σ.full.expr e c).IsReading st := by
    rw [Setting.full_expr, Evaluator.evalExpr, hlimit]
    exact (IsReading.bind .tick fun _ => h).blame e.span
  induction he with
  | nil span => exact hexpr _ (.pure _)
  | bool span b => exact hexpr _ (.pure _)
  | number span n => exact hexpr _ (.pure _)
  | string span s => exact hexpr _ (.pure _)
  | identifier span name => exact hexpr _ (.lookup hc name)
  | index span _ _ ihcontainer ihkey =>
    exact hexpr _ (ihcontainer.bind fun _ => ihkey.bind fun _ => .readKey _ _)
  | unary span op _ ih => exact hexpr _ (ih.bind fun _ => .ofExcept _)
  | binary span op _ _ ihleft ihright =>
    refine hexpr _ ?_
    cases op with
    | and => exact ihleft.bind fun _ => .ite (ihright.bind fun _ => .pure _) (.pure _)
    | or => exact ihleft.bind fun _ => .ite (.pure _) ihright
    | _ => exact ihleft.bind fun _ => ihright.bind fun _ => .ofExcept _
  | conditional span _ _ _ ihcondition ihtrue ihfalse =>
    exact hexpr _ (ihcondition.bind fun _ => .ite ihtrue ihfalse)
  | paren span _ ih => exact hexpr _ ih

end

/-! ### Writing -/

/-- From the state `s` the outcome is that `v` has been replaced by `w` at one place of the store,
or that nothing has changed and this has been refused. -/
def Outcome.Replaces (o : Outcome Unit) (s : State) (v w : Value) : Prop :=
  (∃ p st k, s.store.ChangedAt p v w st ∧
    o = .value () { s with store := st, steps := s.steps + k }) ∨
  ∃ e k, o = .error e { s with steps := s.steps + k }

namespace Outcome.Replaces

variable {o : Outcome Unit} {v w : Value} {s : State}

lemma changed {p : Place} {st : Store} (h : s.store.ChangedAt p v w st) :
    Outcome.Replaces (.value () { s with store := st }) s v w :=
  .inl ⟨p, st, 0, h, rfl⟩

lemma refuse (fault : String → Fault) (u : Value) :
    Outcome.Replaces (Evaluator.refuse fault u s) s v w :=
  .inr ⟨.ofFault (fault (s.store.text u)), 0, rfl⟩

lemma blame (h : o.Replaces s v w) (span : Span) : (o.blame span).Replaces s v w := by
  rcases h with ⟨p, st, k, hchanged, rfl⟩ | ⟨e, k, rfl⟩
  · exact .inl ⟨p, st, k, hchanged, rfl⟩
  · exact .inr ⟨e.blame span, k, rfl⟩

/-- What comes after a reading is done in the same store. -/
lemma of_reads {α : Type} {x : Action α} {f : α → Action Unit} {a : α} {k : Nat}
    (hx : x.Reads s.store (.ok a) k) (hf : (f a { s with steps := s.steps + k }).Replaces
      { s with steps := s.steps + k } v w) : ((x >>= f) s).Replaces s v w := by
  rw [Action.bind_apply, hx s rfl]
  rcases hf with ⟨p, st, m, hchanged, hfa⟩ | ⟨e, m, hfa⟩
  · exact .inl ⟨p, st, k + m, hchanged, hfa.trans (by rw [← Nat.add_assoc])⟩
  · exact .inr ⟨e, k + m, hfa.trans (by rw [← Nat.add_assoc])⟩

lemma of_bind {α : Type} {x : Action α} {f : α → Action Unit} (hx : x.IsReading s.store)
    (hf : ∀ a t, (f a t).Replaces t v w) : ((x >>= f) s).Replaces s v w := by
  obtain ⟨r, k, hx⟩ := hx
  cases r with
  | ok a => exact of_reads hx (hf a _)
  | error e =>
    rw [Action.bind_apply, hx s rfl]
    exact .inr ⟨e, k, rfl⟩

end Outcome.Replaces

section

variable {σ : Setting} {c : ScopeRef} {e : Expr}

lemma assignName_replaces {s : State} {name : String} {v : Value}
    (h : s.store.lookup c name = .found v) (w : Value) :
    (Evaluator.assignName c name w s).Replaces s v w := by
  obtain ⟨d, hd⟩ : ∃ d, s.store.search c name = .found (d, v) := by
    unfold Store.lookup at h
    split at h
    · next d u hsearch => exact ⟨d, by cases h; exact hsearch⟩
    · cases h
    · cases h
  rw [Evaluator.assignName, Action.bind_apply, Action.assign, hd]
  exact .changed (Store.changedAt_define (Store.symbols_of_search hd) w)

/-- A number that is read under a key is one that can be written there. -/
lemma writeKey_replaces {s t u : State} {container key : Value} {n : Int64}
    (h : Evaluator.readKey container key s = .value (.number n) t) (hs : s.store = u.store)
    (w : Value) : container.isContainer = true ∧
      (Evaluator.writeKey container key w u).Replaces u (.number n) w := by
  unfold Evaluator.readKey at h
  split at h
  · next r k =>
    have hentry : u.store.entry r k = .number n := hs ▸ (Outcome.value.inj h).1
    have hfound : (u.store.object r)[k]? = some (.number n) := by
      rw [Store.entry, Std.TreeMap.getD_eq_getD_getElem?] at hentry
      cases hget : (u.store.object r)[k]? with
      | some v => rw [hget] at hentry; exact congrArg some hentry
      | none => rw [hget] at hentry; cases hentry
    exact ⟨rfl, .changed (Store.changedAt_setEntry hfound w)⟩
  · next r i =>
    refine ⟨rfl, ?_⟩
    rw [Action.bind_apply, Action.read, hs] at h
    cases hposition : Store.position? i (u.store.array r).size with
    | some k =>
      have helement : u.store.element? r i = some ((u.store.array r).getD k .nil) := by
        simp [Store.element?, hposition]
      rw [helement] at h
      have hn : (u.store.array r).getD k .nil = .number n := (Outcome.value.inj h).1
      have hwrite : Evaluator.writeKey (.array r) (.number i) w u =
          .value () { u with store := u.store.setElement r i w } := by
        simp [Evaluator.writeKey, Store.hasElement, hposition]
      rw [hwrite, ← hn]
      exact .changed (Store.changedAt_setElement hposition w)
    | none =>
      have helement : u.store.element? r i = none := by simp [Store.element?, hposition]
      rw [helement] at h
      cases h
  · cases h

/-- Where the value of a simple expression is a number, an assignment to the expression replaces the
number, or is refused. -/
theorem Expr.Simple.assign (hlimit : σ.config.stepLimit = none) {s t u : State} {n : Int64}
    (hc : u.store.Rooted c) (he : e.Simple) (h : σ.full.expr e c s = .value (.number n) t)
    (hs : s.store = u.store) (w : Value) :
    (σ.full.assign e w c u).Replaces u (.number n) w := by
  have hrefused (e : Expr) (he : e.Simple) : ((do
      Evaluator.refuse .notAssignable (← σ.full.expr e c) : Action Unit) u).Replaces u
        (.number n) w :=
    .of_bind (he.isReading hlimit hc) fun v _ => .refuse _ v
  -- where the value came from, the evaluation of the kind has it
  have hkind {e : Expr} {s : State} (h : σ.full.expr e c s = .value (.number n) t) :
      σ.full.evalKind c e.kind s.ticked = .value (.number n) t := by
    rw [Setting.full_expr_apply (Setting.mayStep_of_none hlimit s)] at h
    cases ho : σ.full.evalKind c e.kind s.ticked <;> rw [ho] at h <;> cases h
    rfl
  rw [Setting.full_assign_apply]
  refine .blame ?_ _
  induction he generalizing s with
  | identifier span name =>
    refine assignName_replaces ?_ w
    have hlookup : Action.lookup c name s.ticked = .value (.number n) t := hkind h
    have hstore : s.ticked.store = u.store := hs
    unfold Action.lookup at hlookup
    rw [hstore] at hlookup
    cases hfound : u.store.lookup c name <;> rw [hfound] at hlookup <;> cases hlookup
    rfl
  | @index span container key hcontainer hkey =>
    -- the second walk comes to the container and the key that the first one came to
    have hindex : σ.full.evalIndex c container key s.ticked = .value (.number n) t := hkind h
    obtain ⟨x, k, hx, hindex⟩ :=
      (hcontainer.isReading hlimit hc).of_bind_value (s := s.ticked) hs hindex
    obtain ⟨y, m, hy, hread⟩ := (hkey.isReading hlimit hc).of_bind_value
      (s := { s.ticked with steps := s.ticked.steps + k }) hs hindex
    have hwrite := writeKey_replaces (u := { u with steps := u.steps + k + m }) hread hs w
    refine .of_reads hx ?_
    rw [if_pos hwrite.1]
    exact .of_reads hy hwrite.2
  | @paren span inner hinner ih =>
    show (σ.full.assign inner w c u).Replaces u (.number n) w
    rw [Setting.full_assign_apply]
    exact (ih (hkind h) hs).blame inner.span
  | _ => exact hrefused _ (by constructor <;> assumption)

/-- A step of a number writes the next one to the operand. -/
lemma Evaluator.evalStep_number {ev : Evaluator} {c : ScopeRef} {s t : State} {e : Expr} {n : Int64}
    (h : ev.expr e c s = .value (.number n) t) (op : StepOp)
    (before : Bool) :
    ev.evalStep c op before e s = (ev.assign e (.number (op.apply n)) c t).answer
      (.number (if before then op.apply n else n)) := by
  rw [evalStep, Action.bind_apply, h]
  show (ev.assign e (.number (op.apply n)) c >>= fun _ => pure _) t = _
  rw [Action.bind_apply]
  cases ev.assign e (.number (op.apply n)) c t <;> rfl

/-- A step of a simple operand replaces the number that was read, or fails and changes nothing. -/
lemma Expr.Simple.evalStep (hlimit : σ.config.stepLimit = none) {s : State}
    (hc : s.store.Rooted c) (he : e.Simple) (op : StepOp) (before : Bool) :
    (∃ p n t st k, σ.full.expr e c s = .value (.number n) t ∧
      s.store.ChangedAt p (.number n) (.number (op.apply n)) st ∧
      σ.full.evalStep c op before e s =
        .value (.number (if before then op.apply n else n))
          { s with store := st, steps := s.steps + k }) ∨
    ∃ err k, σ.full.evalStep c op before e s = .error err { s with steps := s.steps + k } := by
  obtain ⟨r, k, hr⟩ := he.isReading hlimit hc
  have hrs := hr s rfl
  cases r with
  | error err => exact .inr ⟨err, k, by rw [Evaluator.evalStep, Action.bind_apply, hrs]; rfl⟩
  | ok v =>
    cases v with
    | number n =>
      have hassign := he.assign hlimit (u := { s with steps := s.steps + k }) hc hrs rfl
        (.number (op.apply n))
      rw [Evaluator.evalStep_number hrs]
      rcases hassign with ⟨p, st, m, hchanged, hvalue⟩ | ⟨err, m, herror⟩
      · refine .inl ⟨p, n, _, st, k + m, hrs, hchanged, ?_⟩
        rw [hvalue, ← Nat.add_assoc]
        rfl
      · refine .inr ⟨err, k + m, ?_⟩
        rw [herror, ← Nat.add_assoc]
        rfl
    | _ => exact .inr ⟨_, k, by rw [Evaluator.evalStep, Action.bind_apply, hrs]; rfl⟩

end

open Interpreter in
/-- The evaluation of a simple expression comes to one end, whenever it is begun, and changes
nothing but the number of steps, always by as many.  To step it in place changes one place of the
store, which held the number that was read and holds the next one then; if the step fails, it
changes nothing. -/
theorem step_simple (i : Interpreter) (st : Store) (c : ScopeRef) (e : Expr) (he : e.Simple)
    (hlimit : i.config.stepLimit = none) (hc : st.Rooted c) :
    (∃ r k, ∀ depth steps, Ends { i with depth, steps } st (fun ev => ev.expr e c)
      (.ofExcept r { store := st, depth, steps := steps + k })) ∧
    ∀ (span : Span) (op : StepOp) (before : Bool),
      (∃ o, i.Ends st (fun ev => ev.expr ⟨span, .step op before e⟩ c) o) ∧
      (∀ v s, i.Ends st (fun ev => ev.expr ⟨span, .step op before e⟩ c) (.value v s) →
        ∃ p n t, i.ticked.Ends st (fun ev => ev.expr e c) (.value (.number n) t) ∧
          st.ChangedAt p (.number n) (.number (op.apply n)) s.store ∧
          v = .number (if before then op.apply n else n)) ∧
      ∀ err s, i.Ends st (fun ev => ev.expr ⟨span, .step op before e⟩ c) (.error err s) →
        s.store = st := by
  constructor
  · obtain ⟨r, k, hr⟩ := he.isReading (σ := i.toSetting) hlimit hc
    refine ⟨r, k, fun depth steps => ends_expr_iff.mpr ⟨?_, hr _ rfl⟩⟩
    cases r <;> simp [Outcome.ofExcept]
  · intro span op before
    have hends (o : Outcome Value) : i.Ends st (fun ev => ev.expr ⟨span, .step op before e⟩ c) o ↔
        o ≠ .unfinished ∧ (i.full.evalStep c op before e (i.ticked.start st)).blame span = o :=
      ends_expr_iff_evalKind (Setting.mayStep_of_none hlimit _)
    rcases he.evalStep hlimit (s := i.ticked.start st) hc op before with
      ⟨p, n, t, st', k, hread, hchanged, hstep⟩ | ⟨err, k, hstep⟩
    · rw [hstep] at hends
      refine ⟨⟨_, (hends _).mpr ⟨by simp [Outcome.blame], rfl⟩⟩, fun v s h => ?_, fun err s h => ?_⟩
      · cases ((hends _).mp h).2
        exact ⟨p, n, t, ends_expr_iff.mpr ⟨by simp, hread⟩, hchanged, rfl⟩
      · cases ((hends _).mp h).2
    · rw [hstep] at hends
      refine ⟨⟨_, (hends _).mpr ⟨by simp [Outcome.blame], rfl⟩⟩, fun v s h => ?_, fun err s h => ?_⟩
      · cases ((hends _).mp h).2
      · cases ((hends _).mp h).2
        rfl

open Interpreter in
/-- With one and five in an array `a`, `a[a[0]]++` makes the five a six. -/
theorem step_simple_nested :
    let a : Expr := .synthetic (.identifier "a")
    let e : Expr := .synthetic (.index a (.synthetic (.index a (.synthetic (.number 0)))))
    let i := (Interpreter.create {} {}).1
    let st := ((Interpreter.create {} {}).2.newArray #[.number 1, .number 5]).2.define i.globals "a"
      (.array ⟨0⟩)
    e.Simple ∧ i.config.stepLimit = none ∧ st.Rooted i.globals ∧
      ∃ s, i.Ends st (fun ev => ev.expr (.synthetic (.step .increment false e)) i.globals)
          (.value (.number 5) s) ∧
        st.ChangedAt (.element ⟨0⟩ 1) (.number 5) (.number 6) s.store := by
  intro a e i st
  have he : e.Simple :=
    .index _ (.identifier _ "a") (.index _ (.identifier _ "a") (.number _ 0))
  have hc : st.Rooted i.globals := ⟨0, .root (by decide +kernel)⟩
  obtain ⟨v, s, hends, hv⟩ := Ends.of_passes i st
    (fun ev => ev.expr (.synthetic (.step .increment false e)) i.globals)
    (fun v s => decide (v = .number 5 ∧ s.store.at? (.element ⟨0⟩ 1) = some (.number 6))) 6
    (by decide +kernel)
  obtain ⟨rfl, hsix⟩ := of_decide_eq_true hv
  obtain ⟨p, n, t, -, hchanged, hn⟩ :=
    ((step_simple i st i.globals e he rfl hc).2 .synthetic .increment false).2.1 _ _ hends
  have hn' : n = 5 := (Value.number.inj hn).symm
  subst hn'
  refine ⟨he, rfl, hc, s, hends, ?_⟩
  by_cases hp : p = .element ⟨0⟩ 1
  · exact hp ▸ hchanged
  · have hsame := hchanged.others (.element ⟨0⟩ 1) (Ne.symm hp)
    rw [hsix] at hsame
    exact absurd hsame (by decide +kernel)

end TreeWalk
