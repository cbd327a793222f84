/-
# What is rejected has no effect of its own

Calls and assignments are checked at several points of their evaluation: what is called is looked at
before the arguments, the depth and the number of arguments after them, a container before its key.
A check that fails ends the evaluation right there, in the state in which the parts before it have
left it (`rejected_leaves_state`), whatever stands behind it.
-/
import TreeWalk.Proofs.CallFrames
import TreeWalk.Proofs.TopLevel
import TreeWalk.Proofs.Unbounded

namespace TreeWalk

/-- The outcome is a failure with the given fault, in the given state. -/
inductive Outcome.FailsWith {α : Type} (fault : Fault) (s : State) : Outcome α → Prop
  | intro {e : EvalError} (h : e.fault = fault) : FailsWith fault s (.error e s)

/-- The expression is of the given kind, in any number of parentheses. -/
inductive Expr.Encloses (kind : ExprKind) : Expr → Prop
  | bare (span : Span) : Encloses kind ⟨span, kind⟩
  | paren (span : Span) {inner : Expr} (h : Encloses kind inner) :
      Encloses kind ⟨span, .paren inner⟩

namespace Outcome.FailsWith

variable {α β : Type} {fault : Fault} {s t : State} {o : Outcome α}

lemma blame (h : o.FailsWith fault s) (span : Span) : (o.blame span).FailsWith fault s := by
  obtain ⟨h⟩ := h
  exact ⟨(EvalError.fault_blame _ _).trans h⟩

lemma bind {x : Action α} (h : (x s).FailsWith fault t) (f : α → Action β) :
    ((x >>= f) s).FailsWith fault t := by
  rw [Action.bind_apply]
  generalize x s = o at h ⊢
  obtain ⟨h⟩ := h
  exact ⟨h⟩

lemma nested {x : Action α} (h : (x { s with depth := s.depth + 1 }).FailsWith fault t) :
    (Action.nested x s).FailsWith fault { t with depth := t.depth - 1 } := by
  rw [Action.nested_apply]
  generalize x { s with depth := s.depth + 1 } = o at h ⊢
  obtain ⟨h⟩ := h
  exact ⟨h⟩

lemma exists_error (h : o.FailsWith fault s) :
    ∃ e, e.fault = fault ∧ o ≠ .unfinished ∧ o = .error e s := by
  obtain ⟨h⟩ := h
  exact ⟨_, h, by simp, rfl⟩

end Outcome.FailsWith

namespace Evaluator

open Outcome (FailsWith)

variable {ev : Evaluator} {c : ScopeRef} {s t u : State} {v w k : Value}

lemma refuse_failsWith {α : Type} (fault : String → Fault) (v : Value) (s : State) :
    (refuse fault v s : Outcome α).FailsWith (fault (s.store.text v)) s := ⟨rfl⟩

/-! ### Calls -/

section

variable {callee : Expr} {f : Value} (hcallee : ev.expr callee c s = .value v t)
  (hf : resolve c v t = .value f t)
include hcallee hf

/-- What cannot be called is refused before the arguments. -/
lemma evalCall_failsWith (hcall : f.isCallable = false) (args : List Expr) :
    (ev.evalCall c callee args s).FailsWith (.notCallable (t.store.text f)) t := by
  rw [evalCall, Action.bind_apply, hcallee]
  show ((resolve c v >>= _) t).FailsWith _ _
  rw [Action.bind_apply, hf]
  simp only [hcall]
  exact refuse_failsWith _ f t

/-- What can be called is called with the values of the arguments. -/
lemma evalCall_apply (hcall : f.isCallable = true) {args : List Expr} {vs : Array Value}
    (hargs : ev.evalAll c args t = .value vs u) :
    ev.evalCall c callee args s = ev.invoke f vs.toList u := by
  rw [evalCall, Action.bind_apply, hcallee]
  show (resolve c v >>= _) t = _
  rw [Action.bind_apply, hf]
  simp only [hcall, if_true]
  rw [Action.bind_apply, hargs]

end

/-- Without a binding there is nothing to call. -/
lemma evalCall_unbound {callee : Expr} {name : String}
    (hcallee : ev.expr callee c s = .value (.variable name) t)
    (hname : t.store.lookup c name = .unbound) (args : List Expr) :
    (ev.evalCall c callee args s).FailsWith (.unbound name) t := by
  rw [evalCall, Action.bind_apply, hcallee]
  refine FailsWith.bind (x := Action.lookup c name) ?_ _
  rw [Action.lookup, hname]
  exact ⟨rfl⟩

/-- A call that is too deep is refused before anything is made for it. -/
lemma enter_failsWith_callDepth {σ : Setting} (h : σ.config.maxCallDepth.toNat ≤ s.depth)
    (f : Value) (args : List Value) :
    (ev.enter σ f args s).FailsWith (.callDepth σ.config.maxCallDepth) s := by
  rw [enter_eq_limited, Action.limited_apply, if_pos h]
  exact ⟨rfl⟩

/-- A call with a wrong number of arguments is refused when the scope for it has been made and
nothing has been bound there. -/
lemma enter_failsWith_argumentCount {σ : Setting} (hdepth : s.depth < σ.config.maxCallDepth.toNat)
    (hstrict : σ.config.arity = .strict) (r : FunctionRef) (args : List Value)
    (hargs : (s.store.closure r).arity ≠ args.length) :
    (ev.enter σ (.function r) args s).FailsWith
      (.argumentCount (s.store.closure r).text (s.store.closure r).arity args.length)
      { s with store := (s.store.newScope (some (s.store.closure r).env)).2 } := by
  rw [enter_refused _ _ _ _ _ hstrict hargs, Action.limited_apply, if_neg (by omega)]
  exact FailsWith.nested (t := ⟨(s.store.newScope (some (s.store.closure r).env)).2, s.depth + 1,
    s.steps⟩) ⟨rfl⟩

/-! ### Writes -/

lemma assignName_failsWith {name : String} (hname : s.store.search c name = .unbound) (v : Value) :
    (assignName c name v s).FailsWith (.unbound name) s := by
  rw [assignName, Action.bind_apply, Action.assign, hname]
  exact ⟨rfl⟩

section

variable {container key : Expr} (hcontainer : ev.expr container c s = .value w t)
include hcontainer

/-- What is no container is refused before the key. -/
lemma assignIndex_failsWith (hw : w.isContainer = false) (v : Value) :
    (ev.assignIndex c container key v s).FailsWith (.notAssignable (t.store.text w)) t := by
  rw [assignIndex, Action.bind_apply, hcontainer]
  simp only [hw]
  exact refuse_failsWith _ w t

lemma assignIndex_apply (hw : w.isContainer = true) (hkey : ev.expr key c t = .value k u)
    (v : Value) : ev.assignIndex c container key v s = writeKey w k v u := by
  rw [assignIndex, Action.bind_apply, hcontainer]
  simp only [hw, if_true]
  rw [Action.bind_apply, hkey]

end

lemma writeKey_failsWith_badKey (hobject : ∀ r key, w = .object r → k ≠ .string key)
    (harray : ∀ r n, w = .array r → k ≠ .number n) (v : Value) (s : State) :
    (writeKey w k v s).FailsWith (.badKey (s.store.text k) k.typeName) s := by
  unfold writeKey
  split
  · exact absurd rfl (hobject _ _ rfl)
  · exact absurd rfl (harray _ _ rfl)
  · exact refuse_failsWith (fun shown => .badKey shown k.typeName) k s

lemma writeKey_failsWith_outOfRange {r : ArrayRef} {n : Int64}
    (hn : s.store.hasElement r n = false) (v : Value) :
    (writeKey (.array r) (.number n) v s).FailsWith (.outOfRange n (s.store.array r).size) s := by
  simp only [writeKey, hn]
  exact ⟨rfl⟩

end Evaluator

/-! ### Failures of expressions -/

namespace Setting

open Outcome (FailsWith)

variable {σ : Setting} {c : ScopeRef} {s t : State} {fault : Fault} {v : Value}

/-- A call fails if it is refused before anything below it is evaluated. -/
lemma full_invoke_failsWith {f : Value} {args : List Value}
    (h : (Evaluator.stuck.enter σ f args s).FailsWith fault t) :
    (σ.full.invoke f args s).FailsWith fault t := by
  obtain ⟨e, -, hne, -⟩ := h.exists_error
  rw [full_invoke_apply hne]
  exact h

/-- Parentheses around a target make no difference to how it is refused. -/
lemma full_assign_failsWith {kind : ExprKind} {target : Expr} (h : target.Encloses kind)
    (hkind : ∀ span, (σ.full.assignTarget c ⟨span, kind⟩ v s).FailsWith fault t) :
    (σ.full.assign target v c s).FailsWith fault t := by
  induction h with
  | bare span =>
    rw [full_assign_apply]
    exact (hkind span).blame span
  | paren span h ih =>
    rw [full_assign_apply]
    exact ih.blame span

/-- An assignment fails with the writing. -/
lemma evalAssign_failsWith {target value : Expr} (hvalue : σ.full.expr value c s = .value v t)
    {u : State} (htarget : (σ.full.assign target v c t).FailsWith fault u) :
    (σ.full.evalAssign c target value s).FailsWith fault u := by
  rw [Evaluator.evalAssign, Action.bind_apply, hvalue]
  exact htarget.bind _

end Setting

namespace Interpreter

open Evaluator Outcome

/-- The evaluation of the expression fails with the fault, in the state `s`. -/
def FailsWith (i : Interpreter) (st : Store) (e : Expr) (c : ScopeRef) (fault : Fault)
    (s : State) : Prop :=
  ∃ err, err.fault = fault ∧ i.Ends st (fun ev => ev.expr e c) (.error err s)

variable {i : Interpreter} {st : Store} {c : ScopeRef} {v : Value} {t : State}

lemma full_of_ends_expr {e : Expr} (h : i.Ends st (fun ev => ev.expr e c) (.value v t)) :
    i.toSetting.full.expr e c (i.start st) = .value v t :=
  (ends_expr_iff.mp h).2

lemma full_of_ends_evalAll {args : List Expr} {vs : Array Value}
    (h : i.Ends st (fun ev => ev.evalAll c args) (.value vs t)) :
    i.toSetting.full.evalAll c args (i.start st) = .value vs t :=
  ((ends_iff (i.toSetting.level_comeTo.evalAll c args)).mp h).2

variable (hbudget : i.MayStep (i.start st))
include hbudget

/-- An expression fails with what is done for it after its step. -/
lemma failsWith_of_evalKind {e : Expr} {fault : Fault} {s : State}
    (h : (i.toSetting.full.evalKind c e.kind (i.ticked.start st)).FailsWith fault s) :
    i.FailsWith st e c fault s := by
  obtain ⟨err, hfault, -, herr⟩ := (h.blame e.span).exists_error
  exact ⟨err, hfault, (ends_expr_iff_evalKind hbudget).mpr ⟨by simp, herr⟩⟩

lemma failsWith_assign {span : Span} {target value : Expr} {kind : ExprKind}
    (htarget : target.Encloses kind)
    (hvalue : i.ticked.Ends st (fun ev => ev.expr value c) (.value v t)) {fault : Fault}
    {s : State}
    (h : ∀ span, (i.toSetting.full.assignTarget c ⟨span, kind⟩ v t).FailsWith fault s) :
    i.FailsWith st ⟨span, .assign target value⟩ c fault s :=
  failsWith_of_evalKind hbudget <|
    Setting.evalAssign_failsWith (full_of_ends_expr hvalue)
      (Setting.full_assign_failsWith htarget h)

section

variable {span : Span} {fault : Fault} {f w k : Value} {u s s' : State}

/-- A call of what can be called fails with the call of the value. -/
lemma failsWith_call {callee : Expr} {args : List Expr} {vs : Array Value}
    (hcallee : i.ticked.Ends st (fun ev => ev.expr callee c) (.value v t))
    (hf : Evaluator.resolve c v t = .value f t) (hcall : f.isCallable = true)
    (hargs : (i.after t).Ends t.store (fun ev => ev.evalAll c args) (.value vs u))
    (h : (stuck.enter i.toSetting f vs.toList u).FailsWith fault s) :
    i.FailsWith st ⟨span, .call callee args⟩ c fault s := by
  have hinvoke : i.toSetting.full.evalCall c callee args (i.ticked.start st) =
      i.toSetting.full.invoke f vs.toList u :=
    evalCall_apply (full_of_ends_expr hcallee) hf hcall (full_of_ends_evalAll hargs)
  refine failsWith_of_evalKind hbudget ?_
  show (i.toSetting.full.evalCall c callee args (i.ticked.start st)).FailsWith _ _
  rw [hinvoke]
  exact Setting.full_invoke_failsWith h

/-- A write into a container fails with the write under the key. -/
lemma failsWith_writeKey {target container key value : Expr}
    (htarget : target.Encloses (.index container key))
    (hvalue : i.ticked.Ends st (fun ev => ev.expr value c) (.value v t))
    (hcontainer : (i.after t).Ends t.store (fun ev => ev.expr container c) (.value w u))
    (hw : w.isContainer = true)
    (hkey : (i.after u).Ends u.store (fun ev => ev.expr key c) (.value k s))
    (h : (writeKey w k v s).FailsWith fault s') :
    i.FailsWith st ⟨span, .assign target value⟩ c fault s' := by
  refine failsWith_assign hbudget htarget hvalue fun span => ?_
  have hwrite : i.toSetting.full.assignTarget c ⟨span, .index container key⟩ v t =
      writeKey w k v s :=
    assignIndex_apply (full_of_ends_expr hcontainer) hw (full_of_ends_expr hkey) v
  rw [hwrite]
  exact h

end

end Interpreter

open Evaluator Interpreter in
/-- What is rejected leaves the state as the parts that have been evaluated before: a call of what
cannot be called as the callee does; a call that is too deep as the callee and the arguments do, and
one with a wrong number of arguments apart from an empty scope that has been made for it; an
assignment to a name that is not bound as the assigned value does, one to what is no container as
the assigned value and the container do, and one under a key that the container cannot have as these
two and the key do.  The parts are evaluated at all because the step before them is granted. -/
theorem rejected_leaves_state (i : Interpreter) (st : Store) (c : ScopeRef) (span : Span)
    (hbudget : i.MayStep (i.start st)) :
    (∀ callee args v f t, i.ticked.Ends st (fun ev => ev.expr callee c) (.value v t) →
      Evaluator.resolve c v t = .value f t → f.isCallable = false →
      i.FailsWith st ⟨span, .call callee args⟩ c (.notCallable (t.store.text f)) t) ∧
    (∀ callee args name t,
      i.ticked.Ends st (fun ev => ev.expr callee c) (.value (.variable name) t) →
      t.store.lookup c name = .unbound →
      i.FailsWith st ⟨span, .call callee args⟩ c (.unbound name) t) ∧
    (∀ callee args v f t vs u, i.ticked.Ends st (fun ev => ev.expr callee c) (.value v t) →
      Evaluator.resolve c v t = .value f t → f.isCallable = true →
      (i.after t).Ends t.store (fun ev => ev.evalAll c args) (.value vs u) →
      (i.config.maxCallDepth.toNat ≤ u.depth →
        i.FailsWith st ⟨span, .call callee args⟩ c (.callDepth i.config.maxCallDepth) u) ∧
      ∀ r, f = .function r → u.depth < i.config.maxCallDepth.toNat → i.config.arity = .strict →
        (u.store.closure r).arity ≠ vs.size →
        ∃ st', st' = (u.store.newScope (some (u.store.closure r).env)).2 ∧
          (∀ n, u.store.Has n → st'.Has n ∧ st'.cell n = u.store.cell n) ∧
          i.FailsWith st ⟨span, .call callee args⟩ c (.argumentCount (u.store.closure r).text
            (u.store.closure r).arity vs.size) { u with store := st' }) ∧
    (∀ target name value v t, target.Encloses (.identifier name) →
      i.ticked.Ends st (fun ev => ev.expr value c) (.value v t) →
      t.store.search c name = .unbound →
      i.FailsWith st ⟨span, .assign target value⟩ c (.unbound name) t) ∧
    (∀ target container key value v t w u, target.Encloses (.index container key) →
      i.ticked.Ends st (fun ev => ev.expr value c) (.value v t) →
      (i.after t).Ends t.store (fun ev => ev.expr container c) (.value w u) →
      w.isContainer = false →
      i.FailsWith st ⟨span, .assign target value⟩ c (.notAssignable (u.store.text w)) u) ∧
    ∀ target container key value v t w u k s, target.Encloses (.index container key) →
      i.ticked.Ends st (fun ev => ev.expr value c) (.value v t) →
      (i.after t).Ends t.store (fun ev => ev.expr container c) (.value w u) →
      w.isContainer = true →
      (i.after u).Ends u.store (fun ev => ev.expr key c) (.value k s) →
      ((∀ r key, w = .object r → k ≠ .string key) → (∀ r n, w = .array r → k ≠ .number n) →
        i.FailsWith st ⟨span, .assign target value⟩ c (.badKey (s.store.text k) k.typeName) s) ∧
      ∀ r n, w = .array r → k = .number n → s.store.hasElement r n = false →
        i.FailsWith st ⟨span, .assign target value⟩ c
          (.outOfRange n (s.store.array r).size) s := by
  refine ⟨fun callee args v f t hcallee hf hcall => ?_, fun callee args name t hcallee hname => ?_,
    fun callee args v f t vs u hcallee hf hcall hargs => ⟨fun hdepth => ?_, ?_⟩,
    fun target name value v t htarget hvalue hname => ?_,
    fun target container key value v t w u htarget hvalue hcontainer hw => ?_,
    fun target container key value v t w u k s htarget hvalue hcontainer hw hkey =>
      ⟨fun hobject harray => ?_, ?_⟩⟩
  · exact failsWith_of_evalKind hbudget
      (evalCall_failsWith (full_of_ends_expr hcallee) hf hcall args)
  · exact failsWith_of_evalKind hbudget
      (evalCall_unbound (full_of_ends_expr hcallee) hname args)
  · exact failsWith_call hbudget hcallee hf hcall hargs (enter_failsWith_callDepth hdepth f _)
  · rintro r rfl hdepth hstrict hcount
    have hnew := u.store.makes_newScope (some (u.store.closure r).env)
    refine ⟨_, rfl, fun n hn => ⟨(hnew.has n).mpr (.inl hn), ?_⟩, ?_⟩
    · exact hnew.cell_ne n fun heq => hnew.fresh (heq ▸ hn)
    · exact failsWith_call hbudget hcallee hf hcall hargs
        (enter_failsWith_argumentCount hdepth hstrict r vs.toList hcount)
  · exact failsWith_assign hbudget htarget hvalue fun _ => assignName_failsWith hname v
  · exact failsWith_assign hbudget htarget hvalue fun _ =>
      assignIndex_failsWith (full_of_ends_expr hcontainer) hw v
  · exact failsWith_writeKey hbudget htarget hvalue hcontainer hw hkey
      (writeKey_failsWith_badKey hobject harray v s)
  · rintro r n rfl rfl hn
    exact failsWith_writeKey hbudget htarget hvalue hcontainer hw hkey
      (writeKey_failsWith_outOfRange hn v)

open Evaluator Interpreter in
/-- A function with a parameter is called without arguments: the two steps are those of the call and
of the function literal, and the one scope is new. -/
theorem rejected_leaves_state_strict :
    let f : Expr := .synthetic (.function ⟨none, ["a"], []⟩)
    let i := (Interpreter.create { arity := .strict } {}).1
    let st := (Interpreter.create { arity := .strict } {}).2
    ∃ s, s.steps = 2 ∧ s.store.scopes.size = 2 ∧
      i.FailsWith st (.synthetic (.call f [])) i.globals (.argumentCount "<function>" 1 0) s := by
  intro f i st
  obtain ⟨v, t, hcallee, hv⟩ := Ends.of_passes i.ticked st (fun ev => ev.expr f i.globals)
    (fun v t => decide (v = .function ⟨0⟩ ∧ t.steps = 2 ∧ t.depth = 0 ∧ t.store.scopes.size = 1 ∧
      (t.store.closure ⟨0⟩).arity = 1 ∧ (t.store.closure ⟨0⟩).text = "<function>")) 3
      (by decide +kernel)
  obtain ⟨rfl, hsteps, hdepth, hsize, harity, htext⟩ := of_decide_eq_true hv
  have hargs : (i.after t).Ends t.store (fun ev => ev.evalAll i.globals []) (.value #[] t) :=
    ⟨by simp, 0, rfl⟩
  have hbudget : i.MayStep (i.start st) := Setting.mayStep_of_none rfl _
  have hcalls := (rejected_leaves_state i st i.globals .synthetic hbudget).2.2.1
  obtain ⟨st', hst', -, hfails⟩ := (hcalls f [] _ _ t #[] t hcallee rfl rfl hargs).2 ⟨0⟩ rfl
    (by rw [hdepth]; decide) rfl (by rw [harity]; decide)
  rw [harity, htext] at hfails
  refine ⟨{ t with store := st' }, hsteps, ?_, hfails⟩
  show st'.scopes.size = 2
  rw [hst', Store.newScope, Heap.size_push, hsize]

end TreeWalk
