/-
# Relations that evaluation passes on

A relation between actions is compatible with evaluation if it passes from the parts of an action to
the whole, and relates every elementary action to itself.  If the parts of two evaluators are so
related (`Compatible.Related`), then so is everything that one level makes of them: the kinds of
expressions and of statements, lists of statements and programs, and the calls of functions.
Nothing is asked of the stores.
-/
import TreeWalk.Proofs.OnStore

namespace TreeWalk

/-- A relation between actions that evaluation passes on. -/
structure Compatible where
  /-- The relation. -/
  Rel : {α : Type} → Action α → Action α → Prop
  elementary {α : Type} {x : Action α} : x.Elementary → Rel x x
  /-- What has not come to an end is related to all that it may come to. -/
  unfinished {α : Type} (y : Action α) : Rel Action.unfinished y
  bind {α β : Type} {x y : Action α} {f g : α → Action β} :
    Rel x y → (∀ a, Rel (f a) (g a)) → Rel (x >>= f) (y >>= g)
  blame {α : Type} {x y : Action α} (span : Span) :
    Rel x y → Rel (Action.blame span x) (Action.blame span y)
  tick (limit : Option UInt64) : Rel (Action.tick limit) (Action.tick limit)
  callDepth : Rel Action.callDepth Action.callDepth
  nested {α : Type} {x y : Action α} : Rel x y → Rel (Action.nested x) (Action.nested y)

namespace Compatible

variable (C : Compatible)

lemma pure {α : Type} (a : α) : C.Rel (Pure.pure a) (Pure.pure a) := C.elementary (.pure a)

lemma ite {α : Type} {p : Prop} [Decidable p] {x y x' y' : Action α} (h : C.Rel x y)
    (h' : C.Rel x' y') : C.Rel (if p then x else x') (if p then y else y') := by
  split
  · exact h
  · exact h'

/-- What follows an action is elementary. -/
lemma andThen {α β : Type} {x y : Action α} {f : α → Action β} (h : C.Rel x y)
    (hf : ∀ a, (f a).Elementary) : C.Rel (x >>= f) (y >>= f) :=
  C.bind h fun a => C.elementary (hf a)

/-- A call is related if what it enters, in a scope of its own, is. -/
lemma enter (max : UInt64) {x y : ScopeRef → Action Value} (hxy : ∀ c, C.Rel (x c) (y c)) :
    C.Rel (do
        if max.toNat ≤ (← Action.callDepth) then
          Action.raise (.callDepth max)
        else
          Action.nested do x (← Action.create fun st => st.newScope none))
      (do
        if max.toNat ≤ (← Action.callDepth) then
          Action.raise (.callDepth max)
        else
          Action.nested do y (← Action.create fun st => st.newScope none)) :=
  C.bind C.callDepth fun _ => C.ite (C.elementary (.raise _)) <|
    C.nested (C.bind (C.elementary (.newScope _)) hxy)

/-- Every part of `ev` is related to that of `ev'`. -/
structure Related (C : Compatible) (ev ev' : Evaluator) : Prop where
  rounds : ev.rounds ≤ ev'.rounds
  tick : C.Rel ev.tick ev'.tick
  expr : ∀ e c, C.Rel (ev.expr e c) (ev'.expr e c)
  assign : ∀ target v c, C.Rel (ev.assign target v c) (ev'.assign target v c)
  stmt : ∀ s c, C.Rel (ev.stmt s c) (ev'.stmt s c)
  invoke : ∀ f args, C.Rel (ev.invoke f args) (ev'.invoke f args)

namespace Related

variable {C} {ev ev' : Evaluator}

lemma of_stuck (ev : Evaluator) : C.Related Evaluator.stuck ev where
  rounds := Nat.zero_le _
  tick := C.unfinished _
  expr _ _ := C.unfinished _
  assign _ _ _ := C.unfinished _
  stmt _ _ := C.unfinished _
  invoke _ _ := C.unfinished _

variable (h : C.Related ev ev')
include h

/-! ### Expressions -/

lemma evalAll (c : ScopeRef) (es : List Expr) : C.Rel (ev.evalAll c es) (ev'.evalAll c es) := by
  unfold Evaluator.evalAll
  generalize (#[] : Array Value) = vs
  induction es generalizing vs with
  | nil => exact C.pure vs
  | cons e es ih => exact C.bind (C.andThen (h.expr e c) fun _ => .pure _) fun _ => ih _

lemma evalEntries (c : ScopeRef) (entries : List (String × Expr)) :
    C.Rel (ev.evalEntries c entries) (ev'.evalEntries c entries) := by
  unfold Evaluator.evalEntries
  generalize (∅ : Table) = t
  induction entries generalizing t with
  | nil => exact C.pure t
  | cons p ps ih => exact C.bind (C.andThen (h.expr p.2 c) fun _ => .pure _) fun _ => ih _

lemma evalIndex (c : ScopeRef) (container key : Expr) :
    C.Rel (ev.evalIndex c container key) (ev'.evalIndex c container key) :=
  C.bind (h.expr container c) fun _ => C.andThen (h.expr key c) fun _ => .readKey _ _

lemma assignIndex (c : ScopeRef) (container key : Expr) (v : Value) :
    C.Rel (ev.assignIndex c container key v) (ev'.assignIndex c container key v) :=
  C.bind (h.expr container c) fun _ =>
    C.ite (C.andThen (h.expr key c) fun _ => .writeKey _ _ v) (C.elementary (.refuse _ _))

lemma call (f : Value) (args : List Value) : C.Rel (ev.call f args) (ev'.call f args) :=
  C.ite (h.invoke f args) (C.elementary (.refuse _ f))

lemma evalCall (c : ScopeRef) (callee : Expr) (args : List Expr) :
    C.Rel (ev.evalCall c callee args) (ev'.evalCall c callee args) :=
  C.bind (h.expr callee c) fun v => C.bind (C.elementary (.resolve c v)) fun _ =>
    C.ite (C.bind (h.evalAll c args) fun _ => h.invoke _ _) (C.elementary (.refuse _ _))

lemma evalStep (c : ScopeRef) (op : StepOp) (before : Bool) (operand : Expr) :
    C.Rel (ev.evalStep c op before operand) (ev'.evalStep c op before operand) := by
  refine C.bind (h.expr operand c) fun v => ?_
  cases v with
  | number n => exact C.andThen (h.assign operand _ c) fun _ => .pure _
  | _ => exact C.elementary (.refuse _ _)

lemma evalBinary (c : ScopeRef) (left : Expr) (op : BinaryOp) (right : Expr) :
    C.Rel (ev.evalBinary c left op right) (ev'.evalBinary c left op right) := by
  cases op with
  | and =>
    exact C.bind (h.expr left c) fun _ =>
      C.ite (C.andThen (h.expr right c) fun _ => .pure _) (C.pure _)
  | or => exact C.bind (h.expr left c) fun l => C.ite (C.pure l) (h.expr right c)
  | _ =>
    exact C.bind (h.expr left c) fun _ => C.andThen (h.expr right c) fun _ => .ofExcept _

lemma evalConditional (c : ScopeRef) (condition whenTrue whenFalse : Expr) :
    C.Rel (ev.evalConditional c condition whenTrue whenFalse)
      (ev'.evalConditional c condition whenTrue whenFalse) :=
  C.bind (h.expr condition c) fun _ => C.ite (h.expr whenTrue c) (h.expr whenFalse c)

lemma evalKind (c : ScopeRef) (kind : ExprKind) :
    C.Rel (ev.evalKind c kind) (ev'.evalKind c kind) := by
  cases kind with
  | nil => exact C.pure _
  | bool b => exact C.pure _
  | number n => exact C.pure _
  | string s => exact C.pure _
  | object entries =>
    exact C.andThen (h.evalEntries c entries) fun t => .bind (.newObject t) fun _ => .pure _
  | array items =>
    exact C.andThen (h.evalAll c items) fun vs => .bind (.newArray vs) fun _ => .pure _
  | function literal => exact C.elementary (.makeFunction c literal)
  | identifier name => exact C.elementary (.lookup c name)
  | call callee args => exact h.evalCall c callee args
  | index container key => exact h.evalIndex c container key
  | new typeName args => exact C.elementary (.raise _)
  | unary op operand => exact C.andThen (h.expr operand c) fun _ => .ofExcept _
  | step op before operand => exact h.evalStep c op before operand
  | binary left op right => exact h.evalBinary c left op right
  | conditional condition whenTrue whenFalse =>
    exact h.evalConditional c condition whenTrue whenFalse
  | assign target value =>
    exact C.bind (h.expr value c) fun v => C.andThen (h.assign target v c) fun _ => .pure v
  | paren inner => exact h.expr inner c

lemma assignTarget (c : ScopeRef) (target : Expr) (v : Value) :
    C.Rel (ev.assignTarget c target v) (ev'.assignTarget c target v) := by
  unfold Evaluator.assignTarget
  split
  · exact C.elementary (.assignName c _ v)
  · exact h.assignIndex c _ _ v
  · exact h.assign _ v c
  · exact C.andThen (h.expr target c) fun _ => .refuse _ _

/-! ### Statements -/

lemma execAll (c : ScopeRef) (body : List Stmt) :
    C.Rel (ev.execAll c body) (ev'.execAll c body) := by
  induction body with
  | nil => exact C.pure _
  | cons s rest ih =>
    refine C.bind (h.stmt s c) fun flow => ?_
    cases flow with
    | next => exact ih
    | leave => exact C.pure _
    | ret v => exact C.pure _

lemma execBlock (c : ScopeRef) (body : List Stmt) :
    C.Rel (ev.execBlock c body) (ev'.execBlock c body) :=
  C.bind (C.elementary (.newScope _)) fun d => h.execAll d body

lemma evalOption (c : ScopeRef) (e : Option Expr) :
    C.Rel (ev.evalOption c e) (ev'.evalOption c e) := by
  cases e with
  | some e => exact h.expr e c
  | none => exact C.pure _

lemma holds (c : ScopeRef) (e : Option Expr) : C.Rel (ev.holds c e) (ev'.holds c e) := by
  cases e with
  | some e => exact C.andThen (h.expr e c) fun _ => .pure _
  | none => exact C.pure _

lemma execRounds (c : ScopeRef) (condition update : Option Expr) (body : List Stmt) {n m : Nat}
    (hnm : n ≤ m) : C.Rel (ev.execRounds c condition update body n)
      (ev'.execRounds c condition update body m) := by
  -- the second loop may have rounds left where the first one has none
  induction n generalizing m with
  | zero => exact C.unfinished _
  | succ n ih =>
    obtain ⟨m, rfl⟩ : ∃ k, m = k + 1 := ⟨m - 1, by omega⟩
    refine C.bind h.tick fun _ => C.bind (h.holds c condition) fun _ => C.ite ?_ (C.pure _)
    refine C.bind (h.execBlock c body) fun flow => ?_
    cases flow with
    | next => exact C.bind (h.evalOption c update) fun _ => ih (by omega)
    | leave => exact C.pure _
    | ret v => exact C.pure _

lemma execLoop (c : ScopeRef) (init : Option Stmt) (condition update : Option Expr)
    (body : List Stmt) : C.Rel (ev.execLoop c init condition update body)
      (ev'.execLoop c init condition update body) := by
  cases init with
  | none => exact h.execRounds c condition update body h.rounds
  | some s =>
    refine C.bind (h.stmt s c) fun flow => ?_
    cases flow with
    | next => exact h.execRounds c condition update body h.rounds
    | leave => exact C.pure _
    | ret v => exact C.pure _

lemma firstMatch (c : ScopeRef) (subject : Value) (cases : List Case) :
    C.Rel (ev.firstMatch c subject cases) (ev'.firstMatch c subject cases) := by
  induction cases with
  | nil => exact C.pure _
  | cons k rest ih =>
    obtain ⟨test, body⟩ := k
    cases test with
    | none => exact ih
    | some test => exact C.bind (h.expr test c) fun _ => C.ite (C.pure _) ih

lemma execCase (c : ScopeRef) (body : Option (List Stmt)) :
    C.Rel (ev.execCase c body) (ev'.execCase c body) := by
  cases body with
  | none => exact C.pure _
  | some body =>
    refine C.andThen (h.execBlock c body) fun flow => ?_
    cases flow <;> exact .pure _

lemma execSwitch (c : ScopeRef) (subject : Expr) (cases : List Case) :
    C.Rel (ev.execSwitch c subject cases) (ev'.execSwitch c subject cases) := by
  refine C.bind (h.expr subject c) fun v => C.bind (h.firstMatch c v cases) fun body => ?_
  cases body with
  | some body => exact h.execCase c (some body)
  | none => exact h.execCase c _

lemma execBranch (c : ScopeRef) (condition : Expr) (whenTrue : Stmt) (whenFalse : Option Stmt) :
    C.Rel (ev.execBranch c condition whenTrue whenFalse)
      (ev'.execBranch c condition whenTrue whenFalse) := by
  refine C.bind (h.expr condition c) fun _ => C.ite (h.stmt whenTrue c) ?_
  cases whenFalse with
  | some s => exact h.stmt s c
  | none => exact C.pure _

lemma execKind (c : ScopeRef) (kind : StmtKind) :
    C.Rel (ev.execKind c kind) (ev'.execKind c kind) := by
  cases kind with
  | empty => exact C.pure _
  | declare name value =>
    exact C.andThen (h.evalOption c value) fun v => .bind (.define c name v) fun _ => .pure _
  | function literal => exact C.andThen (C.elementary (.makeFunction c literal)) fun _ => .pure _
  | ret value => exact C.andThen (h.evalOption c value) fun _ => .pure _
  | block body => exact h.execBlock c body
  | expr e => exact C.andThen (h.expr e c) fun _ => .pure _
  | loop init condition update body =>
    exact C.bind (C.elementary (.newScope _)) fun d => h.execLoop d init condition update body
  | leave => exact C.pure _
  | branch condition whenTrue whenFalse => exact h.execBranch c condition whenTrue whenFalse
  | switch subject cases => exact h.execSwitch c subject cases

lemma runFrom (c : ScopeRef) (last : Value) (program : List Stmt) :
    C.Rel (ev.runFrom c last program) (ev'.runFrom c last program) := by
  induction program generalizing last with
  | nil => exact C.pure last
  | cons s rest ih =>
    unfold Evaluator.runFrom
    split
    · exact C.bind h.tick fun _ => C.bind (h.expr _ c) fun v => ih v
    · refine C.bind (h.stmt s c) fun flow => ?_
      cases flow with
      | next => exact ih last
      | leave => exact C.elementary (.blame (.raise _) _)
      | ret v => exact C.pure v

/-! ### Calls -/

lemma runClosure (policy : ArityPolicy) (f : Closure) (c : ScopeRef) (args : List Value) :
    C.Rel (ev.runClosure policy f c args) (ev'.runClosure policy f c args) := by
  refine C.bind (C.elementary (.setParent _ _)) fun _ =>
    C.bind (C.elementary (.bindArguments _ f c args)) fun _ => C.andThen (h.execAll c f.literal.body) fun flow => ?_
  cases flow with
  | next => exact .pure _
  | leave => exact .raise _
  | ret v => exact .pure v

/-! ### Levels -/

lemma evalExpr (σ : Setting) (e : Expr) (c : ScopeRef) :
    C.Rel (ev.evalExpr σ e c) (ev'.evalExpr σ e c) :=
  C.blame e.span (C.bind (C.tick _) fun _ => h.evalKind c e.kind)

lemma assignExpr (target : Expr) (v : Value) (c : ScopeRef) :
    C.Rel (ev.assignExpr target v c) (ev'.assignExpr target v c) :=
  C.blame target.span (h.assignTarget c target v)

lemma execStmt (σ : Setting) (s : Stmt) (c : ScopeRef) :
    C.Rel (ev.execStmt σ s c) (ev'.execStmt σ s c) :=
  C.blame s.span (C.bind (C.tick _) fun _ => h.execKind c s.kind)

end Related

end Compatible

end TreeWalk
