/-
# Congruences and expressions

A congruence passes from the parts of an expression to the expression (`TreeCongruence.evalKind`),
and from the parts of a target to the writing to it (`TreeCongruence.assignTarget`).  The trees of the
settings may also differ, as long as they are of one form (`evalKind_map`, `assignTarget_map`).
-/
import TreeWalk.Proofs.Congruence
import TreeWalk.Proofs.Trees

namespace TreeWalk

namespace TreeCongruence

open Region

variable {R : Region} {ι : Type} (C : TreeCongruence R ι) {ev : ι → Evaluator}
variable {w : Store} {c : ScopeRef}

/-! ### Literals -/

lemma evalAll (es : List Expr) {f : ι → Expr → Expr}
    (h : ∀ e ∈ es, C.Holds w fun i => (ev i).expr (f i e) c) :
    C.Holds w fun i => (ev i).evalAll c (es.map (f i)) := by
  unfold Evaluator.evalAll
  have hvs : R.Inside w (#[] : Array Value) := fun v hv => by simp at hv
  -- the induction is on the expressions that are left, with what has been collected inside
  generalize (#[] : Array Value) = vs at hvs ⊢
  induction es generalizing w vs with
  | nil => exact C.leaf (.pure hvs)
  | cons e es ih =>
    have hstep : C.Holds w fun i => (do return vs.push (← (ev i).expr (f i e) c) : Action _) :=
      C.map (h e List.mem_cons_self) fun w' hw v hv => inside_push (hvs.mono hw) hv
    refine C.bind hstep fun w' hw vs' hvs' => ih (fun e' he' => ?_) vs' hvs'
    exact C.weaken (h e' (List.mem_cons_of_mem e he')) hw

lemma evalEntries (entries : List (String × Expr)) {f : ι → Expr → Expr}
    (h : ∀ p ∈ entries, C.Holds w fun i => (ev i).expr (f i p.2) c) :
    C.Holds w fun i => (ev i).evalEntries c (entries.map fun p => (p.1, f i p.2)) := by
  unfold Evaluator.evalEntries
  have ht : R.Inside w (∅ : Table) := fun k v hv => by simp at hv
  generalize (∅ : Table) = t at ht ⊢
  induction entries generalizing w t with
  | nil => exact C.leaf (.pure ht)
  | cons p ps ih =>
    have hstep : C.Holds w fun i =>
        (do return t.insert p.1 (← (ev i).expr (f i p.2) c) : Action _) :=
      C.map (h p List.mem_cons_self) fun w' hw v hv => inside_insert (ht.mono hw) hv
    refine C.bind hstep fun w' hw t' ht' => ih (fun q hq => ?_) t' ht'
    exact C.weaken (h q (List.mem_cons_of_mem p hq)) hw

lemma evalObject (entries : List (String × Expr)) {f : ι → Expr → Expr}
    (h : ∀ p ∈ entries, C.Holds w fun i => (ev i).expr (f i p.2) c) :
    C.Holds w fun i => (ev i).evalKind c (.object (entries.map fun p => (p.1, f i p.2))) := by
  refine C.bind (C.evalEntries entries h) fun w' hw t ht => ?_
  exact C.map (C.leaf (.newTable ht)) fun _ _ _ hr => inside_of_node? rfl hr

lemma evalArray (items : List Expr) {f : ι → Expr → Expr}
    (h : ∀ e ∈ items, C.Holds w fun i => (ev i).expr (f i e) c) :
    C.Holds w fun i => (ev i).evalKind c (.array (items.map (f i))) := by
  refine C.bind (C.evalAll items h) fun w' hw vs hvs => ?_
  exact C.map (C.leaf (.newArray hvs)) fun _ _ _ hr => inside_of_node? rfl hr

/-! ### Containers -/

lemma evalIndex {container key : ι → Expr}
    (hcontainer : C.Holds w fun i => (ev i).expr (container i) c)
    (hkey : C.Holds w fun i => (ev i).expr (key i) c) :
    C.Holds w fun i => (ev i).evalIndex c (container i) (key i) := by
  refine C.bind hcontainer fun w' hw v hv => ?_
  exact C.bind (C.weaken hkey hw) fun w'' hw' k hk => C.leaf (.readKey (hv.mono hw') hk)

lemma assignIndex {container key : ι → Expr}
    (hcontainer : C.Holds w fun i => (ev i).expr (container i) c)
    (hkey : C.Holds w fun i => (ev i).expr (key i) c) {v : Value} (hv : R.Inside w v) :
    C.Holds w fun i => (ev i).assignIndex c (container i) (key i) v := by
  refine C.bind hcontainer fun w' hw a ha => ?_
  cases a.isContainer with
  | true =>
    refine C.bind (C.weaken hkey hw) fun w'' hw' k hk => ?_
    exact C.leaf (.writeKey (ha.mono hw') hk (hv.mono (hw.trans hw')))
  | false => exact C.leaf (.refuse _ ha)

/-! ### Calls -/

/-- Only what can be called is. -/
lemma call {f : Value} {args : List Value} (hf : R.Inside w f)
    (h : f.isCallable = true → C.Holds w fun i => (ev i).invoke f args) :
    C.Holds w fun i => (ev i).call f args := by
  unfold Evaluator.call
  cases hcall : f.isCallable with
  | true => exact h hcall
  | false => exact C.leaf (.refuse _ hf)

lemma evalCall (hcalls : C.Calls ev) (hc : R.Inside w c) {callee : ι → Expr} (args : List Expr)
    {f : ι → Expr → Expr} (hcallee : C.Holds w fun i => (ev i).expr (callee i) c)
    (hargs : ∀ e ∈ args, C.Holds w fun i => (ev i).expr (f i e) c) :
    C.Holds w fun i => (ev i).evalCall c (callee i) (args.map (f i)) := by
  refine C.bind hcallee fun w₁ hw₁ v hv => ?_
  refine C.bind (C.leaf (.resolve (hc.mono hw₁) hv)) fun w₂ hw₂ f hf => ?_
  cases f.isCallable with
  | true =>
    have hargs₂ := C.evalAll args fun e he => C.weaken (hargs e he) (hw₁.trans hw₂)
    refine C.bind hargs₂ fun w₃ hw₃ vs hvs => ?_
    exact hcalls (hf.mono hw₃) fun a ha => hvs a (Array.mem_toList_iff.mp ha)
  | false => exact C.leaf (.refuse _ hf)

/-! ### Operators -/

/-- The operators make no references, and raise faults of their own. -/
lemma inside_unaryOp (op : UnaryOp) (v : Value) : R.Inside w (op.apply v) := by
  unfold UnaryOp.apply
  split
  · exact inside_ok (inside_of_node?_eq_none rfl)
  · exact inside_ok (inside_of_node?_eq_none rfl)
  · exact inside_ok (inside_of_node?_eq_none rfl)
  · exact inside_ok (inside_of_node?_eq_none rfl)
  · exact inside_error trivial

lemma inside_compare (op : BinaryOp) (same : Bool) {fault : Fault} (h : R.Inside w fault) :
    R.Inside w (op.compare same fault) := by
  unfold BinaryOp.compare
  split
  · exact inside_ok (inside_of_node?_eq_none rfl)
  · exact inside_ok (inside_of_node?_eq_none rfl)
  · exact inside_error h

lemma inside_applyNumbers (op : BinaryOp) (n m : Int64) : R.Inside w (op.applyNumbers n m) := by
  have number : ∀ k, R.Inside w (Except.ok (Value.number k) : Except Fault Value) :=
    fun _ => inside_ok (inside_of_node?_eq_none rfl)
  have bool : ∀ b, R.Inside w (Except.ok (Value.bool b) : Except Fault Value) :=
    fun _ => inside_ok (inside_of_node?_eq_none rfl)
  have guarded : ∀ (p : Prop) [Decidable p] (fault : Fault) (k : Int64), R.Inside w fault →
      R.Inside w (if p then Except.error fault else Except.ok (Value.number k)) := by
    intro p _ fault k h
    split
    · exact inside_error h
    · exact number k
  cases op with
  | div => exact guarded _ _ _ trivial
  | rem => exact guarded _ _ _ trivial
  | pow => exact guarded _ _ _ trivial
  | or => exact inside_error trivial
  | and => exact inside_error trivial
  | eq => exact bool _
  | ne => exact bool _
  | lt => exact bool _
  | le => exact bool _
  | gt => exact bool _
  | ge => exact bool _
  | _ => exact number _

lemma inside_binaryOp (op : BinaryOp) (l r : Value) : R.Inside w (op.apply l r) := by
  unfold BinaryOp.apply
  split
  · exact inside_compare _ _ trivial
  · exact inside_compare _ _ trivial
  · exact inside_applyNumbers _ _ _
  · split
    · exact inside_ok (inside_of_node?_eq_none rfl)
    · exact inside_compare _ _ trivial
  · exact inside_compare _ _ trivial
  · exact inside_error trivial

lemma evalUnary (op : UnaryOp) {operand : ι → Expr}
    (h : C.Holds w fun i => (ev i).expr (operand i) c) :
    C.Holds w fun i => (ev i).evalUnary c op (operand i) :=
  C.bind h fun _ _ v _ => C.leaf (.ofExcept (inside_unaryOp op v))

lemma evalStep (op : StepOp) (before : Bool) {operand : ι → Expr}
    (h : C.Holds w fun i => (ev i).expr (operand i) c)
    (hassign : ∀ w', w ≤ w' → ∀ v, R.Inside w' v →
      C.Holds w' fun i => (ev i).assign (operand i) v c) :
    C.Holds w fun i => (ev i).evalStep c op before (operand i) := by
  refine C.bind h fun w' hw v hv => ?_
  cases v with
  | number n =>
    exact C.seq (hassign w' hw _ (inside_of_node?_eq_none rfl)) fun _ _ => C.scalar rfl
  | _ => exact C.leaf (.refuse _ hv)

lemma evalAnd {left right : ι → Expr} (hl : C.Holds w fun i => (ev i).expr (left i) c)
    (hr : C.Holds w fun i => (ev i).expr (right i) c) :
    C.Holds w fun i => (ev i).evalAnd c (left i) (right i) := by
  refine C.bind hl fun w' hw l _ => ?_
  cases l.truth with
  | true => exact C.map (C.weaken hr hw) fun _ _ _ _ => inside_of_node?_eq_none rfl
  | false => exact C.scalar rfl

lemma evalOr {left right : ι → Expr} (hl : C.Holds w fun i => (ev i).expr (left i) c)
    (hr : C.Holds w fun i => (ev i).expr (right i) c) :
    C.Holds w fun i => (ev i).evalOr c (left i) (right i) := by
  refine C.bind hl fun w' hw l hl => ?_
  cases l.truth with
  | true => exact C.leaf (.pure hl)
  | false => exact C.weaken hr hw

lemma evalBinary (op : BinaryOp) {left right : ι → Expr}
    (hl : C.Holds w fun i => (ev i).expr (left i) c)
    (hr : C.Holds w fun i => (ev i).expr (right i) c) :
    C.Holds w fun i => (ev i).evalBinary c (left i) op (right i) := by
  have both : C.Holds w fun i => (ev i).evalBoth c (left i) op (right i) := by
    refine C.bind hl fun w' hw l _ => ?_
    exact C.bind (C.weaken hr hw) fun _ _ r _ => C.leaf (.ofExcept (inside_binaryOp op l r))
  cases op with
  | and => exact C.evalAnd hl hr
  | or => exact C.evalOr hl hr
  | _ => exact both

lemma evalConditional {condition whenTrue whenFalse : ι → Expr}
    (h : C.Holds w fun i => (ev i).expr (condition i) c)
    (ht : C.Holds w fun i => (ev i).expr (whenTrue i) c)
    (hf : C.Holds w fun i => (ev i).expr (whenFalse i) c) :
    C.Holds w fun i => (ev i).evalConditional c (condition i) (whenTrue i) (whenFalse i) := by
  refine C.bind h fun w' hw v _ => ?_
  cases v.truth with
  | true => exact C.weaken ht hw
  | false => exact C.weaken hf hw

lemma evalAssign {target value : ι → Expr} (h : C.Holds w fun i => (ev i).expr (value i) c)
    (hassign : ∀ w', w ≤ w' → ∀ v, R.Inside w' v →
      C.Holds w' fun i => (ev i).assign (target i) v c) :
    C.Holds w fun i => (ev i).evalAssign c (target i) (value i) := by
  refine C.bind h fun w' hw v hv => ?_
  exact C.seq (hassign w' hw v hv) fun _ hw' => C.leaf (.pure (hv.mono hw'))

/-- The functions of the settings may differ, but not in their names. -/
lemma makeFunction (hc : R.Inside w c) {l : ι → FunctionLit} {name : Option String}
    (hl : ∀ i, (l i).name = name) (hname : ∀ n, name = some n → C.MayBind c n)
    (h : C.Holds w fun i => Action.create fun st => st.newClosure ⟨l i, c⟩) :
    C.Holds w fun i => Evaluator.makeFunction c (l i) := by
  simp only [Evaluator.makeFunction, hl]
  refine C.bind h fun w' hw r hr => ?_
  have hv : R.Inside w' (Value.function r) := inside_of_node? rfl hr
  exact C.leaf ((Primitive.bindName (hc.mono hw) hv name hname).bind
    fun _ hw' _ _ => .pure (hv.mono hw'))

/-! ### Whole expressions -/

section

variable {f : ι → Expr → Expr} {l : ι → FunctionLit → FunctionLit}

/-- A congruence passes from the parts of expressions of one form, and from the making of functions,
to the expressions. -/
theorem evalKind_map (hc : R.Inside w c) (kind : ExprKind)
    (hcalls : kind.isCall = true → C.Calls ev)
    (hexpr : ∀ e ∈ kind.parts, C.Holds w fun i => (ev i).expr (f i e) c)
    (hassign : ∀ e ∈ kind.parts, ∀ w', w ≤ w' → ∀ v, R.Inside w' v →
      C.Holds w' fun i => (ev i).assign (f i e) v c)
    (hfunction : ∀ literal, kind = .function literal →
      C.Holds w fun i => Evaluator.makeFunction c (l i literal)) :
    C.Holds w fun i => (ev i).evalKind c (kind.map (f i) (l i)) := by
  cases kind with
  | nil => exact C.scalar rfl
  | bool b => exact C.scalar rfl
  | number n => exact C.scalar rfl
  | string s => exact C.scalar rfl
  | object entries => exact C.evalObject entries fun p hp => hexpr p.2 (List.mem_map_of_mem hp)
  | array items => exact C.evalArray items hexpr
  | function literal => exact hfunction literal rfl
  | identifier name => exact C.leaf (.lookup hc name)
  | call callee args =>
    exact C.evalCall (hcalls rfl) hc args (hexpr callee List.mem_cons_self)
      fun e he => hexpr e (List.mem_cons_of_mem callee he)
  | index container key =>
    exact C.evalIndex (hexpr container (by simp [ExprKind.parts]))
      (hexpr key (by simp [ExprKind.parts]))
  | new typeName args => exact C.leaf (.raise trivial)
  | unary op operand => exact C.evalUnary op (hexpr operand (by simp [ExprKind.parts]))
  | step op before operand =>
    have hmem : operand ∈ (ExprKind.step op before operand).parts := by simp [ExprKind.parts]
    exact C.evalStep op before (hexpr operand hmem) (hassign operand hmem)
  | binary left op right =>
    exact C.evalBinary op (hexpr left (by simp [ExprKind.parts]))
      (hexpr right (by simp [ExprKind.parts]))
  | conditional condition whenTrue whenFalse =>
    exact C.evalConditional (hexpr condition (by simp [ExprKind.parts]))
      (hexpr whenTrue (by simp [ExprKind.parts])) (hexpr whenFalse (by simp [ExprKind.parts]))
  | assign target value =>
    exact C.evalAssign (hexpr value (by simp [ExprKind.parts]))
      (hassign target (by simp [ExprKind.parts]))
  | paren inner => exact hexpr inner (by simp [ExprKind.parts])

/-- A congruence passes from targets of one form and their parts to the writing to them. -/
theorem assignTarget_map (hc : R.Inside w c) {v : Value} (hv : R.Inside w v) (kind : ExprKind)
    {target : ι → Expr} (hkind : ∀ i, (target i).kind = kind.map (f i) (l i))
    (hexpr : C.Holds w fun i => (ev i).expr (target i) c)
    (hparts : ∀ e ∈ kind.parts, C.Holds w fun i => (ev i).expr (f i e) c)
    (hparen : ∀ inner, kind = .paren inner → C.Holds w fun i => (ev i).assign (f i inner) v c) :
    C.Holds w fun i => (ev i).assignTarget c (target i) v := by
  unfold Evaluator.assignTarget
  simp only [hkind]
  cases kind with
  | identifier name => exact C.leaf (.assignName hc name hv)
  | index container key =>
    exact C.assignIndex (hparts container (by simp [ExprKind.parts]))
      (hparts key (by simp [ExprKind.parts])) hv
  | paren inner => exact hparen inner rfl
  | _ => exact C.bind hexpr fun _ _ _ ha => C.leaf (.refuse _ ha)

end

/-! ### One tree in all settings -/

/-- A congruence passes from the parts of an expression, and from the making of a function, to the
expression. -/
theorem evalKind (hc : R.Inside w c) (kind : ExprKind)
    (hcalls : kind.isCall = true → C.Calls ev)
    (hexpr : ∀ e ∈ kind.parts, C.Holds w fun i => (ev i).expr e c)
    (hassign : ∀ e ∈ kind.parts, ∀ w', w ≤ w' → ∀ v, R.Inside w' v →
      C.Holds w' fun i => (ev i).assign e v c)
    (hfunction : ∀ literal, kind = .function literal →
      C.Holds w fun _ => Evaluator.makeFunction c literal) :
    C.Holds w fun i => (ev i).evalKind c kind := by
  have h := C.evalKind_map (f := fun _ e => e) (l := fun _ l => l) hc kind hcalls hexpr hassign
    hfunction
  simpa only [ExprKind.map_id] using h

/-- A congruence passes from a target and its parts to the writing to it. -/
theorem assignTarget (hc : R.Inside w c) {v : Value} (hv : R.Inside w v) (target : Expr)
    (hexpr : C.Holds w fun i => (ev i).expr target c)
    (hparts : ∀ e ∈ target.kind.parts, C.Holds w fun i => (ev i).expr e c)
    (hparen : ∀ inner, target.kind = .paren inner →
      C.Holds w fun i => (ev i).assign inner v c) :
    C.Holds w fun i => (ev i).assignTarget c target v :=
  C.assignTarget_map (f := fun _ e => e) (l := fun _ l => l) hc hv target.kind
    (fun _ => (ExprKind.map_id _).symm) hexpr hparts hparen

variable {C}

/-- A congruence passes from expressions, and from a target in parentheses if it is one, to the
writing to a target. -/
theorem Exprs.assignTarget (h : C.Exprs ev) (hc : R.Inside w c) {v : Value} (hv : R.Inside w v)
    (target : Expr) (hparen : ∀ inner, target.kind = .paren inner →
      C.Holds w fun i => (ev i).assign inner v c) :
    C.Holds w fun i => (ev i).assignTarget c target v :=
  C.assignTarget hc hv target (h hc target) (fun e _ => h hc e) hparen

end TreeCongruence

end TreeWalk
