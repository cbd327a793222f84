/-
# Congruences and statements

A congruence passes from the parts of a statement to the statement (`TreeCongruence.execKind`, and
`execKind_map` for statements of one form), and from statements to programs
(`TreeCongruence.runFrom`).  The rounds of a loop are repeated until one of them
says how the statements after the loop go on (`Evaluator.round`), and a switch selects one of its
cases by the position of it (`Evaluator.matching`), so that a congruence can speak of loops and
switches whose bodies differ from setting to setting.
-/
import TreeWalk.Proofs.Congruence.Expressions

namespace TreeWalk

namespace Evaluator

variable (ev : Evaluator) (c : ScopeRef)

/-! ### Rounds -/

/-- One round of a loop, after its step: how the loop ends in it, if it does. -/
def round (condition update : Option Expr) (body : List Stmt) : Action (Option Flow) := do
  if ← ev.holds c condition then
    match ← ev.execBlock c body with
    | .next =>
      let _ ← ev.evalOption c update
      return none
    | .leave => return some .next
    | .ret v => return some (.ret v)
  else
    return some .next

/-- A loop repeats its round. -/
lemma execRounds_eq_repeated (condition update : Option Expr) (body : List Stmt) (n : Nat) :
    ev.execRounds c condition update body n =
      Action.repeated (do ev.tick; ev.round c condition update body) n := by
  induction n with
  | zero => rfl
  | succ n ih =>
    rw [execRounds, Action.repeated, bind_assoc]
    congr 1
    funext _
    rw [round, bind_assoc]
    congr 1
    funext b
    cases b with
    | false => rfl
    | true =>
      simp only [if_true, bind_assoc]
      congr 1
      funext f
      cases f with
      -- only a round that went on with the next statement is followed by another one
      | next =>
        simp only [bind_assoc, pure_bind, ih]
        rfl
      | leave => rfl
      | ret v => rfl

/-- A statement of a program that is no expression is executed like any other one. -/
lemma runFrom_expr {s : Stmt} {e : Expr} (hkind : s.kind = .expr e) (last : Value)
    (rest : List Stmt) : ev.runFrom c last (s :: rest) =
      (ev.tick >>= fun _ => ev.expr e c) >>= fun v => ev.runFrom c v rest := by
  simp only [runFrom, hkind, bind_assoc]

lemma runFrom_cons {s : Stmt} (hkind : ∀ e, s.kind ≠ .expr e) (last : Value) (rest : List Stmt) :
    ev.runFrom c last (s :: rest) = (do
      match ← ev.stmt s c with
      | .next => ev.runFrom c last rest
      | .leave => Action.blame s.span (Action.raise .strayBreak)
      | .ret v => return v) := by
  rw [runFrom]
  split
  · next e he => exact absurd he (hkind e)
  · rfl

/-! ### Cases -/

/-- The position of the first case whose test equals the subject. -/
def matching (subject : Value) : List Case → Action (Option Nat)
  | [] => pure none
  | ⟨none, _⟩ :: rest => do return (← matching subject rest).map (· + 1)
  | ⟨some test, _⟩ :: rest => do
    if (← ev.expr test c) = subject then return some 0
    else return (← matching subject rest).map (· + 1)

/-- The body that a switch executes when the case at a position matches, or none. -/
def selected (cases : List Case) (position : Option Nat) : Option (List Stmt) :=
  (position.bind fun k => cases[k]?.map (·.body)).or (defaultBody cases)

lemma firstMatch_eq (subject : Value) (cases : List Case) :
    ev.firstMatch c subject cases = (do
      return (← ev.matching c subject cases).bind fun k => cases[k]?.map (·.body)) := by
  have hshift : ∀ (k : Case) (rest : List Case) (position : Option Nat),
      ((position.map (· + 1)).bind fun j => (k :: rest)[j]?.map (·.body)) =
        position.bind fun j => rest[j]?.map (·.body) := by
    intro k rest position
    cases position <;> rfl
  induction cases with
  | nil => rfl
  | cons k rest ih =>
    obtain ⟨test, body⟩ := k
    cases test with
    | none => simp only [firstMatch, matching, ih, bind_assoc, pure_bind, hshift]
    | some test =>
      simp only [firstMatch, matching, ih, bind_assoc]
      congr 1
      funext v
      split
      · rfl
      · simp only [bind_assoc, pure_bind, hshift]

/-- A switch executes the body of the case that is selected. -/
lemma execSwitch_eq (subject : Expr) (cases : List Case) :
    ev.execSwitch c subject cases = (do
      let v ← ev.expr subject c
      let position ← ev.matching c v cases
      ev.execCase c (selected cases position)) := by
  unfold execSwitch
  congr 1
  funext v
  rw [firstMatch_eq, bind_assoc]
  congr 1
  funext position
  rw [pure_bind, selected]
  cases position.bind fun k => cases[k]?.map (·.body) <;> rfl

/-- Only bodies of cases are selected. -/
lemma mem_of_selected {cases : List Case} {position : Option Nat} {body : List Stmt}
    (h : selected cases position = some body) : ∃ k ∈ cases, k.body = body := by
  rcases Option.or_eq_some_iff.mp h with h | ⟨-, h⟩
  · obtain ⟨n, -, h⟩ := Option.bind_eq_some_iff.mp h
    obtain ⟨k, hk, rfl⟩ := Option.map_eq_some_iff.mp h
    exact ⟨k, List.mem_of_getElem? hk, rfl⟩
  · obtain ⟨k, hk, rfl⟩ := Option.map_eq_some_iff.mp h
    exact ⟨k, List.mem_of_find?_eq_some hk, rfl⟩

end Evaluator

/-- Which case is selected does not depend on the parts of it. -/
lemma Evaluator.selected_map (cases : List Case) (f : Expr → Expr) (g : List Stmt → List Stmt)
    (position : Option Nat) :
    selected (cases.map fun k => k.map f g) position = (selected cases position).map g := by
  have hdefault : defaultBody (cases.map fun k => k.map f g) = (defaultBody cases).map g := by
    have hkind : ((fun k => k.test.isNone) ∘ fun k : Case => k.map f g) = fun k => k.test.isNone :=
      funext fun k => Option.isNone_map
    rw [defaultBody, List.find?_map, hkind, defaultBody, Option.map_map, Option.map_map]
    rfl
  have hcase : ∀ n : Nat, (cases.map fun k => k.map f g)[n]?.map (·.body) =
      (cases[n]?.map (·.body)).map g := by
    intro n
    rw [List.getElem?_map, Option.map_map, Option.map_map]
    rfl
  rw [selected, selected, hdefault, Option.map_or]
  congr 1
  cases position with
  | none => rfl
  | some n => exact hcase n

namespace Region

variable {R : Region} {st : Store}

/-- The ways to go on that hold no value are inside. -/
lemma inside_next : R.Inside st Flow.next := nofun

lemma inside_leave : R.Inside st Flow.leave := nofun

lemma inside_ret {v : Value} (hv : R.Inside st v) : R.Inside st (Flow.ret v) := fun _ h => by
  cases h
  exact hv

lemma inside_some {α : Type} [Placed α] {a : α} (ha : R.Inside st a) :
    R.Inside st (some a) := fun _ h => by
  cases h
  exact ha

lemma inside_none {α : Type} [Placed α] : R.Inside st (none : Option α) := nofun

/-- The scopes in which a part of a statement in the scope `c` is evaluated: that scope, if the
statement has the part for its `own`, and new ones. -/
def Open (R : Region) (c : ScopeRef) (own : Prop) (d : ScopeRef) : Prop := R.New d ∨ own ∧ d = c

end Region

namespace TreeCongruence

open Region

variable {R : Region} {ι : Type} (C : TreeCongruence R ι) (ev : ι → Evaluator)
variable {w w' : Store} {c : ScopeRef}

/-- The property holds of the evaluation of an expression from now on, in all of the scopes. -/
def Evaluates (w : Store) (scopes : ScopeRef → Prop) (e : ι → Expr) : Prop :=
  ∀ ⦃w'⦄, w ≤ w' → ∀ ⦃d : ScopeRef⦄, R.Inside w' d → scopes d →
    C.Holds w' fun i => (ev i).expr (e i) d

/-- The property holds of the execution of a statement from now on, in all of the scopes. -/
def Executes (w : Store) (scopes : ScopeRef → Prop) (s : ι → Stmt) : Prop :=
  ∀ ⦃w'⦄, w ≤ w' → ∀ ⦃d : ScopeRef⦄, R.Inside w' d → scopes d →
    C.Holds w' fun i => (ev i).stmt (s i) d

/-- The property holds of the execution of a list of statements from now on, in all new scopes. -/
def ExecutesAll (w : Store) (body : ι → List Stmt) : Prop :=
  ∀ ⦃w'⦄, w ≤ w' → ∀ ⦃d : ScopeRef⦄, R.Inside w' d → R.New d →
    C.Holds w' fun i => (ev i).execAll d (body i)

variable {C ev}

lemma ExecutesAll.mono {body : ι → List Stmt} (h : C.ExecutesAll ev w body) (hw : w ≤ w') :
    C.ExecutesAll ev w' body :=
  fun _ hw' _ hd => h (hw.trans hw') hd

variable (C)

/-! ### Lists of statements -/

/-- A list of statements, whatever has taken the place of the first one. -/
lemma execAll_after {x rest : ι → Action Flow} (hx : C.Holds w x)
    (hrest : ∀ w', w ≤ w' → C.Holds w' rest) :
    C.Holds w fun i => (do
      match ← x i with
      | .next => rest i
      | .leave => return .leave
      | .ret v => return .ret v : Action Flow) := by
  refine C.bind hx fun w' hw flow hflow => ?_
  cases flow with
  | next => exact hrest w' hw
  | leave => exact C.leaf (.pure hflow)
  | ret v => exact C.leaf (.pure hflow)

lemma execAll_cons {s : ι → Stmt} {rest : ι → List Stmt}
    (hs : C.Holds w fun i => (ev i).stmt (s i) c)
    (hrest : ∀ w', w ≤ w' → C.Holds w' fun i => (ev i).execAll c (rest i)) :
    C.Holds w fun i => (ev i).execAll c (s i :: rest i) :=
  C.execAll_after hs hrest

lemma execAll_map (body : List Stmt) {g : ι → Stmt → Stmt}
    (h : ∀ s ∈ body, C.Holds w fun i => (ev i).stmt (g i s) c) :
    C.Holds w fun i => (ev i).execAll c (body.map (g i)) := by
  induction body generalizing w with
  | nil => exact C.leaf (.pure inside_next)
  | cons s rest ih =>
    refine C.execAll_cons (h s List.mem_cons_self) fun w' hw => ih fun s' hs' => ?_
    exact C.weaken (h s' (List.mem_cons_of_mem s hs')) hw

/-- The same statements in all settings. -/
lemma execAll (body : List Stmt) (h : ∀ s ∈ body, C.Holds w fun i => (ev i).stmt s c) :
    C.Holds w fun i => (ev i).execAll c body := by
  have hmap := C.execAll_map (g := fun _ s => s) body h
  simpa only [List.map_id'] using hmap

lemma execBlock (hc : R.Inside w c) {body : ι → List Stmt} (h : C.ExecutesAll ev w body) :
    C.Holds w fun i => (ev i).execBlock c (body i) :=
  C.inChild hc fun _ hw _ hd hnew => h hw hd hnew

/-! ### Expressions -/

lemma evalOption (e : Option Expr) {f : ι → Expr → Expr}
    (h : ∀ e' ∈ e, C.Holds w fun i => (ev i).expr (f i e') c) :
    C.Holds w fun i => (ev i).evalOption c (e.map (f i)) := by
  cases e with
  | some e => exact h e rfl
  | none => exact C.scalar rfl

lemma holds (e : Option Expr) {f : ι → Expr → Expr}
    (h : ∀ e' ∈ e, C.Holds w fun i => (ev i).expr (f i e') c) :
    C.Holds w fun i => (ev i).holds c (e.map (f i)) := by
  cases e with
  | some e => exact C.map (h e rfl) fun _ _ _ _ => trivial
  | none => exact C.leaf (.pure trivial)

lemma execDeclare (hc : R.Inside w c) (name : String) (value : Option Expr) {f : ι → Expr → Expr}
    (h : ∀ e ∈ value, C.Holds w fun i => (ev i).expr (f i e) c) (hname : C.MayBind c name) :
    C.Holds w fun i => (ev i).execKind c (.declare name (value.map (f i))) := by
  refine C.bind (C.evalOption value h) fun w' hw v hv => ?_
  exact C.seq (C.leaf (.define (hc.mono hw) name hv hname)) fun _ _ => C.leaf (.pure inside_next)

lemma execRet (value : Option Expr) {f : ι → Expr → Expr}
    (h : ∀ e ∈ value, C.Holds w fun i => (ev i).expr (f i e) c) :
    C.Holds w fun i => (ev i).execKind c (.ret (value.map (f i))) :=
  C.map (C.evalOption value h) fun _ _ _ hv => inside_ret hv

lemma execExpr {e : ι → Expr} (h : C.Holds w fun i => (ev i).expr (e i) c) :
    C.Holds w fun i => (ev i).execKind c (.expr (e i)) :=
  C.seq h fun _ _ => C.leaf (.pure inside_next)

lemma execFunction {literal : ι → FunctionLit}
    (h : C.Holds w fun i => Evaluator.makeFunction c (literal i)) :
    C.Holds w fun i => (ev i).execKind c (.function (literal i)) :=
  C.seq h fun _ _ => C.leaf (.pure inside_next)

/-! ### Loops -/

section

variable (hc : R.Inside w c) (condition update : Option Expr) {f : ι → Expr → Expr}
  {body : ι → List Stmt}
  (hcondition : ∀ e ∈ condition, C.Holds w fun i => (ev i).expr (f i e) c)
  (hupdate : ∀ e ∈ update, C.Holds w fun i => (ev i).expr (f i e) c)
  (hbody : C.ExecutesAll ev w body)
include hc hcondition hupdate hbody

lemma round :
    C.Holds w fun i => (ev i).round c (condition.map (f i)) (update.map (f i)) (body i) := by
  refine C.bind (C.holds condition hcondition) fun w₁ hw₁ b _ => ?_
  cases b with
  | false => exact C.leaf (.pure (inside_some inside_next))
  | true =>
    refine C.bind (C.execBlock (hc.mono hw₁) (hbody.mono hw₁)) fun w₂ hw₂ flow hflow => ?_
    cases flow with
    | next =>
      have hlater := C.evalOption update fun e he => C.weaken (hupdate e he) (hw₁.trans hw₂)
      exact C.seq hlater fun _ _ => C.leaf (.pure inside_none)
    | leave => exact C.leaf (.pure (inside_some inside_next))
    | ret v => exact C.leaf (.pure (inside_some hflow))

variable (hloops : C.Loops ev)
include hloops

lemma execRounds :
    C.Holds w fun i =>
      (ev i).execRounds c (condition.map (f i)) (update.map (f i)) (body i) (ev i).rounds := by
  simp only [Evaluator.execRounds_eq_repeated]
  exact hloops (C.round hc condition update hcondition hupdate hbody)

lemma execLoop (init : Option Stmt) {g : ι → Stmt → Stmt}
    (hinit : ∀ s ∈ init, C.Holds w fun i => (ev i).stmt (g i s) c) :
    C.Holds w fun i => (ev i).execLoop c (init.map (g i)) (condition.map (f i))
      (update.map (f i)) (body i) := by
  cases init with
  | some s =>
    refine C.bind (hinit s rfl) fun w' hw flow hflow => ?_
    cases flow with
    | next =>
      exact C.execRounds (hc.mono hw) condition update
        (fun e he => C.weaken (hcondition e he) hw) (fun e he => C.weaken (hupdate e he) hw)
        (hbody.mono hw) hloops
    | leave => exact C.leaf (.pure hflow)
    | ret v => exact C.leaf (.pure hflow)
  | none => exact C.execRounds hc condition update hcondition hupdate hbody hloops

end

/-! ### Choices -/

section

variable (cases : List Case) {f : ι → Expr → Expr} {g : ι → List Stmt → List Stmt}
  (htest : ∀ k ∈ cases, ∀ e ∈ k.test, C.Holds w fun i => (ev i).expr (f i e) c)

include htest in
lemma matching (subject : Value) :
    C.Holds w fun i => (ev i).matching c subject (cases.map fun k => k.map (f i) (g i)) := by
  induction cases generalizing w with
  | nil => exact C.leaf (.pure inside_none)
  | cons k rest ih =>
    have hrest : ∀ w', w ≤ w' → C.Holds w' fun i => (do
        return (← (ev i).matching c subject (rest.map fun k => k.map (f i) (g i))).map (· + 1) :
        Action (Option Nat)) := by
      intro w' hw
      refine C.map (ih fun k hk e he => C.weaken (htest k (List.mem_cons_of_mem _ hk) e he) hw) ?_
      exact fun _ _ _ _ _ _ => trivial
    obtain ⟨test, body⟩ := k
    cases test with
    | none => exact hrest w le_rfl
    | some test =>
      refine C.bind (htest _ List.mem_cons_self test rfl) fun w' hw v _ => ?_
      by_cases hv : v = subject
      · simp only [if_pos hv]
        exact C.leaf (.pure fun _ _ => trivial)
      · simp only [if_neg hv]
        exact hrest w' hw

lemma execCase (hc : R.Inside w c) (body : Option (List Stmt))
    (h : ∀ b ∈ body, C.ExecutesAll ev w fun i => g i b) :
    C.Holds w fun i => (ev i).execCase c (body.map (g i)) := by
  cases body with
  | none => exact C.leaf (.pure inside_next)
  | some body =>
    refine C.bind (C.execBlock hc (h body rfl)) fun w' _ flow hflow => ?_
    cases flow with
    | next => exact C.leaf (.pure hflow)
    | leave => exact C.leaf (.pure inside_next)
    | ret v => exact C.leaf (.pure hflow)

include htest in
lemma execSwitch (hc : R.Inside w c) {subject : ι → Expr}
    (hsubject : C.Holds w fun i => (ev i).expr (subject i) c)
    (hbody : ∀ k ∈ cases, C.ExecutesAll ev w fun i => g i k.body) :
    C.Holds w fun i =>
      (ev i).execSwitch c (subject i) (cases.map fun k => k.map (f i) (g i)) := by
  simp only [Evaluator.execSwitch_eq, Evaluator.selected_map]
  refine C.bind hsubject fun w₁ hw₁ v _ => ?_
  have htest₁ := C.matching (g := g) cases (fun k hk e he => C.weaken (htest k hk e he) hw₁) v
  refine C.bind htest₁ fun w₂ hw₂ position _ => ?_
  refine C.execCase (hc.mono (hw₁.trans hw₂)) _ fun body hselected => ?_
  obtain ⟨k, hk, rfl⟩ := Evaluator.mem_of_selected hselected
  exact (hbody k hk).mono (hw₁.trans hw₂)

end

lemma execBranch {condition : ι → Expr} {whenTrue : ι → Stmt} (whenFalse : Option Stmt)
    {g : ι → Stmt → Stmt} (h : C.Holds w fun i => (ev i).expr (condition i) c)
    (ht : C.Holds w fun i => (ev i).stmt (whenTrue i) c)
    (hf : ∀ s ∈ whenFalse, C.Holds w fun i => (ev i).stmt (g i s) c) :
    C.Holds w fun i =>
      (ev i).execBranch c (condition i) (whenTrue i) (whenFalse.map (g i)) := by
  refine C.bind h fun w' hw v _ => ?_
  cases v.truth with
  | true => exact C.weaken ht hw
  | false =>
    cases whenFalse with
    | some s => exact C.weaken (hf s rfl) hw
    | none => exact C.leaf (.pure inside_next)

/-! ### Whole statements -/

/-- A congruence passes from the parts of statements of one form, and from the making of functions,
to the statements.  Only loops have rounds, and only declarations bind names by themselves. -/
theorem execKind_map (hc : R.Inside w c) (kind : StmtKind) {f : ι → Expr → Expr}
    {g : ι → Stmt → Stmt} {b : ι → List Stmt → List Stmt} {l : ι → FunctionLit → FunctionLit}
    (hloops : kind.isLoop = true → C.Loops ev)
    (hexpr : ∀ e ∈ kind.exprs,
      C.Evaluates ev w (R.Open c (e ∈ kind.ownExprs)) fun i => f i e)
    (hstmt : ∀ s ∈ kind.stmts,
      C.Executes ev w (R.Open c (s ∈ kind.ownStmts)) fun i => g i s)
    (hbody : ∀ body ∈ kind.bodies, C.ExecutesAll ev w fun i => b i body)
    (hname : ∀ name value, kind = .declare name value → C.MayBind c name)
    (hfunction : ∀ literal, kind = .function literal →
      C.Holds w fun i => Evaluator.makeFunction c (l i literal)) :
    C.Holds w fun i => (ev i).execKind c (kind.map (f i) (g i) (b i) (l i)) := by
  cases kind with
  | empty => exact C.leaf (.pure inside_next)
  | declare name value =>
    have hvalue : ∀ e ∈ value, C.Holds w fun i => (ev i).expr (f i e) c := fun e he =>
      hexpr e (Option.mem_toList.mpr he) le_rfl hc (.inr ⟨Option.mem_toList.mpr he, rfl⟩)
    exact C.execDeclare hc name value hvalue (hname name value rfl)
  | function literal => exact C.execFunction (hfunction literal rfl)
  | ret value =>
    exact C.execRet value fun e he =>
      hexpr e (Option.mem_toList.mpr he) le_rfl hc (.inr ⟨Option.mem_toList.mpr he, rfl⟩)
  | block body => exact C.execBlock hc (hbody body List.mem_cons_self)
  | expr e =>
    exact C.execExpr (hexpr e List.mem_cons_self le_rfl hc (.inr ⟨List.mem_cons_self, rfl⟩))
  | loop init condition update body =>
    refine C.inChild hc fun w' hw d hd hnew => ?_
    exact C.execLoop hd condition update
      (fun e he => hexpr e (by simp_all [StmtKind.exprs]) hw hd (.inl hnew))
      (fun e he => hexpr e (by simp_all [StmtKind.exprs]) hw hd (.inl hnew))
      ((hbody body List.mem_cons_self).mono hw) (hloops rfl) init
      fun s hs => hstmt s (by simp_all [StmtKind.stmts]) hw hd (.inl hnew)
  | leave => exact C.leaf (.pure inside_leave)
  | branch condition whenTrue whenFalse =>
    have hown : ∀ s ∈ whenTrue :: whenFalse.toList, C.Holds w fun i => (ev i).stmt (g i s) c :=
      fun s hs => hstmt s hs le_rfl hc (.inr ⟨hs, rfl⟩)
    exact C.execBranch whenFalse
      (hexpr condition List.mem_cons_self le_rfl hc (.inr ⟨List.mem_cons_self, rfl⟩))
      (hown whenTrue List.mem_cons_self)
      fun s hs => hown s (List.mem_cons_of_mem _ (Option.mem_toList.mpr hs))
  | switch subject cases =>
    have hown : ∀ e ∈ subject :: cases.filterMap (·.test),
        C.Holds w fun i => (ev i).expr (f i e) c :=
      fun e he => hexpr e he le_rfl hc (.inr ⟨he, rfl⟩)
    exact C.execSwitch cases
      (fun k hk e he => hown e (List.mem_cons_of_mem _ (List.mem_filterMap.mpr ⟨k, hk, he⟩)))
      hc (hown subject List.mem_cons_self) fun k hk => hbody k.body (List.mem_map_of_mem hk)

/-- A congruence passes from the parts of a statement, and from the making of a function, to the
statement. -/
theorem execKind (hc : R.Inside w c) (kind : StmtKind) (hloops : kind.isLoop = true → C.Loops ev)
    (hexpr : ∀ e ∈ kind.exprs,
      C.Evaluates ev w (R.Open c (e ∈ kind.ownExprs)) fun _ => e)
    (hstmt : ∀ s ∈ kind.stmts,
      C.Executes ev w (R.Open c (s ∈ kind.ownStmts)) fun _ => s)
    (hname : ∀ name value, kind = .declare name value → C.MayBind c name)
    (hfunction : ∀ literal, kind = .function literal →
      C.Holds w fun _ => Evaluator.makeFunction c literal) :
    C.Holds w fun i => (ev i).execKind c kind := by
  have hbody : ∀ body ∈ kind.bodies, C.ExecutesAll ev w fun _ => body := by
    intro body hbody w' hw d hd hnew
    exact C.execAll body fun s hs =>
      hstmt s (StmtKind.mem_stmts_of_mem_bodies hbody hs) hw hd (.inl hnew)
  have h := C.execKind_map (f := fun _ e => e) (g := fun _ s => s) (b := fun _ body => body)
    (l := fun _ l => l) hc kind hloops hexpr hstmt hbody hname hfunction
  simpa only [StmtKind.map_id] using h

/-! ### Programs -/

lemma runFrom_expr {s : ι → Stmt} {e : ι → Expr} (hkind : ∀ i, (s i).kind = .expr (e i))
    {rest : ι → List Stmt} (last : Value) (htick : C.Ticks ev)
    (he : ∀ w', w ≤ w' → C.Holds w' fun i => (ev i).expr (e i) c)
    (hrest : ∀ w', w ≤ w' → ∀ v, R.Inside w' v →
      C.Holds w' fun i => (ev i).runFrom c v (rest i)) :
    C.Holds w fun i => (ev i).runFrom c last (s i :: rest i) := by
  simp only [Evaluator.runFrom, hkind]
  refine C.seq (htick w) fun w₁ hw₁ => ?_
  exact C.bind (he w₁ hw₁) fun w₂ hw₂ v hv => hrest w₂ (hw₁.trans hw₂) v hv

/-- A program, whatever has taken the place of its first statement. -/
lemma runFrom_after {x : ι → Action Flow} {rest : ι → Action Value} {span : ι → Span}
    (hx : C.Holds w x) (hstray : ∀ w', w ≤ w' →
      C.Holds w' fun i => (Action.blame (span i) (Action.raise .strayBreak) : Action Value))
    (hrest : ∀ w', w ≤ w' → C.Holds w' rest) :
    C.Holds w fun i => (do
      match ← x i with
      | .next => rest i
      | .leave => Action.blame (span i) (Action.raise .strayBreak)
      | .ret v => return v : Action Value) := by
  refine C.bind hx fun w' hw flow hflow => ?_
  cases flow with
  | next => exact hrest w' hw
  | leave => exact hstray w' hw
  | ret v => exact C.leaf (.pure (hflow v rfl))

lemma runFrom_stmt {s : ι → Stmt} (hkind : ∀ i e, (s i).kind ≠ .expr e)
    {rest : ι → List Stmt} {last : Value} (hs : C.Holds w fun i => (ev i).stmt (s i) c)
    (hstray : ∀ w', w ≤ w' →
      C.Holds w' fun i => (Action.blame (s i).span (Action.raise .strayBreak) : Action Value))
    (hrest : ∀ w', w ≤ w' → C.Holds w' fun i => (ev i).runFrom c last (rest i)) :
    C.Holds w fun i => (ev i).runFrom c last (s i :: rest i) := by
  simp only [Evaluator.runFrom_cons _ _ (hkind _)]
  exact C.runFrom_after hs hstray hrest

/-- A congruence passes from the statements of a program to the program. -/
theorem runFrom (htick : C.Ticks ev) (hc : R.Inside w c) {last : Value} (hl : R.Inside w last)
    (program : List Stmt)
    (hexpr : ∀ s ∈ program, ∀ e, s.kind = .expr e → C.Holds w fun i => (ev i).expr e c)
    (hstmt : ∀ s ∈ program, C.Holds w fun i => (ev i).stmt s c)
    (hstray : ∀ (w' : Store) (span : Span),
      C.Holds w' fun _ => (Action.blame span (Action.raise .strayBreak) : Action Value)) :
    C.Holds w fun i => (ev i).runFrom c last program := by
  induction program generalizing w last with
  | nil => exact C.leaf (.pure hl)
  | cons s rest ih =>
    have hrest : ∀ w', w ≤ w' → ∀ v, R.Inside w' v →
        C.Holds w' fun i => (ev i).runFrom c v rest := by
      intro w' hw v hv
      refine ih (hc.mono hw) hv (fun s' hs' e he => ?_) fun s' hs' => ?_
      · exact C.weaken (hexpr s' (List.mem_cons_of_mem s hs') e he) hw
      · exact C.weaken (hstmt s' (List.mem_cons_of_mem s hs')) hw
    by_cases hkind : ∃ e, s.kind = .expr e
    · obtain ⟨e, he⟩ := hkind
      exact C.runFrom_expr (fun _ => he) last htick
        (fun w' hw => C.weaken (hexpr s List.mem_cons_self e he) hw) hrest
    · have hne : ∀ e, s.kind ≠ .expr e := fun e he => hkind ⟨e, he⟩
      exact C.runFrom_stmt (fun _ => hne) (hstmt s List.mem_cons_self)
        (fun w' _ => hstray w' s.span) fun w' hw => hrest w' hw last (hl.mono hw)

/-! ### All statements -/

variable {C}

lemma Stmts.execAll (h : C.Stmts ev) (hc : R.Inside w c) (body : List Stmt) :
    C.Holds w fun i => (ev i).execAll c body :=
  C.execAll body fun s _ => h hc s

lemma Stmts.execBlock (h : C.Stmts ev) (hc : R.Inside w c) (body : List Stmt) :
    C.Holds w fun i => (ev i).execBlock c body :=
  C.execBlock hc fun _ _ _ hd _ => h.execAll hd body

end TreeCongruence

end TreeWalk
