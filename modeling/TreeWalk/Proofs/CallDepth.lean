/-
# The depth of calls

However an evaluation ends, and whatever the builtins of a host do on the way, the calls that were
begun have been left again: the depth of calls is what it was (`Action.Balanced`).  It never goes
beyond the limit, so that a guard at the entry of what is called has nothing to do
(`Host.level_guarded`).  Hence a host may use an interpreter again and again, after failures too,
and always finds it at depth zero (`callDepth_balanced`).
-/
import TreeWalk.Proofs.Ending
import TreeWalk.Proofs.Hosts

namespace TreeWalk

namespace Action

variable {α β : Type}

/-- However the action ends, the depth of calls is what it was. -/
def Balanced (x : Action α) : Prop := ∀ s t, (x s).EndsIn t → t.depth = s.depth

/-- The guard raises the alarm in place of what is begun deeper than allowed. -/
def guarded (max : UInt64) (alarm x : Action α) : Action α := fun s =>
  if s.depth ≤ max.toNat then x s else alarm s

namespace Balanced

variable {x : Action α}

lemma of_onStore (hx : x.OnStore) : x.Balanced := by
  intro s t ht
  rw [hx s] at ht
  cases h : x { store := s.store } <;> rw [h] at ht <;> cases ht <;> rfl

lemma stepsTaken : Balanced Action.stepsTaken := by
  rintro s t ⟨⟩
  rfl

lemma callDepth : Balanced Action.callDepth := by
  rintro s t ⟨⟩
  rfl

lemma tick (limit : Option UInt64) : Balanced (Action.tick limit) := by
  intro s t ht
  cases limit with
  | none =>
    cases ht
    rfl
  | some l =>
    unfold Action.tick at ht
    dsimp only at ht
    split at ht <;> cases ht <;> rfl

lemma bind {f : α → Action β} (hx : x.Balanced) (hf : ∀ a, (f a).Balanced) :
    (x >>= f).Balanced := by
  intro s t ht
  rcases endsIn_bind ht with ⟨a, u, hu, ht⟩ | ht
  · exact (hf a u t ht).trans (hx s u (.of_value hu))
  · exact hx s t ht

lemma blame (hx : x.Balanced) (span : Span) : (Action.blame span x).Balanced :=
  fun s t ht => hx s t (endsIn_blame ht)

lemma attempt (hx : x.Balanced) : (Action.attempt x).Balanced := by
  intro s t ht
  refine hx s t ?_
  unfold Action.attempt at ht
  cases h : x s <;> rw [h] at ht <;> cases ht <;> constructor

/-- What is begun one call deeper is left again, be it with a value or with an error. -/
lemma nested (hx : x.Balanced) : (Action.nested x).Balanced := by
  intro s t ht
  have hdeeper : ∀ u, (x { s with depth := s.depth + 1 }).EndsIn u → u.depth = s.depth + 1 :=
    hx { s with depth := s.depth + 1 }
  unfold Action.nested at ht
  cases h : x { s with depth := s.depth + 1 } with
  | value a u =>
    rw [h] at ht hdeeper
    cases ht
    show u.depth - 1 = s.depth
    rw [hdeeper u (.value a u), Nat.add_sub_cancel]
  | error e u =>
    rw [h] at ht hdeeper
    cases ht
    show u.depth - 1 = s.depth
    rw [hdeeper u (.error e u), Nat.add_sub_cancel]
  | unfinished =>
    rw [h] at ht
    cases ht

end Balanced

end Action

/-- To be balanced, as a relation that does not look at the second action. -/
def Compatible.balanced : Compatible where
  Rel x _ := x.Balanced
  elementary h := .of_onStore h.onStore
  unfinished _ := .of_onStore .unfinished
  bind hx hf := hx.bind hf
  blame span hx := hx.blame span
  tick := .tick
  callDepth := .callDepth
  nested hx := hx.nested

/-- What a host does with an evaluator is balanced if the parts of the evaluator are. -/
lemma Hosted.balanced {σ : Setting} {α : Type} {task : Evaluator → Action α}
    (htask : Hosted σ task) {ev : Evaluator} (h : Compatible.balanced.Related ev ev) :
    (task ev).Balanced := by
  induction htask with
  | onStore hx => exact .of_onStore hx
  | steps => exact .stepsTaken
  | bind _ _ ihx ihf => exact ihx.bind ihf
  | attempt _ ihx => exact ihx.attempt
  | run program => exact h.runFrom _ _ program
  | eval e c => exact h.expr e c
  | assign target v c => exact h.assign target v c
  | exec s c => exact h.stmt s c
  | execAll c body => exact h.execAll c body
  | execBlock c body => exact h.execBlock c body
  | call f args => exact h.call f args
  | runClosure f c args => exact h.runClosure _ f c args

namespace Host

variable (host : Host)

lemma execute_balanced {ev : Evaluator} (h : Compatible.balanced.Related ev ev) (σ : Setting)
    (f : Value) (c : ScopeRef) (args : List Value) :
    (host.execute σ ev f c args).Balanced := by
  cases f with
  | builtin r =>
    -- the builtin comes back only to the evaluator that it was given
    exact (host.hosted σ r args).balanced h
  | function r => exact .bind (.of_onStore (.read _)) fun f => h.runClosure _ f c args
  | _ => exact Compatible.balanced.elementary (.refuse _ _)

/-- All parts of the evaluators of a host are balanced. -/
lemma level_balanced (σ : Setting) (n : Nat) :
    Compatible.balanced.Related (host.level id σ n) (host.level id σ n) := by
  induction n with
  | zero => exact .of_stuck _
  | succ n ih =>
    exact {
      rounds := Nat.le_refl _
      tick := .tick _
      expr := ih.evalExpr σ
      assign := ih.assignExpr
      stmt := ih.execStmt σ
      invoke := fun f args => Compatible.balanced.enter σ.config.maxCallDepth
        fun c => host.execute_balanced ih σ f c args }

/-- A call that is entered makes the depth one more than it was, which the limit allows. -/
lemma enter_guarded (alarm : Action Value) (σ : Setting) (ev : Evaluator) :
    host.enter (Action.guarded σ.config.maxCallDepth alarm) σ ev = host.enter id σ ev := by
  funext f args s
  unfold enter
  rw [Action.bind_apply, Action.bind_apply]
  simp only [Action.callDepth]
  by_cases hmax : σ.config.maxCallDepth.toNat ≤ s.depth
  · rw [if_pos hmax, if_pos hmax]
  · -- the guard looks at the depth one call deeper than the check does
    have hdepth : s.depth + 1 ≤ σ.config.maxCallDepth.toNat := by omega
    rw [if_neg hmax, if_neg hmax]
    simp only [Action.nested, Action.bind_apply, Action.create, Action.guarded, if_pos hdepth,
      id_eq]

/-- The guard at the entry of what is called makes no difference. -/
lemma level_guarded (alarm : Action Value) (σ : Setting) (n : Nat) :
    host.level (Action.guarded σ.config.maxCallDepth alarm) σ n = host.level id σ n := by
  induction n with
  | zero => rfl
  | succ n ih => rw [level, level, ih, enter_guarded]

/-- What becomes of an interpreter and a store in the hands of a host, which does what it likes with
the store, and one thing after another with the interpreter.  All that has come to an end is done,
whether it failed or not. -/
inductive Session (config : Config) : Interpreter → Store → Prop
  | create (st : Store) :
      Session config (Interpreter.create config st).1 (Interpreter.create config st).2
  | change {i : Interpreter} {st : Store} (h : Session config i st) (st' : Store) :
      Session config i st'
  | perform {i : Interpreter} {st : Store} (h : Session config i st) {α : Type}
      {task : Evaluator → Action α} (htask : Hosted i.toSetting task) {n : Nat} {s : State}
      (hs : (task (host.level id i.toSetting n) (i.start st)).EndsIn s) :
      Session config (i.after s) s.store

variable {host}

/-- Between the things that a host does with an interpreter no call is being made. -/
lemma Session.depth {config : Config} {i : Interpreter} {st : Store}
    (h : host.Session config i st) : i.depth = 0 := by
  induction h with
  | create st => rfl
  | change _ _ ih => exact ih
  | perform _ htask hs ih => exact (htask.balanced (host.level_balanced _ _) _ _ hs).trans ih

end Host

/-- Whatever a host does with an evaluator, and whatever its builtins do, is balanced, also where it
fails; no function and no builtin is entered deeper than the limit, the call itself counted; and at
the beginning of everything that a host does with an interpreter the depth is zero.  The evaluators
of the model are those of one such host. -/
theorem callDepth_balanced (host : Host) :
    (∀ (σ : Setting) (α : Type) (task : Evaluator → Action α), Hosted σ task →
      ∀ n, (task (host.level id σ n)).Balanced) ∧
    (∀ (σ : Setting) (alarm : Action Value) (n : Nat),
      host.level (Action.guarded σ.config.maxCallDepth alarm) σ n = host.level id σ n) ∧
    (∀ (config : Config) (i : Interpreter) (st : Store), host.Session config i st →
      (i.start st).depth = 0) ∧
    ∀ (σ : Setting) (n : Nat), Host.natives.level id σ n = Evaluator.level σ n := by
  refine ⟨fun σ α task htask n => htask.balanced (host.level_balanced σ n),
    fun σ alarm n => host.level_guarded alarm σ n, fun config i st h => h.depth,
    Host.level_natives⟩

/-- A program whose calls go too deep, first where a builtin catches the failure and then where
nothing does. -/
theorem callDepth_balanced_failing :
    let call (f : String) (args : List Expr) : Expr :=
      .synthetic (.call (.synthetic (.identifier f)) args)
    let program : List Stmt := [.synthetic (.function ⟨some "f", [], [.ofExpr (call "f" [])]⟩),
      .ofExpr (call "try" [.synthetic (.identifier "f")]), .ofExpr (call "f" [])]
    let config : Config := { maxCallDepth := 3 }
    let i := (Interpreter.create config {}).1
    let st := i.defineBuiltin (Interpreter.create config {}).2 ⟨"try", .attempt⟩
    Host.natives.Session config i st ∧ (i.start st).depth = 0 ∧
    Hosted i.toSetting (fun ev => ev.runFrom i.globals .nil program) ∧
    ∃ e s, i.Ends st (fun ev => ev.runFrom i.globals .nil program) (.error e s) ∧
      e.fault = .callDepth 3 ∧ s.depth = 0 ∧
      Host.natives.Session config (i.after s) s.store ∧ ((i.after s).start s.store).depth = 0 := by
  intro call program config i st
  obtain ⟨hbalanced, -, hsession, hnatives⟩ := callDepth_balanced Host.natives
  have hst : Host.natives.Session config i st := .change (.create {}) st
  have hstart : (i.start st).depth = 0 := hsession config i st hst
  have htask : Hosted i.toSetting fun ev => ev.runFrom i.globals .nil program := .run program
  obtain ⟨e, s, hrun, he⟩ := Interpreter.Ends.of_fails i st
    (fun ev => ev.runFrom i.globals .nil program) (fun e => decide (e.fault = .callDepth 3)) 20
    (by decide +kernel)
  obtain ⟨n, hn⟩ := hrun.2
  rw [← hnatives] at hn
  have hs : ((Host.natives.level id i.toSetting n).runFrom i.globals .nil program
      (i.start st)).EndsIn s := .of_error hn
  have hafter : Host.natives.Session config (i.after s) s.store := .perform hst htask hs
  exact ⟨hst, hstart, htask, e, s, hrun, of_decide_eq_true he,
    (hbalanced _ _ _ htask n _ s hs).trans hstart, hafter, hsession config _ _ hafter⟩

end TreeWalk
