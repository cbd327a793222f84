/-
# More levels change nothing

An evaluator of a higher level can only end where one of a lower level does not: whatever the lower
one ends with, the higher one ends with too.  To end alike is a relation that evaluation passes on
(`Compatible.le`), so that two evaluators which compare part by part compare after one more level,
and so do all the levels, by induction.  The main statement is `level_mono`.
-/
import TreeWalk.Proofs.Compatible

namespace TreeWalk

namespace Action

variable {α β : Type}

/-- `y` ends like `x` wherever `x` ends. -/
def Le (x y : Action α) : Prop := ∀ s, x s = .unfinished ∨ x s = y s

theorem Le.refl (x : Action α) : Le x x := fun _ => Or.inr rfl

theorem Le.trans {x y z : Action α} (hxy : Le x y) (hyz : Le y z) : Le x z := by
  intro s
  rcases hxy s with h | h
  · exact Or.inl h
  · rw [h]
    exact hyz s

theorem unfinished_le (y : Action α) : Le unfinished y := fun _ => Or.inl rfl

/-- What `x` ends with, a greater action ends with. -/
theorem Le.eq {x y : Action α} (h : Le x y) {s : State} (hs : x s ≠ .unfinished) : y s = x s :=
  ((h s).resolve_left hs).symm

theorem Le.bind {x y : Action α} {f g : α → Action β} (h : Le x y) (hf : ∀ a, Le (f a) (g a)) :
    Le (x >>= f) (y >>= g) := by
  intro s
  rw [bind_apply, bind_apply]
  rcases h s with h | h
  · exact Or.inl (by rw [h])
  · rw [← h]
    cases x s with
    | value a s' => exact hf a s'
    | error e s' => exact Or.inr rfl
    | unfinished => exact Or.inl rfl

theorem Le.blame {x y : Action α} (h : Le x y) (span : Span) :
    Le (Action.blame span x) (Action.blame span y) := by
  intro s
  unfold Action.blame
  rcases h s with h | h
  · exact Or.inl (by rw [h])
  · exact Or.inr (by rw [h])

theorem Le.nested {x y : Action α} (h : Le x y) : Le (Action.nested x) (Action.nested y) := by
  intro s
  unfold Action.nested
  rcases h { s with depth := s.depth + 1 } with h | h
  · exact Or.inl (by rw [h])
  · exact Or.inr (by rw [h])

theorem Le.attempt {x y : Action α} (h : Le x y) : Le (Action.attempt x) (Action.attempt y) := by
  intro s
  unfold Action.attempt
  rcases h s with h | h
  · exact Or.inl (by rw [h])
  · exact Or.inr (by rw [h])

end Action

/-- To end like another action wherever it ends. -/
def Compatible.le : Compatible where
  Rel := Action.Le
  elementary _ := .refl _
  unfinished := Action.unfinished_le
  bind := .bind
  blame span h := h.blame span
  tick _ := .refl _
  callDepth := .refl _
  nested := .nested

namespace Evaluator

/-- Every part of `ev'` ends like that of `ev` wherever that of `ev` ends. -/
structure Below (ev ev' : Evaluator) : Prop where
  rounds : ev.rounds ≤ ev'.rounds
  tick : Action.Le ev.tick ev'.tick
  expr : ∀ e c, Action.Le (ev.expr e c) (ev'.expr e c)
  assign : ∀ target v c, Action.Le (ev.assign target v c) (ev'.assign target v c)
  stmt : ∀ s c, Action.Le (ev.stmt s c) (ev'.stmt s c)
  invoke : ∀ f args, Action.Le (ev.invoke f args) (ev'.invoke f args)

namespace Below

theorem of_stuck (ev : Evaluator) : Below stuck ev where
  rounds := Nat.zero_le _
  tick := Action.unfinished_le _
  expr _ _ := Action.unfinished_le _
  assign _ _ _ := Action.unfinished_le _
  stmt _ _ := Action.unfinished_le _
  invoke _ _ := Action.unfinished_le _

variable {ev ev' : Evaluator} (h : Below ev ev')
include h

theorem related : Compatible.le.Related ev ev' where
  rounds := h.rounds
  tick := h.tick
  expr := h.expr
  assign := h.assign
  stmt := h.stmt
  invoke := h.invoke

theorem call (f : Value) (args : List Value) : Action.Le (ev.call f args) (ev'.call f args) :=
  h.related.call f args

theorem execAll (c : ScopeRef) (body : List Stmt) :
    Action.Le (ev.execAll c body) (ev'.execAll c body) :=
  h.related.execAll c body

theorem execBlock (c : ScopeRef) (body : List Stmt) :
    Action.Le (ev.execBlock c body) (ev'.execBlock c body) :=
  h.related.execBlock c body

theorem runFrom (c : ScopeRef) (last : Value) (program : List Stmt) :
    Action.Le (ev.runFrom c last program) (ev'.runFrom c last program) :=
  h.related.runFrom c last program

theorem runNative (globals : ScopeRef) (native : Native) (args : List Value) :
    Action.Le (ev.runNative globals native args) (ev'.runNative globals native args) := by
  cases native with
  | apply => exact h.call _ _
  | attempt => exact .bind (.attempt (h.call _ _)) fun _ => .refl _
  | _ => exact .refl _

theorem execute (σ : Setting) (f : Value) (c : ScopeRef) (args : List Value) :
    Action.Le (ev.execute σ f c args) (ev'.execute σ f c args) := by
  cases f with
  | function r => exact .bind (.refl _) fun f => h.related.runClosure σ.config.arity f c args
  | builtin r => exact .bind (.refl _) fun b => h.runNative σ.globals b.native args
  | _ => exact .refl _

/-- One level more keeps the order of two evaluators. -/
theorem above (σ : Setting) : Below (ev.above σ) (ev'.above σ) where
  rounds := Nat.succ_le_succ h.rounds
  tick := .refl _
  expr := h.related.evalExpr σ
  assign := h.related.assignExpr
  stmt := h.related.execStmt σ
  invoke f args := Compatible.le.enter σ.config.maxCallDepth fun c => h.execute σ f c args

end Below

/-- Whatever ends at some level ends in the same way at every higher one. -/
theorem level_mono (σ : Setting) {n m : Nat} (hnm : n ≤ m) : Below (level σ n) (level σ m) := by
  induction n generalizing m with
  | zero => exact .of_stuck _
  | succ n ih =>
    obtain ⟨m, rfl⟩ : ∃ k, m = k + 1 := ⟨m - 1, by omega⟩
    rw [level_succ, level_succ]
    exact (ih (by omega)).above σ

end Evaluator

end TreeWalk
