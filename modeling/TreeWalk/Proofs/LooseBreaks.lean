/-
# Loose breaks

A `break` is loose in a list of statements if no loop, switch or function around it takes it: it is
reached from the list without entering the body of a loop, of a case or of a function.  A list
without a loose break is never left by one (`Evaluator.avoids_execAll`), whatever the store is and
however the evaluation of its expressions goes: it avoids this way of going on (`Action.Avoids`).
-/
import Mathlib.Tactic.Lemma
import TreeWalk.Evaluator.Level

namespace TreeWalk

mutual

/-- The statement has a loose `break`. -/
def Stmt.loose : Stmt → Bool
  | ⟨_, kind⟩ => kind.loose

/-- A statement of that kind has a loose `break`.  One in the first part of a loop is loose, since
the loop takes those of its body only. -/
def StmtKind.loose : StmtKind → Bool
  | .leave => true
  | .block body => looseIn body
  | .branch _ whenTrue whenFalse => whenTrue.loose || looseOption whenFalse
  | .loop init _ _ _ => looseOption init
  | .empty | .declare _ _ | .function _ | .ret _ | .expr _ | .switch _ _ => false

/-- A list of statements has a loose `break`. -/
def looseIn : List Stmt → Bool
  | [] => false
  | s :: rest => s.loose || looseIn rest

/-- A statement that may be missing has a loose `break`. -/
def looseOption : Option Stmt → Bool
  | none => false
  | some s => s.loose

end

lemma looseIn_cons {s : Stmt} {rest : List Stmt} :
    looseIn (s :: rest) = false ↔ s.loose = false ∧ looseIn rest = false := by
  rw [looseIn, Bool.or_eq_false_iff]

lemma loose_of_mem {body : List Stmt} (h : looseIn body = false) {s : Stmt} (hs : s ∈ body) :
    s.loose = false := by
  induction body with
  | nil => cases hs
  | cons s' rest ih =>
    obtain ⟨hs', hrest⟩ := looseIn_cons.mp h
    rcases List.mem_cons.mp hs with rfl | hs
    · exact hs'
    · exact ih hrest hs

/-- The action never ends with one way in which the list of statements around it could go on. -/
def Action.Avoids (flow : Flow) (x : Action Flow) : Prop := ∀ s t, x s ≠ .value flow t

namespace Action.Avoids

variable {α : Type} {flow : Flow}

lemma pure {f : Flow} (h : f ≠ flow) : Avoids flow (Pure.pure f) := fun s t heq => by
  cases heq
  exact h rfl

lemma unfinished : Avoids flow Action.unfinished := nofun

/-- What follows an action is done with one of its values. -/
lemma bind_values {x : Action α} {f : α → Action Flow}
    (h : ∀ a, (∃ s t, x s = .value a t) → (f a).Avoids flow) : Avoids flow (x >>= f) := by
  intro s t heq
  rw [bind_apply] at heq
  cases hx : x s with
  | value a u =>
    rw [hx] at heq
    exact h a ⟨s, u, hx⟩ u t heq
  | error e u => rw [hx] at heq; cases heq
  | unfinished => rw [hx] at heq; cases heq

lemma bind {x : Action α} {f : α → Action Flow} (h : ∀ a, (f a).Avoids flow) :
    Avoids flow (x >>= f) :=
  bind_values fun a _ => h a

/-- It does not matter what would follow that way of going on. -/
lemma bind_congr {x : Action Flow} (hx : x.Avoids flow) {f g : Flow → Action α}
    (h : ∀ a, a ≠ flow → f a = g a) : x >>= f = x >>= g := by
  funext s
  rw [bind_apply, bind_apply]
  cases hs : x s with
  | value a t => exact congrFun (h a fun heq => hx s t (heq ▸ hs)) t
  | error e t => rfl
  | unfinished => rfl

/-- An action that does not leave goes on in one of the two other ways. -/
lemma bind_flow {x : Action Flow} (hx : x.Avoids .leave) {f : Flow → Action Flow}
    (hnext : (f .next).Avoids .leave) (hret : ∀ v, (f (.ret v)).Avoids .leave) :
    Avoids .leave (x >>= f) := by
  refine bind_values fun flow ⟨s, t, h⟩ => ?_
  cases flow with
  | next => exact hnext
  | leave => exact absurd h (hx s t)
  | ret v => exact hret v

lemma blame {x : Action Flow} (hx : x.Avoids flow) (span : Span) :
    Avoids flow (Action.blame span x) := by
  intro s t heq
  unfold Action.blame at heq
  cases h : x s with
  | value a u =>
    rw [h] at heq
    cases heq
    exact hx s t h
  | error e u => rw [h] at heq; cases heq
  | unfinished => rw [h] at heq; cases heq

end Action.Avoids

namespace Evaluator

variable {ev : Evaluator} (h : ∀ s, s.loose = false → ∀ c, (ev.stmt s c).Avoids .leave)

include h in
lemma avoids_execAll {body : List Stmt} (hbody : looseIn body = false) (c : ScopeRef) :
    (ev.execAll c body).Avoids .leave := by
  induction body with
  | nil => exact .pure nofun
  | cons s rest ih =>
    obtain ⟨hs, hrest⟩ := looseIn_cons.mp hbody
    exact .bind_flow (h s hs c) (ih hrest) fun v => .pure nofun

/-- A loop takes what leaves its body. -/
lemma avoids_execRounds (ev : Evaluator) (c : ScopeRef) (condition update : Option Expr)
    (body : List Stmt) (n : Nat) : (ev.execRounds c condition update body n).Avoids .leave := by
  induction n with
  | zero => exact .unfinished
  | succ n ih =>
    refine .bind fun _ => .bind fun b => ?_
    cases b with
    | false => exact .pure nofun
    | true =>
      refine .bind fun flow => ?_
      cases flow with
      | next => exact .bind fun _ => ih
      | leave => exact .pure nofun
      | ret v => exact .pure nofun

/-- A switch takes what leaves its cases. -/
lemma avoids_execCase (ev : Evaluator) (c : ScopeRef) (body : Option (List Stmt)) :
    (ev.execCase c body).Avoids .leave := by
  cases body with
  | none => exact .pure nofun
  | some body =>
    refine .bind fun flow => ?_
    cases flow <;> exact .pure nofun

include h in
lemma avoids_execLoop {init : Option Stmt} (hinit : looseOption init = false) (c : ScopeRef)
    (condition update : Option Expr) (body : List Stmt) :
    (ev.execLoop c init condition update body).Avoids .leave := by
  have hrounds := avoids_execRounds ev c condition update body ev.rounds
  cases init with
  | none => exact hrounds
  | some s => exact .bind_flow (h s hinit c) hrounds fun v => .pure nofun

include h in
lemma avoids_execBranch {whenTrue : Stmt} {whenFalse : Option Stmt}
    (ht : whenTrue.loose = false) (hf : looseOption whenFalse = false) (c : ScopeRef)
    (condition : Expr) : (ev.execBranch c condition whenTrue whenFalse).Avoids .leave := by
  refine .bind fun v => ?_
  cases v.truth with
  | true => exact h whenTrue ht c
  | false =>
    cases whenFalse with
    | none => exact .pure nofun
    | some s => exact h s hf c

include h in
/-- A statement without a loose `break` does not leave, if its parts without one do not. -/
theorem avoids_execKind {kind : StmtKind} (hkind : kind.loose = false) (c : ScopeRef) :
    (ev.execKind c kind).Avoids .leave := by
  cases kind with
  | empty => exact .pure nofun
  | declare name value => exact .bind fun v => .bind fun _ => .pure nofun
  | function literal => exact .bind fun v => .pure nofun
  | ret value => exact .bind fun v => .pure nofun
  | block body => exact .bind fun d => avoids_execAll h hkind d
  | expr e => exact .bind fun v => .pure nofun
  | loop init condition update body =>
    exact .bind fun d => avoids_execLoop h hkind d condition update body
  | leave => cases hkind
  | branch condition whenTrue whenFalse =>
    obtain ⟨ht, hf⟩ := Bool.or_eq_false_iff.mp hkind
    exact avoids_execBranch h ht hf c condition
  | switch subject cases =>
    refine .bind fun v => .bind fun body => ?_
    cases body with
    | none => exact avoids_execCase ev c _
    | some body => exact avoids_execCase ev c _

/-- A statement without a loose `break` does not leave, at any level. -/
theorem avoids_level (σ : Setting) (n : Nat) {s : Stmt} (hs : s.loose = false) (c : ScopeRef) :
    ((level σ n).stmt s c).Avoids .leave := by
  induction n generalizing s c with
  | zero => exact .unfinished
  | succ n ih =>
    rw [level_succ]
    obtain ⟨span, kind⟩ := s
    exact .blame (.bind fun _ => avoids_execKind (fun s hs c => ih hs c) hs c) span

end Evaluator

end TreeWalk
