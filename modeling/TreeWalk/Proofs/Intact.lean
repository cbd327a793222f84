/-
# Intact stores

In the store of a host no reference leads nowhere.  The store that is empty is such a store, and the
making of interpreters and builtins and the running of programs keep it one (`run_intact`).  In an
intact store all cells together are a region.
-/
import TreeWalk.Proofs.Ending
import TreeWalk.Proofs.Law.Sounds
import TreeWalk.Proofs.Spanned

namespace TreeWalk

namespace Store

/-- No reference in the store leads to a cell that does not exist. -/
def Intact (st : Store) : Prop := ∀ n m, st.Has n → (st.cell n).Refers m → st.Has m

lemma intact_empty : Intact {} := fun n _ hn => by cases n <;> cases hn

lemma Intact.of_makes {st st' : Store} (h : st.Intact) {n₀ : Node} {x : Cell}
    (hmakes : st.Makes n₀ x st') (hx : ∀ m, x.Refers m → st.Has m) : st'.Intact := by
  intro n m hn hm
  refine has_of_le hmakes.le ?_
  by_cases hne : n = n₀
  · rw [hne, hmakes.cell] at hm
    exact hx m hm
  · rw [hmakes.cell_ne n hne] at hm
    exact h n m (((hmakes.has n).mp hn).resolve_right hne) hm

lemma Intact.of_edits {st st' : Store} (h : st.Intact) {n₀ : Node} {e : Edit}
    (hedits : st.Edits n₀ e st') (he : ∀ m, e.value.node? = some m → st.Has m) : st'.Intact := by
  intro n m hn hm
  rw [hedits.has] at hn ⊢
  by_cases hne : n = n₀
  · subst hne
    rw [hedits.cell hn] at hm
    exact (Edit.refers_apply hm).elim (h n m hn) (he m)
  · rw [hedits.cell_ne n hne] at hm
    exact h n m hn hm

lemma Intact.newBuiltin {st : Store} (h : st.Intact) (b : Builtin) :
    (st.newBuiltin b).2.Intact := by
  have hgrows : ∀ m, st.Has m → (st.newBuiltin b).2.Has m := by
    intro m hm
    cases m with
    | builtin r => exact Nat.lt_of_lt_of_eq (Nat.lt_succ_of_lt hm) (Heap.size_push _ _).symm
    | _ => exact hm
  intro n m hn hm
  cases n with
  | scope c => exact hgrows m (h (.scope c) m hn hm)
  | object r => exact hgrows m (h (.object r) m hn hm)
  | array r => exact hgrows m (h (.array r) m hn hm)
  | function r => exact hgrows m (h (.function r) m hn hm)
  | builtin r => cases hm

/-- A function that is bound in the scope it was made in. -/
lemma Intact.defineFunction {st : Store} (h : st.Intact) {c : ScopeRef} (hc : st.Has (.scope c))
    (l : FunctionLit) (name : String) :
    ((st.newClosure ⟨l, c⟩).2.define c name (.function (st.newClosure ⟨l, c⟩).1)).Intact := by
  have hmakes := st.makes_newClosure ⟨l, c⟩
  refine (h.of_makes hmakes fun m hm => ?_).of_edits (Store.edits_define _ _ _ _) fun m hm => ?_
  · cases hm
    exact hc
  · cases hm
    exact (hmakes.has _).mpr (.inr rfl)

/-- Where there are no builtins none can be reached. -/
lemma Intact.not_reaches_builtin {st : Store} (h : st.Intact) (hsize : st.builtins.size = 0)
    {n : Node} (hn : st.Has n) (r : BuiltinRef) : ¬ st.Reaches n (.builtin r) := by
  intro hr
  have hhas : st.Has (.builtin r) := hr.of_closed (S := fun n => st.Has n) h hn
  have hlt : r.index < st.builtins.size := hhas
  rw [hsize] at hlt
  exact Nat.not_lt_zero _ hlt

end Store

/-- The making of an interpreter keeps a store intact. -/
lemma Interpreter.intact_create {st : Store} (h : st.Intact) (config : Config) :
    (create config st).2.Intact := by
  refine h.of_makes (st.makes_newScope none) fun m hm => ?_
  cases hm with
  | parent hp => cases hp
  | binding hb => simp at hb

/-- The making of a builtin keeps a store intact. -/
lemma Interpreter.intact_defineBuiltin (i : Interpreter) {st : Store} (h : st.Intact)
    (b : Builtin) : (i.defineBuiltin st b).Intact := by
  refine (h.newBuiltin b).of_edits (Store.edits_define _ _ _ _) fun m hm => ?_
  cases hm
  exact Nat.lt_of_lt_of_eq (Nat.lt_succ_self _) (Heap.size_push _ _).symm

namespace Region

/-- The region of all cells of a store. -/
def whole (st : Store) (h : st.Intact) : Region where
  base := st
  start := {n | st.Has n}
  allows n := ∃ r, st.Has (.builtin r) ∧ (st.builtin r).native = n
  closed hn hm := h _ _ hn hm
  native hr := ⟨_, hr, rfl⟩

variable {st : Store} {h : st.Intact}

lemma has_whole {st' : Store} (hle : st ≤ st') {n : Node} :
    (whole st h).Has st' n ↔ st'.Has n := by
  constructor
  · rintro (hn | ⟨-, hn⟩)
    · exact Store.has_of_le hle hn
    · exact hn
  · intro hn
    by_cases hold : st.Has n
    · exact .inl hold
    · exact .inr ⟨hold, hn⟩

lemma grounded_whole (hchains : ∀ c, st.Has (.scope c) → st.Rooted c) :
    (whole st h).Grounded st := by
  intro c hc
  have hhas : st.Has (.scope c) := has_base.mp hc
  exact ⟨hhas, hchains c hhas⟩

end Region

open Region

/-- A program leaves an intact store intact, and its chains of scopes go on to end. -/
theorem run_intact (i : Interpreter) {st : Store} (hst : st.Intact)
    (hchains : ∀ c, st.Has (.scope c) → st.Rooted c) (hglobals : st.Has (.scope i.globals))
    {program : List Stmt} {o : Outcome Value} {s : State}
    (h : i.Ends st (fun ev => ev.runFrom i.globals .nil program) o) (hs : o.EndsIn s) :
    s.store.Intact ∧ ∀ c, s.store.Has (.scope c) → s.store.Rooted c := by
  obtain ⟨-, n, rfl⟩ := h
  have hnil : (whole st hst).Inside st Value.nil := inside_of_node?_eq_none rfl
  have hsound : (whole st hst).Sound st
      ((Evaluator.level i.toSetting n).runFrom i.globals .nil program) :=
    (Law.sounds_level (R := whole st hst) (σ := i.toSetting) (fun _ => hglobals) n).runFrom
      (.inl hglobals) hnil program
  -- all cells together are a region, so that nothing is lost by staying inside of it
  have run := (hsound (i.start st) ⟨le_rfl, valid_base _⟩).run hs
  have hhas : ∀ n, (whole st hst).Has s.store n ↔ s.store.Has n := fun n => has_whole run.le
  refine ⟨fun n m hn hm => ?_, fun c hc => ?_⟩
  · exact (hhas m).mp (run.valid.closed n m ((hhas n).mpr hn) hm)
  · exact (run.grounded (grounded_whole hchains) c ((hhas _).mpr hc)).2

end TreeWalk
