/-
# Builtins that do not call back

All builtins but `apply` and `attempt` do their work without the evaluator (`runNative_eq_stuck`),
and what they do is primitive, but for the one that looks at the number of steps
(`Primitive.runNative`).
-/
import TreeWalk.Proofs.Primitives

namespace TreeWalk

/-- The builtin calls back into the evaluator. -/
def Native.CallsBack (n : Native) : Prop := n = .apply ∨ n = .attempt

instance (n : Native) : Decidable n.CallsBack := inferInstanceAs (Decidable (_ ∨ _))

/-- A builtin that does not call back does the same with every evaluator. -/
lemma Evaluator.runNative_eq_stuck {n : Native} (h : ¬ n.CallsBack) (ev : Evaluator)
    (g : ScopeRef) (args : List Value) : ev.runNative g n args = stuck.runNative g n args := by
  cases n with
  | apply => exact absurd (.inl rfl) h
  | attempt => exact absurd (.inr rfl) h
  | _ => rfl

/-- What is answered about the end of a call that was attempted. -/
def Evaluator.reported : Except EvalError Value → Action Value
  | .ok v => arrayOf #[.bool true, v]
  | .error e =>
    let position := match e.span with
      | some span => Value.string span.text
      | none => .nil
    arrayOf #[.bool false, .string e.kind.title, .string e.message, position]

namespace Region

open Evaluator

variable {R : Region} {B : ScopeRef → String → Prop} {w : Store}

/-! ### What builtins read -/

section

variable {st st' : Store} (ρ : Recoding)

lemma lengthOf_recode (v : Value) : lengthOf (st.recode ρ) v = lengthOf st v := by
  cases v <;> rfl

lemma arityOf_recode (v : Value) : arityOf (st.recode ρ) v = arityOf st v := by
  cases v with
  | function r =>
    simp only [arityOf, Store.closure_recode]
    rfl
  | _ => rfl

lemma nameOf_recode (v : Value) : nameOf (st.recode ρ) v = nameOf st v := by
  cases v with
  | function r =>
    simp only [nameOf, Store.closure_recode]
    rfl
  | _ => rfl

/-- A value that holds no reference. -/
lemma inside_lengthOf (v : Value) : R.Inside st (lengthOf st v) := by
  cases v <;> exact inside_of_node?_eq_none rfl

lemma inside_arityOf (v : Value) : R.Inside st (arityOf st v) := by
  cases v <;> exact inside_of_node?_eq_none rfl

lemma inside_nameOf (v : Value) : R.Inside st (nameOf st v) := by
  unfold nameOf
  split
  · split <;> exact inside_of_node?_eq_none rfl
  · exact inside_of_node?_eq_none rfl
  · exact inside_of_node?_eq_none rfl

variable (h : R.Agree st st')
include h

lemma Agree.lengthOf {v : Value} (hv : R.Inside st v) : lengthOf st v = lengthOf st' v := by
  cases v with
  | object r => simp only [Evaluator.lengthOf, (h.object (hv.has rfl)).size_eq]
  | array r => simp only [Evaluator.lengthOf, h.array (hv.has rfl)]
  | _ => rfl

lemma Agree.arityOf {v : Value} (hv : R.Inside st v) : arityOf st v = arityOf st' v := by
  cases v with
  | function r => simp only [Evaluator.arityOf, h.closure (hv.has rfl)]
  | _ => rfl

lemma Agree.nameOf {v : Value} (hv : R.Inside st v) : nameOf st v = nameOf st' v := by
  cases v with
  | function r => simp only [Evaluator.nameOf, h.closure (hv.has rfl)]
  | builtin r => simp only [Evaluator.nameOf, h.builtin (hv.has rfl)]
  | _ => rfl

end

namespace Primitive

/-! ### Arguments -/

lemma stringArgument (v : Value) : R.Primitive B w (Evaluator.stringArgument v) := by
  unfold Evaluator.stringArgument
  split
  · exact pure trivial
  · exact raise trivial

lemma faultOf (h : R.allows .fail ∨ R.allows .failAt) (kind message : Value) :
    R.Primitive B w (Evaluator.faultOf kind message) := by
  refine (stringArgument kind).bind fun w' _ title _ => ?_
  cases ErrorKind.ofTitle? title with
  | some k => exact (stringArgument message).bind fun _ _ _ _ => pure h
  | none => exact raise trivial

/-! ### Containers -/

lemma copyOf {v : Value} (hv : R.Inside w v) : R.Primitive B w (Evaluator.copyOf v) := by
  unfold Evaluator.copyOf
  split
  · next r =>
    have hr : R.Inside w r := hv.has rfl
    -- the entries are read and put into the new object in one go, since two stores that agree may
    -- have them in tables that came about in different ways
    exact bind (p := Action.create fun st => st.newObject (st.object r))
      (newObject (fun _ hw hst => hst.object (hr.mono hw))
        (fun _ _ hw _ ha => ha.object (hr.mono hw)) fun _ _ => rfl)
      fun _ _ _ hq => pure (inside_of_node? rfl hq)
  · next r =>
    have hr : R.Inside w r := hv.has rfl
    refine (read (f := fun st => st.array r) (fun _ hw hst => hst.array (hr.mono hw))
      (fun _ _ hw _ ha => ha.array (hr.mono hw)) fun _ _ => rfl).bind fun w' _ items hi => ?_
    exact (newArray hi).bind fun _ _ _ hq => pure (inside_of_node? rfl hq)
  · exact pure hv

lemma keysOf {v : Value} (hv : R.Inside w v) : R.Primitive B w (Evaluator.keysOf v) := by
  unfold Evaluator.keysOf
  split
  · next r =>
    have hr : R.Inside w r := hv.has rfl
    refine (read (f := fun st => (st.object r).keys) (fun _ _ _ _ _ => trivial)
      (fun _ _ hw _ ha => (ha.object (hr.mono hw)).keys_eq) fun _ _ => rfl).bind
        fun w' _ keys _ => ?_
    refine arrayOf fun v hv => ?_
    obtain ⟨k, -, rfl⟩ := List.mem_map.mp (List.mem_toArray.mp hv)
    exact inside_of_node?_eq_none rfl
  · exact pure (inside_of_node?_eq_none rfl)

lemma hasKey {v : Value} (hv : R.Inside w v) (key : Value) :
    R.Primitive B w (Evaluator.hasKey v key) := by
  unfold Evaluator.hasKey
  split
  · next r =>
    have hr : R.Inside w r := hv.has rfl
    refine (stringArgument key).bind fun w' hw k _ => ?_
    refine (read (f := fun st => (st.object r).contains k) (fun _ _ _ => trivial)
      (fun _ _ hw' _ ha => (ha.object (hr.mono (hw.trans hw'))).contains_eq) fun _ _ => rfl).bind ?_
    exact fun _ _ _ _ => pure (inside_of_node?_eq_none rfl)
  · exact pure (inside_of_node?_eq_none rfl)

lemma pushTo (h : R.allows .push) {v item : Value} (hv : R.Inside w v) (hi : R.Inside w item) :
    R.Primitive B w (Evaluator.pushTo v item) := by
  unfold Evaluator.pushTo
  split
  · next r =>
    exact (pushElement h (hv.has rfl) hi).bind fun _ hw _ _ => pure (hv.mono hw)
  · exact raise trivial

/-! ### The builtins -/

/-- The array that tells how an attempted call has ended. -/
lemma reported {r : Except EvalError Value} (hr : R.Inside w r) : R.Primitive B w (reported r) := by
  have scalar : ∀ {v : Value}, v.node? = none → R.Inside w v := inside_of_node?_eq_none
  cases r with
  | ok v =>
    refine .arrayOf fun x hx => ?_
    simp only [List.mem_toArray, List.mem_cons, List.not_mem_nil, or_false] at hx
    rcases hx with rfl | rfl
    · exact scalar rfl
    · exact hr.1 _ rfl
  | error e =>
    refine .arrayOf fun x hx => ?_
    simp only [List.mem_toArray, List.mem_cons, List.not_mem_nil, or_false] at hx
    rcases hx with rfl | rfl | rfl | rfl
    · exact scalar rfl
    · exact scalar rfl
    · exact scalar rfl
    · cases e.span <;> exact scalar rfl

/-- What a builtin does that neither calls back nor looks at the number of steps. -/
lemma runNative {n : Native} (hn : ¬ n.CallsBack) (hsteps : n ≠ .steps) (hallows : R.allows n)
    {g : ScopeRef} (hg : R.Inside w g) (hbind : n = .defineGlobal → ∀ name, B g name)
    {args : List Value} (ha : R.Inside w args) (ev : Evaluator) :
    R.Primitive B w (ev.runNative g n args) := by
  have ha₀ : R.Inside w (args.getD 0 .nil) := inside_getD ha 0
  have ha₁ : R.Inside w (args.getD 1 .nil) := inside_getD ha 1
  have scalar : ∀ {v : Value}, v.node? = none → R.Inside w v := inside_of_node?_eq_none
  cases n with
  | apply => exact absurd (.inl rfl) hn
  | attempt => exact absurd (.inr rfl) hn
  | sum => exact pure (scalar rfl)
  | collect => exact arrayOf fun v hv => ha v (List.mem_toArray.mp hv)
  | identity => exact pure ha₀
  | «variable» =>
    refine pure ?_
    cases args.getD 0 .nil <;> exact scalar rfl
  | resolve => exact resolve hg ha₀
  | typeName => exact pure (scalar rfl)
  | text =>
    exact (readText ha₀).bind fun _ _ _ _ => pure (inside_of_node?_eq_none rfl)
  | debug =>
    exact (read (f := fun st => st.debugText _) (fun _ _ _ => trivial)
      (fun _ _ hw hst h => h.debugText hst (ha₀.mono hw))
      fun ρ st => st.debugText_recode ρ _).bind
        fun _ _ _ _ => pure (inside_of_node?_eq_none rfl)
  | truth => exact pure (scalar rfl)
  | same => exact pure (scalar rfl)
  | length =>
    exact read (fun _ _ _ => inside_lengthOf _) (fun _ _ hw _ h => h.lengthOf (ha₀.mono hw))
      fun ρ _ => lengthOf_recode ρ _
  | push => exact pushTo hallows ha₀ ha₁
  | keys => exact keysOf ha₀
  | has => exact hasKey ha₀ _
  | copy => exact copyOf ha₀
  | arity =>
    exact read (fun _ _ _ => inside_arityOf _) (fun _ _ hw _ h => h.arityOf (ha₀.mono hw))
      fun ρ _ => arityOf_recode ρ _
  | name =>
    exact read (fun _ _ _ => inside_nameOf _) (fun _ _ hw _ h => h.nameOf (ha₀.mono hw))
      fun ρ _ => nameOf_recode ρ _
  | getGlobal =>
    exact (stringArgument _).bind fun _ hw name _ => globalOf (hg.mono hw) name
  | defineGlobal =>
    refine (stringArgument _).bind fun _ hw name _ => ?_
    exact (define (hg.mono hw) name (ha₁.mono hw) (hbind rfl name)).bind
      fun _ _ _ _ => pure (inside_of_node?_eq_none rfl)
  | setGlobal =>
    refine (stringArgument _).bind fun _ hw name _ => ?_
    exact (assign (hg.mono hw) name (ha₁.mono hw)).bind
      fun _ _ _ _ => pure (inside_of_node?_eq_none rfl)
  | steps => exact absurd rfl hsteps
  | fail => exact (faultOf (.inl hallows) _ _).bind fun _ _ _ hfault => raise hfault
  | failAt =>
    exact (faultOf (.inr hallows) _ _).bind fun _ _ _ hfault => .blame hallows (raise hfault) _

end Primitive

end Region

end TreeWalk
