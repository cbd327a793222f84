/-
# Calls with as many arguments as parameters

The evaluators that refuse calls for the number of their arguments are those that do not, with a
gate in front of their calls: what does not pass the gate raises an alarm in place of the call, here
the refusal (`level_strict`).  An evaluation in which all calls pass comes to the same end whatever
the alarm is (`Interpreter.CallsMatch`), and so it does not matter to it whether such calls are
refused.  For the call of a function itself, arguments without a parameter may be left out and
missing ones given as nil (`arguments_normalised`).
-/
import TreeWalk.Proofs.CallFrames
import TreeWalk.Proofs.CallPolicy

namespace TreeWalk

/-- What is called is not a function with another number of parameters. -/
def Store.passes (st : Store) (f : Value) (args : List Value) : Bool :=
  match f with
  | .function r => (st.closure r).arity = args.length
  | _ => true

/-- The setting in which calls are refused for the number of their arguments. -/
def Setting.strict (σ : Setting) : Setting := { σ with config := { σ.config with arity := .strict } }

namespace Evaluator

/-- The evaluator with a gate in front of its calls. -/
def gated (ev : Evaluator) (alarm : Value → List Value → Action Value) : Evaluator :=
  { ev with
    invoke := fun f args s =>
      if s.store.passes f args then ev.invoke f args s else alarm f args s }

/-- The evaluator of level `n` with a gate in front of all calls. -/
def gatedLevel (σ : Setting) (alarm : Value → List Value → Action Value) : Nat → Evaluator
  | 0 => stuck
  | n + 1 => ((gatedLevel σ alarm n).above σ).gated alarm

/-! ### Refusal as an alarm -/

section

variable {σ : Setting} {f : Value} {args : List Value} {s : State}

/-- Calls that pass the gate are the same for both policies. -/
lemma enter_strict_of_passes (ev : Evaluator) (hlenient : σ.config.arity = .lenient)
    (h : s.store.passes f args) : ev.enter σ.strict f args s = ev.enter σ f args s := by
  cases f with
  | function r =>
    have hargs : (s.store.closure r).arity = args.length := of_decide_eq_true h
    rw [enter_function _ _ _ _ _ (.inr hargs), enter_function _ _ _ _ _ (.inl hlenient)]
    rfl
  | _ => rfl

/-- Calls that do not pass it are refused before anything below them is evaluated. -/
lemma enter_strict_of_not_passes (ev ev' : Evaluator) (h : ¬ s.store.passes f args) :
    ev.enter σ.strict f args s = ev'.enter σ.strict f args s := by
  cases f with
  | function r =>
    have hargs : (s.store.closure r).arity ≠ args.length := fun hargs => h (decide_eq_true hargs)
    rw [enter_refused _ _ _ _ _ rfl hargs, enter_refused _ _ _ _ _ rfl hargs]
  | _ => exact absurd rfl h

end

variable {σ : Setting}

lemma above_strict (ev : Evaluator) (hlenient : σ.config.arity = .lenient) :
    ev.above σ.strict = (ev.above σ).gated (stuck.enter σ.strict) := by
  have hinvoke : ev.enter σ.strict = fun f args s =>
      if s.store.passes f args then ev.enter σ f args s else stuck.enter σ.strict f args s := by
    funext f args s
    split
    · next h => exact enter_strict_of_passes ev hlenient h
    · next h => exact enter_strict_of_not_passes ev stuck h
  rw [above, hinvoke]
  rfl

/-- To refuse calls for the number of their arguments is to do so instead of calling. -/
theorem level_strict (hlenient : σ.config.arity = .lenient) (n : Nat) :
    level σ.strict n = gatedLevel σ (stuck.enter σ.strict) n := by
  induction n with
  | zero => rfl
  | succ n ih => rw [level_succ, above_strict _ hlenient, ih, gatedLevel]

/-! ### Other alarms -/

variable {ev ev' : Evaluator} {alarm alarm' : Value → List Value → Action Value}

lemma Below.gated (h : Below ev ev') (halarm : ∀ f args, Action.Le (alarm f args) (alarm' f args)) :
    Below (ev.gated alarm) (ev'.gated alarm') where
  rounds := h.rounds
  tick := h.tick
  expr := h.expr
  assign := h.assign
  stmt := h.stmt
  invoke f args s := by
    simp only [Evaluator.gated]
    split
    · exact h.invoke f args s
    · exact halarm f args s

lemma gatedLevel_mono (halarm : ∀ f args, Action.Le (alarm f args) (alarm' f args)) {n m : Nat}
    (hnm : n ≤ m) : Below (gatedLevel σ alarm n) (gatedLevel σ alarm' m) := by
  induction n generalizing m with
  | zero => exact .of_stuck _
  | succ n ih =>
    obtain ⟨m, rfl⟩ : ∃ k, m = k + 1 := ⟨m - 1, by omega⟩
    exact ((ih (by omega)).above σ).gated halarm

/-- An alarm that does not end is no more than the call. -/
lemma gatedLevel_below_level (n : Nat) :
    Below (gatedLevel σ (fun _ _ => Action.unfinished) n) (level σ n) := by
  induction n with
  | zero => exact .of_stuck _
  | succ n ih =>
    have h := ih.above σ
    rw [level_succ]
    refine { h with invoke := fun f args s => ?_ }
    show (if _ then _ else _) = _ ∨ (if _ then _ else _) = _
    split
    · exact h.invoke f args s
    · exact .inl rfl

/-- An alarm that makes the call is no less than the call. -/
lemma level_below_gatedLevel {n m : Nat} (hnm : n ≤ m) :
    Below (level σ n) (gatedLevel σ (level σ m).invoke n) := by
  induction n with
  | zero => exact .of_stuck _
  | succ n ih =>
    have h := (ih (by omega)).above σ
    rw [level_succ]
    refine { h with invoke := fun f args s => ?_ }
    show _ ∨ _ = if _ then _ else _
    split
    · exact h.invoke f args s
    · have hcall := (level_mono σ hnm).invoke f args s
      rwa [level_succ] at hcall

end Evaluator

namespace Interpreter

open Evaluator

variable {α : Type} {i : Interpreter} {st : Store} {task : Evaluator → Action α} {o o' : Outcome α}
variable {alarm alarm' : Value → List Value → Action Value}

/-- A task ends with the outcome `o` when an alarm is raised in place of each call of a function
with another number of arguments than it has parameters. -/
def EndsGated (i : Interpreter) (alarm : Value → List Value → Action Value) (st : Store)
    (task : Evaluator → Action α) (o : Outcome α) : Prop :=
  o ≠ .unfinished ∧ ∃ n, task (gatedLevel i.toSetting alarm n) (i.start st) = o

/-- All functions that the task calls are called with as many arguments as they have parameters: it
comes to the same end, if to any, whatever the alarm is that would be raised in place of another
call. -/
def CallsMatch (i : Interpreter) (st : Store) (task : Evaluator → Action α) : Prop :=
  ∀ alarm alarm' o, i.EndsGated alarm st task o → i.EndsGated alarm' st task o

section

variable (htask : Growing task)
include htask

lemma EndsGated.unique (h : i.EndsGated alarm st task o) (h' : i.EndsGated alarm st task o') :
    o = o' := by
  obtain ⟨ho, n, rfl⟩ := h
  obtain ⟨ho', m, rfl⟩ := h'
  exact Outcome.eq_of_growing (x := fun n => task (gatedLevel i.toSetting alarm n) (i.start st))
    (fun hnm => (htask (gatedLevel_mono (fun _ _ => .refl _) hnm)).eq) ho ho'

/-- It is enough that the task ends although no other call would. -/
lemma callsMatch_of_ends (h : i.EndsGated (fun _ _ => Action.unfinished) st task o) :
    i.CallsMatch st task := by
  have hgated : ∀ alarm, i.EndsGated alarm st task o := fun alarm => by
    obtain ⟨ho, n, rfl⟩ := h
    exact ⟨ho, n, (htask (gatedLevel_mono (fun _ _ => Action.unfinished_le _) le_rfl)).eq ho⟩
  intro alarm alarm' o' h'
  obtain rfl := EndsGated.unique htask (hgated alarm) h'
  exact hgated alarm'

/-- A task whose calls match ends with any alarm as it does without a gate. -/
lemma CallsMatch.endsGated_iff (h : i.CallsMatch st task) (alarm : Value → List Value → Action Value)
    (o : Outcome α) : i.EndsGated alarm st task o ↔ i.Ends st task o := by
  constructor
  · intro h'
    obtain ⟨ho, n, rfl⟩ := h alarm (fun _ _ => Action.unfinished) o h'
    exact ⟨ho, n, (htask (gatedLevel_below_level n)).eq ho⟩
  · rintro ⟨ho, n, rfl⟩
    exact h _ alarm _ ⟨ho, n, (htask (level_below_gatedLevel le_rfl)).eq ho⟩

end

/-- Calls that match are not refused for the number of their arguments. -/
lemma CallsMatch.ends_strict_iff (htask : Growing task) (h : i.CallsMatch st task)
    (hlenient : i.config.arity = .lenient) (o : Outcome α) :
    (i.withConfig { i.config with arity := .strict }).Ends st task o ↔ i.Ends st task o := by
  rw [← h.endsGated_iff htask (stuck.enter i.toSetting.strict) o]
  have hlevel : ∀ n, level (i.withConfig { i.config with arity := .strict }).toSetting n =
      gatedLevel i.toSetting (stuck.enter i.toSetting.strict) n := level_strict hlenient
  simp only [Ends, EndsGated, hlevel]
  rfl

/-- At every level, a function that does not refuse its arguments executes its body in a new scope
that binds its parameters and nothing else; one that refuses them fails, before that scope binds
anything, with an error that names both numbers.  Where none are refused, the call ends as the one
with as many arguments as parameters does, for which further ones are left out and missing ones are
nil; and where the functions called in it do not refuse theirs, as that one does under the strict
policy. -/
theorem arguments_normalised (i : Interpreter) (st : Store) (r : FunctionRef)
    (args : List Value) :
    let f := st.closure r
    let normal := args.takeD f.arity .nil
    (i.config.arity = .lenient ∨ f.arity = args.length →
      ∃ symbols : Table, Binds symbols f.literal.params args ∧ ∀ n,
        (level i.toSetting (n + 1)).call (.function r) args (i.start st) =
          Action.limited i.config.maxCallDepth (do
            Action.update fun st => st.withScope { symbols, parent := some f.env }
            (level i.toSetting n).answer ⟨st.scopes.size⟩ f.literal.body) (i.start st)) ∧
    (i.config.arity = .strict → f.arity ≠ args.length →
      ∃ fault : Fault, fault.kind = .typeError ∧
        fault.message = f.text ++ " expects " ++ Nat.repr f.arity ++ " arguments, got " ++
          Nat.repr args.length ∧ ∀ n,
        (level i.toSetting (n + 1)).call (.function r) args (i.start st) =
          Action.limited i.config.maxCallDepth (do
            Action.update fun st => st.withScope { parent := some f.env }
            Action.raise fault) (i.start st)) ∧
    (i.config.arity = .lenient →
      (∀ o, i.Ends st (fun ev => ev.call (.function r) args) o ↔
        i.Ends st (fun ev => ev.call (.function r) normal) o) ∧
      (i.CallsMatch st (fun ev => ev.call (.function r) normal) →
        ∀ o, i.Ends st (fun ev => ev.call (.function r) args) o ↔
          (i.withConfig { i.config with arity := .strict }).Ends st
            (fun ev => ev.call (.function r) normal) o)) := by
  intro f normal
  have hgrowing : Growing fun ev => ev.call (.function r) normal := fun _ _ h => h.call _ _
  have hnormal : i.config.arity = .lenient → ∀ o,
      i.Ends st (fun ev => ev.call (.function r) args) o ↔
        i.Ends st (fun ev => ev.call (.function r) normal) o := by
    intro hlenient o
    have hlevel : ∀ n, (level i.toSetting n).call (.function r) args (i.start st) =
        (level i.toSetting n).call (.function r) normal (i.start st) := by
      intro n
      cases n with
      | zero => rfl
      | succ n => exact ((level i.toSetting n).enter_takeD _ r args (i.start st) hlenient).symm
    simp only [Ends, hlevel]
  refine ⟨fun h => ⟨_, Table.binds_bindAll f.literal.params args, fun n => ?_⟩,
    fun hstrict hargs => ⟨.argumentCount f.text f.arity args.length, rfl, rfl, fun n => ?_⟩,
    fun hlenient => ⟨hnormal hlenient, fun hmatch o => ?_⟩⟩
  · exact (level i.toSetting n).enter_function _ r args (i.start st) h
  · exact (level i.toSetting n).enter_refused _ r args (i.start st) hstrict hargs
  · rw [hnormal hlenient, hmatch.ends_strict_iff hgrowing hlenient]

/-- A function with a repeated parameter gets two arguments for three positions, so that the repeated
name is nil in the frame, and passes it to another function. -/
theorem arguments_normalised_repeated :
    let name (s : String) : Expr := .synthetic (.identifier s)
    let inner : FunctionLit := ⟨none, ["x"], [.synthetic (.ret (some (name "x")))]⟩
    let outer : FunctionLit := ⟨none, ["a", "b", "a"],
      [.synthetic (.ret (some (.synthetic (.call (name "g") [name "a"]))))]⟩
    let i := (Interpreter.create {} {}).1
    let st := (((Interpreter.create {} {}).2.newClosure ⟨inner, i.globals⟩).2.define i.globals "g"
      (.function ⟨0⟩)).newClosure ⟨outer, i.globals⟩
    let f : Value := .function st.1
    i.CallsMatch st.2 (fun ev => ev.call f [.number 1, .number 2, .nil]) ∧
      (∃ symbols, Binds symbols outer.params [.number 1, .number 2] ∧
        symbols["a"]? = some .nil ∧ symbols["b"]? = some (.number 2)) ∧
      ∃ s, i.Ends st.2 (fun ev => ev.call f [.number 1, .number 2]) (.value .nil s) ∧
        (i.withConfig { i.config with arity := .strict }).Ends st.2
          (fun ev => ev.call f [.number 1, .number 2, .nil]) (.value .nil s) := by
  intro name inner outer i st f
  obtain ⟨hframe, -, hlenient⟩ := arguments_normalised i st.2 st.1 [.number 1, .number 2]
  obtain ⟨symbols, hsymbols, -⟩ := hframe (.inl rfl)
  obtain ⟨-, hstrict⟩ := hlenient rfl
  have hgrowing : Growing fun ev => ev.call f [.number 1, .number 2, .nil] := fun _ _ h =>
    h.call _ _
  have hmatch : i.CallsMatch st.2 (fun ev => ev.call f [.number 1, .number 2, .nil]) := by
    have hpasses : ((gatedLevel i.toSetting (fun _ _ => Action.unfinished) 6).call f
        [.number 1, .number 2, .nil] (i.start st.2)).passes (fun _ _ => true) = true := by
      decide +kernel
    refine callsMatch_of_ends hgrowing ⟨fun h => ?_, 6, rfl⟩
    have hend := hpasses.symm.trans (congrArg (Outcome.passes fun _ _ => true) h)
    cases hend
  obtain ⟨v, s, hcall, hv⟩ := Ends.of_passes i st.2
    (fun ev => ev.call f [.number 1, .number 2]) (fun v _ => decide (v = .nil)) 6
    (by decide +kernel)
  obtain rfl : v = .nil := of_decide_eq_true hv
  exact ⟨hmatch, ⟨symbols, hsymbols, hsymbols.last 2 "a" rfl (by decide),
    hsymbols.last 1 "b" rfl (by decide)⟩, s, hcall, (hstrict hmatch _).mp hcall⟩

end Interpreter

end TreeWalk
