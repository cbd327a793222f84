/-
# Identity of values

Two values are identical if they are the same scalar, refer to the same cell or name the same
binding (`Value.same`).  This is what a switch selects by, and it knows values of every kind.  The
operators `==` and `!=` have a table of their own, which knows five of the nine kinds: where they
have a meaning it is identity and its negation, and elsewhere both fail alike
(`equality_operators`).
-/
import Mathlib.Tactic.Lemma
import TreeWalk.Evaluator.Builtins

namespace TreeWalk

namespace Value

/-- Whether two values are identical.  Containers and what can be called are compared by the cells
that they refer to, whatever these hold; values of different kinds are never identical. -/
def same : Value → Value → Bool
  | .nil, .nil => true
  | .bool a, .bool b => a == b
  | .number a, .number b => a == b
  | .string a, .string b => a == b
  | .object r, .object q => r = q
  | .array r, .array q => r = q
  | .function r, .function q => r = q
  | .builtin r, .builtin q => r = q
  | .variable a, .variable b => a == b
  | _, _ => false

/-- The values are of one kind, and it is one of those that the operators of equality know. -/
def Comparable (l r : Value) : Prop :=
  l.typeName = r.typeName ∧ l.typeName ∈ ["nil", "boolean", "number", "string", "builtin"]

variable {l r : Value}

/-- There is only one value for each scalar, cell or name of a kind. -/
theorem same_iff_eq : l.same r = true ↔ l = r := by
  cases l <;> cases r <;> simp [same]

theorem same_equivalence : Equivalence fun l r : Value => l.same r = true where
  refl _ := same_iff_eq.mpr rfl
  symm h := same_iff_eq.mpr (same_iff_eq.mp h).symm
  trans h h' := same_iff_eq.mpr ((same_iff_eq.mp h).trans (same_iff_eq.mp h'))

lemma comparable_comm : l.Comparable r ↔ r.Comparable l := by
  unfold Comparable
  constructor <;> exact fun h => ⟨h.1.symm, h.1 ▸ h.2⟩

end Value

namespace BinaryOp

variable {op : BinaryOp} {l r : Value}

/-- Where the operators of equality have a meaning they compare by identity. -/
lemma apply_of_comparable (h : l.Comparable r) :
    eq.apply l r = .ok (.bool (l.same r)) ∧ ne.apply l r = .ok (.bool !(l.same r)) := by
  unfold Value.Comparable at h
  cases l <;> cases r <;> simp [Value.typeName] at h <;>
    simp [apply, applyNumbers, compare, Value.same, bne]

/-- Values that the operators of equality do not know are not compared. -/
lemma apply_of_not_comparable (h : ¬ l.Comparable r) :
    op.apply l r = .error .unknownOperands := by
  unfold Value.Comparable at h
  cases l <;> cases r <;> simp [Value.typeName] at h <;> rfl

end BinaryOp

namespace Evaluator

/-- The test of a case matches the subject if the two are identical. -/
lemma firstMatch_test (ev : Evaluator) (c : ScopeRef) (subject : Value) (test : Expr)
    (body : List Stmt) (rest : List Case) :
    ev.firstMatch c subject (⟨some test, body⟩ :: rest) = (do
      if (← ev.expr test c).same subject then return some body
      else ev.firstMatch c subject rest) := by
  simp only [firstMatch, Value.same_iff_eq]

end Evaluator

/-- Identity is an equivalence of all values, and what is identical is of one kind, has one truth
and one text and is the same as data, in every store; it is what the tests of a switch are compared
by.  The operators `==` and `!=` both have a value if the operands are of one kind among nil,
booleans, numbers, strings and builtins, and not otherwise: then the one tells whether they are
identical and the other whether they are not, and otherwise both fail with the same error, in either
order of the operands. -/
theorem equality_operators :
    (Equivalence fun l r : Value => l.same r = true) ∧
    (∀ l r : Value, l.same r = true → l.typeName = r.typeName ∧ l.truth = r.truth ∧
      ∀ st : Store, st.text l = st.text r ∧ st.json l = st.json r) ∧
    (∀ (ev : Evaluator) c subject test body rest,
      ev.firstMatch c subject (⟨some test, body⟩ :: rest) = (do
        if (← ev.expr test c).same subject then return some body
        else ev.firstMatch c subject rest)) ∧
    ∀ l r : Value,
      ((∃ v, BinaryOp.eq.apply l r = .ok v) ↔ l.Comparable r) ∧
      ((∃ v, BinaryOp.ne.apply l r = .ok v) ↔ l.Comparable r) ∧
      (l.Comparable r → BinaryOp.eq.apply l r = .ok (.bool (l.same r)) ∧
        BinaryOp.ne.apply l r = .ok (.bool !(l.same r))) ∧
      (¬ l.Comparable r → ∀ op : BinaryOp, op = .eq ∨ op = .ne →
        op.apply l r = .error .unknownOperands ∧ op.apply r l = .error .unknownOperands) := by
  refine ⟨Value.same_equivalence, fun l r h => ?_, Evaluator.firstMatch_test, fun l r => ?_⟩
  · obtain rfl := Value.same_iff_eq.mp h
    exact ⟨rfl, rfl, fun st => ⟨rfl, rfl⟩⟩
  · have hdefined {op : BinaryOp} {v : Value} (hop : l.Comparable r → op.apply l r = .ok v) :
        (∃ v, op.apply l r = .ok v) ↔ l.Comparable r := by
      refine ⟨fun ⟨w, hw⟩ => ?_, fun h => ⟨v, hop h⟩⟩
      by_cases h : l.Comparable r
      · exact h
      · rw [BinaryOp.apply_of_not_comparable h] at hw
        cases hw
    refine ⟨hdefined fun h => (BinaryOp.apply_of_comparable h).1,
      hdefined fun h => (BinaryOp.apply_of_comparable h).2, BinaryOp.apply_of_comparable,
      fun h op _ => ⟨BinaryOp.apply_of_not_comparable h, ?_⟩⟩
    exact BinaryOp.apply_of_not_comparable (mt Value.comparable_comm.mp h)

/-- Two builtins with one name and one behaviour are not identical, as the operators say; an array
is identical to itself, but cannot be compared with the operators. -/
theorem equality_operators_cells :
    let st := (((({} : Store).newBuiltin ⟨"f", .identity⟩).2.newBuiltin ⟨"f", .identity⟩).2.newArray
      #[]).2
    let f : Value := .builtin ⟨0⟩
    let g : Value := .builtin ⟨1⟩
    let a : Value := .array ⟨0⟩
    st.text f = st.text g ∧ f.Comparable g ∧ f.same g = false ∧
      BinaryOp.eq.apply f g = .ok (.bool false) ∧ BinaryOp.ne.apply f g = .ok (.bool true) ∧
      a.same a = true ∧ ¬ a.Comparable a ∧ BinaryOp.eq.apply a a = .error .unknownOperands := by
  intro st f g a
  have hcomparable : f.Comparable g := ⟨rfl, by decide⟩
  have hno : ¬ a.Comparable a := fun h => absurd h.2 (by decide)
  obtain ⟨-, -, -, hlaws⟩ := equality_operators
  obtain ⟨-, -, hvalues, -⟩ := hlaws f g
  obtain ⟨-, -, -, hfails⟩ := hlaws a a
  exact ⟨rfl, hcomparable, rfl, (hvalues hcomparable).1, (hvalues hcomparable).2, rfl, hno,
    (hfails hno .eq (.inl rfl)).1⟩

end TreeWalk
