/-
# Operators on values

The tables of the operators that evaluate all their operands first.  What an operator does is a
function of the values of its operands and never of the store.
-/
import TreeWalk.Fault
import TreeWalk.Number
import TreeWalk.Value

namespace TreeWalk

/-- The value of an operator with one operand. -/
def UnaryOp.apply (op : UnaryOp) (v : Value) : Except Fault Value :=
  match op, v with
  | .not, v => .ok (.bool !v.truth)
  | .plus, .number n => .ok (.number n)
  | .neg, .number n => .ok (.number (-n))
  | .complement, .number n => .ok (.number (~~~n))
  | op, _ => .error (.badOperand op)

/-- The number next to `n`, with wrap-around. -/
def StepOp.apply : StepOp → Int64 → Int64
  | .increment, n => n + 1
  | .decrement, n => n - 1

namespace BinaryOp

/-- The value of an operator between two numbers. -/
def applyNumbers (op : BinaryOp) (a b : Int64) : Except Fault Value :=
  match op with
  | .add => .ok (.number (a + b))
  | .sub => .ok (.number (a - b))
  | .mul => .ok (.number (a * b))
  | .div => if b = 0 then .error .divideByZero else .ok (.number (a / b))
  | .rem => if b = 0 then .error .moduloByZero else .ok (.number (a % b))
  | .pow =>
    if b < 0 then .error .negativeExponent
    else .ok (.number (Number.pow a b.toUInt64.toNat))
  | .shl => .ok (.number (Number.shiftLeft a b))
  | .shr => .ok (.number (Number.shiftRight a b))
  | .bitAnd => .ok (.number (a &&& b))
  | .bitOr => .ok (.number (a ||| b))
  | .bitXor => .ok (.number (a ^^^ b))
  | .bitClear => .ok (.number (a &&& ~~~b))
  | .eq => .ok (.bool (a == b))
  | .ne => .ok (.bool (a != b))
  | .lt => .ok (.bool (a < b))
  | .le => .ok (.bool (a ≤ b))
  | .gt => .ok (.bool (b < a))
  | .ge => .ok (.bool (b ≤ a))
  | .and | .or => .error .unknownOperands

/-- The value of an operator between two operands that can only be compared, `same` telling
whether they are equal; any other operator is the fault `otherwise`. -/
def compare (op : BinaryOp) (same : Bool) (otherwise : Fault) : Except Fault Value :=
  match op with
  | .eq => .ok (.bool same)
  | .ne => .ok (.bool !same)
  | _ => .error otherwise

/-- The value of an operator between two values. -/
def apply (op : BinaryOp) (l r : Value) : Except Fault Value :=
  match l, r with
  | .nil, .nil => op.compare true .unknownOperands
  | .bool a, .bool b => op.compare (a == b) .unknownOperands
  | .number a, .number b => op.applyNumbers a b
  | .string a, .string b =>
    match op with
    | .add => .ok (.string (a ++ b))
    | op => op.compare (a == b) .stringOperands
  | .builtin a, .builtin b => op.compare (a = b) .builtinOperands
  | _, _ => .error .unknownOperands

end BinaryOp

end TreeWalk
