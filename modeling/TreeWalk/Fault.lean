/-
# Faults and errors

A fault is the cause of a failed evaluation; its kind and its message are functions of the cause.
An error is a fault together with the span of the innermost node that raised it, if that node was
read from a text.
-/
import TreeWalk.Json
import TreeWalk.Program

namespace TreeWalk

/-- The classes of errors. -/
inductive ErrorKind where
  /-- An operator without a meaning for its operands. -/
  | syntaxError
  /-- An operand, key or argument of the wrong kind, or a division by zero. -/
  | typeError
  /-- The target of an assignment cannot receive a value. -/
  | notAssignable
  /-- The callee of a call is neither a function nor a builtin. -/
  | notCallable
  /-- A name that no scope of the chain binds. -/
  | referenceError
  /-- An index outside an array. -/
  | rangeError
  /-- The call depth or the step budget is spent. -/
  | resourceExhausted
  /-- Everything else. -/
  | generic
deriving DecidableEq, Repr

namespace ErrorKind

/-- All the kinds. -/
def all : List ErrorKind :=
  [.syntaxError, .typeError, .notAssignable, .notCallable, .referenceError, .rangeError,
    .resourceExhausted, .generic]

/-- The name of a kind in messages. -/
def title : ErrorKind → String
  | .syntaxError => "SyntaxError"
  | .typeError => "TypeError"
  | .notAssignable => "NotAssignableError"
  | .notCallable => "NotCallableError"
  | .referenceError => "ReferenceError"
  | .rangeError => "RangeError"
  | .resourceExhausted => "ResourceExhausted"
  | .generic => "Error"

/-- The name of a kind in exported data. -/
def key : ErrorKind → String
  | .syntaxError => "syntax"
  | .typeError => "type"
  | .notAssignable => "not_assignable"
  | .notCallable => "not_callable"
  | .referenceError => "reference"
  | .rangeError => "range"
  | .resourceExhausted => "resource_exhausted"
  | .generic => "generic"

/-- The kind with the given title. -/
def ofTitle? (s : String) : Option ErrorKind := all.find? fun k => k.title = s

end ErrorKind

/-- Why an evaluation failed.  Values appear in the form in which they are shown. -/
inductive Fault where
  /-- The name is bound nowhere. -/
  | unbound (name : String)
  /-- The value cannot be assigned to. -/
  | notAssignable (shown : String)
  /-- The value cannot be called. -/
  | notCallable (shown : String)
  /-- The array has no element at the index. -/
  | outOfRange (index : Int64) (length : Nat)
  /-- The value, of the type of that name, is no key of the container. -/
  | badKey (shown typeName : String)
  /-- The operator needs a number. -/
  | badOperand (op : UnaryOp)
  /-- The operator has no meaning for two strings. -/
  | stringOperands
  /-- The operator has no meaning for two builtins. -/
  | builtinOperands
  /-- The operator has no meaning for its operands. -/
  | unknownOperands
  | divideByZero
  | moduloByZero
  | negativeExponent
  /-- A function refused the number of its arguments. -/
  | argumentCount (function : String) (expected got : Nat)
  /-- More steps than the budget. -/
  | stepLimit (limit : UInt64)
  /-- More nested calls than allowed. -/
  | callDepth (limit : UInt64)
  /-- `new` is reserved. -/
  | newUnsupported
  /-- A `break` left a function body or the program. -/
  | strayBreak
  /-- A configuration text was refused. -/
  | badConfig
  /-- A builtin needs a string. -/
  | stringArgument
  /-- A builtin needs an array. -/
  | arrayArgument
  /-- A builtin was given a title that names no kind of error. -/
  | unknownKind
  /-- A fault made by the host or by a builtin. -/
  | raised (kind : ErrorKind) (message : String)
deriving DecidableEq, Repr

namespace Fault

/-- The class of a fault. -/
def kind : Fault → ErrorKind
  | .unbound _ => .referenceError
  | .notAssignable _ => .notAssignable
  | .notCallable _ => .notCallable
  | .outOfRange _ _ => .rangeError
  | .badKey _ _ => .typeError
  | .badOperand _ => .typeError
  | .stringOperands => .syntaxError
  | .builtinOperands => .syntaxError
  | .unknownOperands => .syntaxError
  | .divideByZero => .typeError
  | .moduloByZero => .typeError
  | .negativeExponent => .typeError
  | .argumentCount _ _ _ => .typeError
  | .stepLimit _ => .resourceExhausted
  | .callDepth _ => .resourceExhausted
  | .newUnsupported => .generic
  | .strayBreak => .generic
  | .badConfig => .generic
  | .stringArgument => .typeError
  | .arrayArgument => .typeError
  | .unknownKind => .typeError
  | .raised k _ => k

/-- What is said about a fault. -/
def message : Fault → String
  | .unbound name => name ++ " is not defined"
  | .notAssignable shown => "`" ++ shown ++ "' is not assignable"
  | .notCallable shown => "`" ++ shown ++ "' is not callable"
  | .outOfRange index length =>
    "index " ++ Int.repr index.toInt ++ " out of range (len " ++ Nat.repr length ++ ")"
  | .badKey shown typeName =>
    "cannot use `" ++ shown ++ "' (type: " ++ typeName ++ ") as key"
  | .badOperand op => op.symbol ++ "value is invalid"
  | .stringOperands => "not supported operator on two strings"
  | .builtinOperands => "not supported operator on two builtins"
  | .unknownOperands => "unknown binary operator and operands"
  | .divideByZero => "divide by zero"
  | .moduloByZero => "modulo by zero"
  | .negativeExponent => "negative exponent"
  | .argumentCount function expected got =>
    function ++ " expects " ++ Nat.repr expected ++ " arguments, got " ++ Nat.repr got
  | .stepLimit limit => "step limit exceeded (" ++ Nat.repr limit.toNat ++ ")"
  | .callDepth limit => "maximum call depth exceeded (" ++ Nat.repr limit.toNat ++ ")"
  | .newUnsupported => "new() is not supported"
  | .strayBreak => "break outside of loop or switch"
  | .badConfig => "invalid evaluator config"
  | .stringArgument => "expected a string argument"
  | .arrayArgument => "push expects an array"
  | .unknownKind => "unknown error kind"
  | .raised _ message => message

end Fault

/-- A failed evaluation. -/
structure EvalError where
  /-- Why it failed. -/
  fault : Fault
  /-- The innermost node that raised the fault, if it was read from a text. -/
  span : Option Span
deriving DecidableEq, Repr

namespace EvalError

/-- An error that no node has been blamed for yet. -/
def ofFault (fault : Fault) : EvalError := ⟨fault, none⟩

/-- The class of an error. -/
def kind (e : EvalError) : ErrorKind := e.fault.kind

/-- What is said about an error. -/
def message (e : EvalError) : String := e.fault.message

/-- Blame the node at `span`, unless a node inside it has been blamed already or the node was not
read from a text. -/
def blame (e : EvalError) (span : Span) : EvalError :=
  if e.span.isNone && !span.isSynthetic then { e with span := some span } else e

@[simp] theorem fault_blame (e : EvalError) (span : Span) : (e.blame span).fault = e.fault := by
  unfold blame
  split <;> rfl

/-- The error in one line. -/
def text (e : EvalError) : String :=
  e.kind.title ++ ": " ++ e.message ++
    match e.span with
    | some span => " at " ++ span.text
    | none => ""

end EvalError

namespace Span

/-- The fields of a span as data. -/
def json (s : Span) : Json :=
  .object [("start_line", .number s.startLine.toNat), ("start_col", .number s.startCol.toNat),
    ("end_line", .number s.endLine.toNat), ("end_col", .number s.endCol.toNat)]

end Span

namespace EvalError

/-- The error as data; an error without a span has no such field. -/
def json (e : EvalError) : Json :=
  .object ([("kind", .string e.kind.key), ("message", .string e.message)] ++
    match e.span with
    | some span => [("span", span.json)]
    | none => [])

end EvalError

end TreeWalk
