/-
# Reading spans

A span is read from a JSON text: an object that has each of the four fields once, among others and
in any order, or an array of the four numbers.
-/
import TreeWalk.Json.Document
import TreeWalk.Span

namespace TreeWalk.Span

open Json (Document)

/-- A number of 32 bits without sign. -/
def word? : Document → Option UInt32
  | .natural n => if n < UInt32.size then some (UInt32.ofNat n) else none
  | _ => none

/-- The number in a field that must be there once. -/
def wordField? (fields : List (Option String × Document)) (key : String) : Option UInt32 := do
  word? (← (← Document.field? fields key))

/-- The span that a document describes. -/
def ofDocument? : Document → Option Span
  | .object fields => do
    if Document.keysAreTexts fields then
      return {
        startLine := ← wordField? fields "start_line"
        startCol := ← wordField? fields "start_col"
        endLine := ← wordField? fields "end_line"
        endCol := ← wordField? fields "end_col" }
    else none
  | .array [a, b, c, d] => do return ⟨← word? a, ← word? b, ← word? c, ← word? d⟩
  | _ => none

/-- The span that a text describes. -/
def ofText? (s : String) : Option Span := do
  ofDocument? (← Document.ofText? s)

end TreeWalk.Span
