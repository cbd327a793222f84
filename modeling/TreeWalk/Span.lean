/-
# Source spans

Where a node of a program stood in the text it was read from.  Nodes that were not read from a
text carry the span whose four fields are zero; such a span is never reported.
-/
namespace TreeWalk

/-- A range of a source text.  Lines and columns count from one. -/
structure Span where
  /-- The line of the first character. -/
  startLine : UInt32
  /-- The column of the first character. -/
  startCol : UInt32
  /-- The line of the end. -/
  endLine : UInt32
  /-- The column of the end. -/
  endCol : UInt32
deriving DecidableEq, Repr

namespace Span

/-- The span of a node that was made and not read. -/
def synthetic : Span := ⟨0, 0, 0, 0⟩

instance : Inhabited Span := ⟨synthetic⟩

/-- The empty span at one position. -/
def point (line col : UInt32) : Span := ⟨line, col, line, col⟩

/-- Whether `s` points into no text. -/
def isSynthetic (s : Span) : Bool := s = synthetic

/-- The position where `s` starts, as `line:column`. -/
def text (s : Span) : String :=
  Nat.repr s.startLine.toNat ++ ":" ++ Nat.repr s.startCol.toNat

end Span

end TreeWalk
