/-!
# Places in a source text

A node of a program carries the span it was read from, and a message about it shows where that span starts.
-/

namespace Linkage

/-- A place in a source text: line and column count from one, `offset` is in bytes from the start of the text. -/
structure Position where
  line : Nat
  column : Nat
  offset : Nat
  deriving DecidableEq

/-- A position is shown by its line and its column. -/
def Position.render (p : Position) : String :=
  s!"{p.line}:{p.column}"

/-- Positions are ordered by line, then by column, then by offset. -/
instance : Ord Position where
  compare a b := (compare a.line b.line).then ((compare a.column b.column).then (compare a.offset b.offset))

/-- The stretch of a source text from `start` to `stop`. -/
structure Span where
  start : Position
  stop : Position
  deriving DecidableEq

namespace Span

/-- The span of a node that was read from no text. -/
def unknown : Span :=
  ⟨⟨0, 0, 0⟩, ⟨0, 0, 0⟩⟩

/-- A span is shown by its start. -/
def render (s : Span) : String :=
  s.start.render

end Span

end Linkage
