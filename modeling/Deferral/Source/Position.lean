/-!
# Places in a source

A position is a byte offset into a named file, and a span runs from one position to another.
-/

namespace Deferral

/-- A byte offset in the file called `file`. -/
structure Position where
  offset : Nat
  file : String
deriving DecidableEq, Repr, Inhabited

/-- The position of what has no place in any source. -/
def Position.nowhere : Position := ⟨0, "<null>"⟩

/-- The stretch of a source from `start` up to `stop`. -/
structure Span where
  start : Position
  stop : Position
deriving DecidableEq, Repr, Inhabited

namespace Span

/-- The span of what has no place in any source. -/
def nowhere : Span := ⟨.nowhere, .nowhere⟩

/-- The empty span at a position. -/
def point (position : Position) : Span := ⟨position, position⟩

/-- From the start of one span to the end of another. -/
def upTo (first last : Span) : Span := ⟨first.start, last.stop⟩

end Span

end Deferral
