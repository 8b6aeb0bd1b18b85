/-!
# Spans

A span is a stretch of source text, given by the byte offsets of its two ends in the UTF-8 text.
Every token and every node of a syntax tree carries one.
-/

namespace Apex

/-- The stretch of source text from byte offset `start` up to, not including, `stop`. -/
structure Span where
  /-- Offset of the first byte. -/
  start : Nat
  /-- Offset just past the last byte. -/
  stop : Nat
deriving DecidableEq, Repr, Inhabited

namespace Span

/-- The empty span at an offset. -/
def point (offset : Nat) : Span := ⟨offset, offset⟩

/-- The smallest span that covers both. -/
def merge (a b : Span) : Span := ⟨min a.start b.start, max a.stop b.stop⟩

/-- Whether `b` lies entirely inside `a`. -/
def contains (a b : Span) : Bool := a.start ≤ b.start && b.stop ≤ a.stop

/-- Number of bytes. -/
def length (s : Span) : Nat := s.stop - s.start

/-- Whether the span covers no byte. -/
def isEmpty (s : Span) : Bool := s.start == s.stop

end Span

/-- A value together with the stretch of source it was read from. -/
structure Spanned (α : Type) where
  /-- What was read. -/
  value : α
  /-- Where it stands. -/
  span : Span
deriving DecidableEq, Repr

/-- A name as written in the source. The language ignores its letter case, the tree keeps it. -/
abbrev Ident := Spanned String

end Apex
