import Apex.Source.Span

/-!
# Diagnostics

What a report on a piece of source shows beside its message: a code to look the problem up by,
labels that point into the source, and advice.
-/

namespace Apex

/-- A remark on a stretch of source. -/
structure Label where
  /-- The remark. -/
  text : String
  /-- What it is about. -/
  span : Span
deriving DecidableEq, Repr

/-- The data of a report, apart from its message. -/
structure Diagnostic where
  /-- A stable name for the kind of problem. -/
  code : String
  /-- What to do about it. -/
  help : Option String
  /-- Remarks on the source. -/
  labels : List Label
deriving DecidableEq, Repr

end Apex
