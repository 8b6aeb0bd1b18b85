import Apex.Grammar.Unit
import Apex.Layout.Declaration
import Apex.Layout.Difference

/-!
# Formatting

A program is formatted by parsing it and writing its tree. Comments are lost and keywords come out
in their canonical spelling; apart from that the result has the tokens of the source.
-/

namespace Apex

/-- The text of a tree. -/
def CompilationUnit.text (u : CompilationUnit) (settings : LayoutSettings) : String :=
  renderMarks settings u.marks

/-- A source text, formatted. -/
def formatSource (source : String) (settings : LayoutSettings) : Except ParseError String :=
  (parseSource source).map (·.text settings)

/-- Whether a source text is formatted already. -/
def isFormatted (source : String) : Except ParseError Bool :=
  (formatSource source {}).map fun formatted => source == formatted

/-- What formatting a source text changes, if it changes anything. -/
def formatDifference (source : String) : Except ParseError (Option String) :=
  (formatSource source {}).map fun formatted =>
    if source = formatted then none else some (textDifference source formatted)

end Apex
