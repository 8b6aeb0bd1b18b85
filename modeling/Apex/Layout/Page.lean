/-!
# Pages

What a program is to look like is said by a row of marks: words to write, ends of lines, changes of
the indentation level, and gaps between members. A page is written mark by mark. The marks say
nothing of widths; those are settings of the page.
-/

namespace Apex

/-- The widths that can be chosen. -/
structure LayoutSettings where
  /-- Spaces for each indentation level. -/
  indentWidth : Nat := 4
  /-- Blank lines in a gap between members. -/
  memberGap : Nat := 1
deriving DecidableEq, Repr

/-- One thing to do on a page. -/
inductive Mark where
  /-- Write a text, which may be empty. -/
  | text (text : String)
  /-- End the line. -/
  | newline
  /-- Indent the lines that follow one level further. -/
  | indent
  /-- Indent the lines that follow one level less. -/
  | dedent
  /-- Leave the gap between members: end a line that is begun, then leave blank lines. -/
  | gap
deriving DecidableEq, Repr

/-- A page that has been written so far. -/
structure Page where
  /-- All that has been written. -/
  output : String
  /-- The indentation level. -/
  level : Nat
  /-- Whether nothing has been written on the last line yet. -/
  atLineStart : Bool
deriving DecidableEq, Repr

namespace Page

/-- A page with nothing on it. -/
def blank : Page := ⟨"", 0, true⟩

/-- Ends the line. -/
def endLine (p : Page) : Page := { p with output := p.output.push '\n', atLineStart := true }

/-- Writes a text. The first text of a line is indented, and an empty text begins no line. -/
def write (settings : LayoutSettings) (p : Page) (text : String) : Page :=
  if text.isEmpty then p
  else
    let margin :=
      if p.atLineStart then String.ofList (List.replicate (p.level * settings.indentWidth) ' ')
      else ""
    { p with output := p.output ++ margin ++ text, atLineStart := false }

/-- Ends the last line if something has been written on it. -/
def endBegunLine (p : Page) : Page := if p.atLineStart then p else p.endLine

/-- Does what a mark says. -/
def mark (settings : LayoutSettings) (p : Page) : Mark → Page
  | .text text => p.write settings text
  | .newline => p.endLine
  | .indent => { p with level := p.level + 1 }
  | .dedent => { p with level := p.level - 1 }
  | .gap => settings.memberGap.repeat endLine p.endBegunLine

end Page

/-- The text of a row of marks. It ends with a line end, unless it is empty. -/
def renderMarks (settings : LayoutSettings) (marks : List Mark) : String :=
  (marks.foldl (Page.mark settings) Page.blank).endBegunLine.output

end Apex
