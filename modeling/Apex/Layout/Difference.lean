import Apex.Source.Line

/-!
# Differences between texts

Two texts are compared line by line. A line is reported with its number where the texts differ,
first as it is and then as it should be; an empty line is not shown.
-/

namespace Apex

/-- A line ends with a newline character, before which a carriage return belongs to the line end as
well. -/
def withoutReturn (line : List Char) : List Char :=
  if line.getLast? = some '\r' then line.dropLast else line

/-- The lines of a text, given its pieces between newline characters. What stands behind the last
newline is a line only if there is something. -/
def linesOfPieces : List (List Char) → List (List Char)
  | [] => []
  | [last] => if last.isEmpty then [] else [last]
  | piece :: next :: later => withoutReturn piece :: linesOfPieces (next :: later)

/-- The lines of a text, without their ends. -/
def textLines (text : String) : List String :=
  (linesOfPieces (newlinePieces text.toList)).map String.ofList

/-- A number, filled up with blanks to four places. -/
def lineNumber (n : Nat) : String :=
  let digits := toString n
  String.ofList (List.replicate (4 - digits.length) ' ') ++ digits

/-- A line of the report; an empty line is not shown. -/
def shownLine (sign : String) (number : Nat) (line : String) : String :=
  if line.isEmpty then "" else sign ++ lineNumber number ++ " | " ++ line ++ "\n"

/-- What is reported on two lines of one number. -/
def lineDifference (number : Nat) (old new : String) : String :=
  if old = new then "" else shownLine "-" number old ++ shownLine "+" number new

/-- As many lines as asked for, where missing ones are empty. -/
def paddedLines (count : Nat) (lines : List String) : List String :=
  lines ++ List.replicate (count - lines.length) ""

/-- The differences between two texts. -/
def textDifference (old new : String) : String :=
  let oldLines := textLines old
  let newLines := textLines new
  let count := max oldLines.length newLines.length
  String.join <|
    ((paddedLines count oldLines).zip (paddedLines count newLines)).zipIdx.map fun (lines, i) =>
      lineDifference (i + 1) lines.1 lines.2

end Apex
