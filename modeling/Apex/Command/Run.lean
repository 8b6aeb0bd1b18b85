import Apex.Command.Arguments
import Apex.Layout.Format
import Apex.Report.Census
import Apex.Report.LoopDml
import Apex.Report.Outline
import Apex.Scan.Report
import Apex.Text.Json

/-!
# Running commands

What each command prints, what it complains about, and the exit code it ends with: zero if all is
well, one if files were skipped, found wanting or missing, two if the command line is wrong.
-/

namespace Apex

/-- What running a command leads to. -/
structure Outcome where
  /-- The exit code. -/
  exitCode : Nat := 0
  /-- What is printed. -/
  output : String := ""
  /-- What is complained about, a line for each complaint. -/
  complaints : List String := []
deriving DecidableEq, Repr

namespace Outcome

/-- The outcome if there is only a complaint. -/
def failure (complaint : String) : Outcome := ⟨1, "", [complaint]⟩

/-- The outcome if no source file was found. -/
def nothingFound : Outcome := failure "No Apex source files found"

end Outcome

/-- The complaints about skipped files. -/
def ScanReport.complaints (r : ScanReport) : List String := r.skipped.map SkippedFile.report

/-- The operations on records inside loops in a file that parsed. -/
def ParsedFile.loopDml (f : ParsedFile) : List LoopDml :=
  (({} : LoopCheck).add f.unit).findings.toList

/-- Parses files and looks for operations on records inside loops. -/
def runCheck (files : Files) (s : Selection) : Outcome :=
  let report := scan files s.settings s.paths
  if report.isEmpty then .nothingFound
  else
    let findings := report.files.flatMap ParsedFile.loopDml
    { exitCode := if report.isClean && findings.isEmpty then 0 else 1
      output :=
        "✓ " ++ toString report.files.length ++ " file(s) parsed, " ++
          toString report.skipped.length ++ " skipped, " ++ toString findings.length ++
          " finding(s)\n"
      complaints := report.complaints ++ findings.map LoopDml.message }

/-- Outlines a file. -/
def runOutline (files : Files) (file : Path) : Outcome :=
  match parseAt file (files file) with
  | .ok parsed => { output := (({} : Outline).add parsed.unit).text }
  | .error error => .failure (SkippedFile.report ⟨file, error⟩)

/-- A text filled up with blanks to a width. -/
def padRight (width : Nat) (text : String) : String :=
  text ++ String.ofList (List.replicate (width - text.length) ' ')

/-- The numbers of a census as a table. -/
def statisticsTable (files skipped : Nat) (counts : KindCounts) : String :=
  toString files ++ " file(s), " ++ toString skipped ++ " skipped, " ++ toString counts.total ++
    " node(s)\n" ++
    String.join (counts.rows.map fun (kind, n) =>
      "  " ++ padRight 24 kind.text ++ " " ++ toString n ++ "\n")

/-- The kinds of which there are nodes with their numbers, in alphabetical order. -/
def sortedRows (counts : KindCounts) : List (String × Nat) :=
  (counts.rows.map fun (kind, n) => (kind.text, n)).mergeSort fun a b => decide (a.1 ≤ b.1)

/-- The numbers of a census as JSON. -/
def statisticsJson (files skipped : Nat) (counts : KindCounts) : Json :=
  .object
    [ ("files", .number files),
      ("kinds", .object ((sortedRows counts).map fun (kind, n) => (kind, .number n))),
      ("skipped", .number skipped), ("total", .number counts.total) ]

/-- Counts the nodes of all files that parse. -/
def runStatistics (files : Files) (s : Selection) (asJson skipsBodies : Bool) : Outcome :=
  let report := scan files s.settings s.paths
  let census := report.files.foldl (fun c f => c.add f.unit) ({ skipsBodies } : Census)
  let parsed := report.files.length
  let skipped := report.skipped.length
  { output :=
      if asJson then (statisticsJson parsed skipped census.counts).text ++ "\n"
      else statisticsTable parsed skipped census.counts
    complaints := report.complaints }

/-- The formatted text of a file that parsed. -/
def ParsedFile.formatted (f : ParsedFile) : String := f.unit.text {}

/-- Whether formatting changes a file. -/
def ParsedFile.isChanged (f : ParsedFile) : Bool := f.source != f.formatted

/-- What is printed for a file. Where several files are printed, each is headed by its path. -/
def ParsedFile.formatOutput (mode : FormatMode) (several : Bool) (f : ParsedFile) : String :=
  match mode with
  | .print => (if several then "// " ++ f.path.text ++ "\n" else "") ++ f.formatted
  | .check => if f.isChanged then "Would reformat: " ++ f.path.text ++ "\n" else ""
  | .difference =>
    if f.isChanged then
      "--- " ++ f.path.text ++ "\n" ++ textDifference f.source f.formatted ++ "\n"
    else ""

/-- Formats files. Unless they are printed, a file that formatting changes is a failure. -/
def runFormat (files : Files) (s : Selection) (mode : FormatMode) : Outcome :=
  let report := scan files s.settings s.paths
  if report.isEmpty then .nothingFound
  else
    let several := 1 < report.files.length
    let wanting := mode != .print && report.files.any ParsedFile.isChanged
    { exitCode := if report.isClean && !wanting then 0 else 1
      output := String.join (report.files.map (ParsedFile.formatOutput mode several))
      complaints := report.complaints }

/-- An explanation of the commands. -/
def helpText : String :=
  "Parse Apex sources and report on their structure\n\n" ++
    "Usage: apexscan <COMMAND>\n\n" ++
    "Commands:\n" ++
    "  check [PATH]...    Parse files and flag DML statements inside loops\n" ++
    "  outline <FILE>     Print an outline of one file\n" ++
    "  stats [PATH]...    Count syntax tree nodes by kind\n" ++
    "  fmt [PATH]...      Print files in canonical layout (comments are not kept)\n"

/-- The paths a request is about. -/
def Request.paths : Request → List Path
  | .version | .help => []
  | .check s | .statistics s .. | .format s _ => s.paths
  | .outline file => [file]

/-- Which files a request is about. -/
def Request.settings : Request → ScanSettings
  | .version | .help | .outline _ => {}
  | .check s | .statistics s .. | .format s _ => s.settings

/-- Does what is asked for. -/
def Request.run (files : Files) : Request → Outcome
  | .version => { output := "apexscan 0.1.0\n" }
  | .help => { output := helpText }
  | .check s => runCheck files s
  | .outline file => runOutline files file
  | .statistics s asJson skipsBodies => runStatistics files s asJson skipsBodies
  | .format s mode => runFormat files s mode

/-- Does what a command line asks for. -/
def runCommandLine (files : Files) (arguments : List String) : Outcome :=
  match readArguments arguments with
  | .ok request => request.run files
  | .error error => ⟨2, "", [error.message]⟩

end Apex
