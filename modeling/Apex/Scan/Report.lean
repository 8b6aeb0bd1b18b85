import Apex.Grammar.Unit
import Apex.Scan.Collect

/-!
# Scanning files

Every source file is read and parsed on its own. One that cannot be used is recorded with the
reason, and the scan goes on.
-/

namespace Apex

/-- The size in bytes of the largest file that is read. -/
def maxSourceSize : Nat := 10 * 1024 * 1024

/-- Why a file was of no use. -/
inductive ScanError where
  /-- It cannot be read. -/
  | unreadable (fault : ReadFault)
  /-- It is larger than allowed. -/
  | tooLarge (size : Nat)
  /-- Its text is no program. -/
  | noProgram (text : String) (error : ParseError)

/-- A file that parsed. -/
structure ParsedFile where
  /-- Its path. -/
  path : Path
  /-- Its text. -/
  source : String
  /-- The program. -/
  unit : CompilationUnit

/-- A file that was of no use. -/
structure SkippedFile where
  /-- Its path. -/
  path : Path
  /-- The reason. -/
  error : ScanError

namespace SkippedFile

/-- What is said about the file. -/
def message (s : SkippedFile) : String :=
  match s.error with
  | .unreadable fault => "cannot read '" ++ s.path.text ++ "': " ++ fault.message
  | .tooLarge size =>
    "'" ++ s.path.text ++ "' is too large (" ++ toString size ++ " bytes, max " ++
      toString maxSourceSize ++ " bytes)"
  | .noProgram .. => "failed to parse '" ++ s.path.text ++ "'"

/-- What is reported to the user: for a program that does not parse, the error in it. -/
def report (s : SkippedFile) : String :=
  match s.error with
  | .noProgram _ error => error.message
  | _ => s.message

end SkippedFile

/-- Reads and parses a file. -/
def FoundFile.parse (f : FoundFile) : Except ScanError ParsedFile :=
  if maxSourceSize < f.content.size then .error (.tooLarge f.content.size)
  else
    match f.content.text with
    | .error fault => .error (.unreadable fault)
    | .ok source =>
      match parseSource source with
      | .ok unit => .ok ⟨f.path, source, unit⟩
      | .error error => .error (.noProgram source error)

/-- Parses what a path stands for, which should be a file. -/
def parseAt (p : Path) : Option (Entry RawText) → Except ScanError ParsedFile
  | none => .error (.unreadable .notFound)
  | some (.directory _) => .error (.unreadable .isDirectory)
  | some (.file content) => FoundFile.parse ⟨p, content⟩

/-- The outcome of a scan. -/
structure ScanReport where
  /-- The files that parsed, in the order of paths. -/
  files : List ParsedFile := []
  /-- The files that were of no use, in the order of paths. -/
  skipped : List SkippedFile := []

namespace ScanReport

/-- Whether every file was of use. -/
def isClean (r : ScanReport) : Bool := r.skipped.isEmpty

/-- Whether there was no file at all. -/
def isEmpty (r : ScanReport) : Bool := r.files.isEmpty && r.skipped.isEmpty

/-- The report with one file put before the others. -/
def addFront (f : FoundFile) (r : ScanReport) : ScanReport :=
  match f.parse with
  | .ok parsed => { r with files := parsed :: r.files }
  | .error error => { r with skipped := ⟨f.path, error⟩ :: r.skipped }

end ScanReport

/-- Scans files. -/
def scanFiles (found : List FoundFile) : ScanReport := found.foldr ScanReport.addFront {}

/-- Collects the source files that listed paths stand for, and scans them. -/
def scan (files : Files) (settings : ScanSettings) (listed : List Path) : ScanReport :=
  scanFiles (collectSources files settings listed)

end Apex
