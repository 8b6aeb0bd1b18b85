import Apex.Command.Run

/-!
# The program

Reads the files that the command line is about, runs the command on them, prints what it has to
say and ends with its exit code.
-/

open Apex

namespace Apex.Program

/-- The file at a path. Only a file that will be looked at is read. -/
def loadFile (p : Path) (size : Nat) (wanted : Bool) : IO FileContent := do
  if wanted && size ≤ maxSourceSize then
    try
      return { FileContent.ofBytes (← IO.FS.readBinFile p.text) with size }
    catch e => return ⟨size, .error (.other (toString e))⟩
  else return ⟨size, .ok ""⟩

/-- What stands at a path. Directories that a scan passes over stay empty, as do those that cannot
be listed. -/
partial def load (settings : ScanSettings) (p : Path) (listed : Bool) :
    IO (Option (Entry RawText)) := do
  let file := System.mkFilePath [p.text]
  let some metadata ← (some <$> file.metadata) <|> pure none | return none
  match metadata.type with
  | .dir =>
    let found ← file.readDir <|> pure #[]
    let mut entries : List (RawText × Entry RawText) := []
    for item in found do
      let inner := p.join item.fileName
      if !(isPassedOver item.fileName && (← item.path.isDir)) then
        if let some entry ← load settings inner false then
          entries := (↑item.fileName, entry) :: entries
    return some (.directory entries)
  | _ =>
    let content ← loadFile p metadata.byteSize.toNat (listed || settings.accepts p)
    return some (.file content)

/-- What the listed paths stand for, and the files below them. -/
def loadAll (settings : ScanSettings) (listed : List Path) : IO Files := do
  let mut found : List (Path × Option (Entry RawText)) := []
  for p in listed do
    found := (p, ← load settings p true) :: found
  return fun p => (found.lookup p).join

end Apex.Program

/-- The program. -/
def main (arguments : List String) : IO UInt32 := do
  let files ←
    match readArguments arguments with
    | .ok request => Apex.Program.loadAll request.settings request.paths
    | .error _ => pure fun _ => none
  let outcome := runCommandLine files arguments
  IO.print outcome.output
  for complaint in outcome.complaints do
    IO.eprintln complaint
  return outcome.exitCode.toUInt32
