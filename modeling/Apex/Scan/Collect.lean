import Apex.Scan.Entry
import Apex.Text.Word

/-!
# Collecting sources

A scan is told files and directories. Directories are searched through, apart from hidden ones and
those that hold installed packages. The result is in the order of paths, without repetitions.
-/

namespace Apex

/-- What a scan picks up. -/
structure ScanSettings where
  /-- The extensions of source files, without the dot; letter case does not matter. -/
  extensions : List String := ["cls", "trigger"]
  /-- The most files to take, if there is a limit. -/
  maxFiles : Option Nat := none
deriving DecidableEq, Repr

/-- Whether a path has one of the extensions. -/
def ScanSettings.accepts (settings : ScanSettings) (p : Path) : Bool :=
  match p.extension? with
  | some extension => settings.extensions.any (sameWord · extension)
  | none => false

/-- Whether a directory found in another one is passed over. A name that is no UTF-8 counts as an
empty one. -/
def isPassedOver (name : RawText) : Bool :=
  let text := name.text?.getD ""
  text.toList.head? = some '.' || text = "node_modules"

/-- A file that was found. -/
structure FoundFile where
  /-- Its path. -/
  path : Path
  /-- What is known of it. -/
  content : FileContent

/-- The accepted files among the entries of a directory and below them. -/
def sourcesIn (settings : ScanSettings) (directory : Path) :
    List (RawText × Entry RawText) → List FoundFile
  | [] => []
  | (name, .file content) :: entries =>
    let here := directory.join name
    (if settings.accepts here then [⟨here, content⟩] else []) ++
      sourcesIn settings directory entries
  | (name, .directory inner) :: entries =>
    (if isPassedOver name then [] else sourcesIn settings (directory.join name) inner) ++
      sourcesIn settings directory entries

/-- The accepted files that a listed path stands for, given what is there. -/
def sourcesAt (settings : ScanSettings) (p : Path) : Option (Entry RawText) → List FoundFile
  | none => []
  | some (.file content) => if settings.accepts p then [⟨p, content⟩] else []
  | some (.directory entries) => sourcesIn settings p entries

/-- Of files with the same path that stand side by side, the first. -/
def dropRepeats : List FoundFile → List FoundFile
  | [] => []
  | f :: fs => f :: (dropRepeats fs).dropWhile fun g => f.path.isSame g.path

/-- The source files that listed paths stand for, in the order of paths. Paths that stand for
nothing are left out. -/
def collectSources (files : Files) (settings : ScanSettings) (listed : List Path) :
    List FoundFile :=
  let found := listed.flatMap fun p => sourcesAt settings p (files p)
  let sorted := dropRepeats (found.mergeSort fun f g => f.path.precedes g.path)
  match settings.maxFiles with
  | some limit => sorted.take limit
  | none => sorted

end Apex
