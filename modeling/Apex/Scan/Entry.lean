import Apex.Scan.Path

/-!
# Files and directories

The files that a scan may look at are a value: a file with its size and its text, or a directory
with named entries. The system names entries by raw text; a tree whose names are all text is one of
those.
-/

namespace Apex

/-- Why a file cannot be read. -/
inductive ReadFault where
  /-- There is nothing of that name. -/
  | notFound
  /-- It is a directory. -/
  | isDirectory
  /-- Its bytes are no UTF-8 text. -/
  | notText
  /-- Anything else, in the words of the system. -/
  | other (message : String)
deriving DecidableEq, Repr

/-- What the user is told. -/
def ReadFault.message : ReadFault → String
  | .notFound => "No such file or directory (os error 2)"
  | .isDirectory => "Is a directory (os error 21)"
  | .notText => "stream did not contain valid UTF-8"
  | .other message => message

/-- What is known of a file. -/
structure FileContent where
  /-- Its size in bytes. -/
  size : Nat
  /-- Its text, unless it cannot be read. -/
  text : Except ReadFault String

/-- The file with the given bytes. -/
def FileContent.ofBytes (bytes : ByteArray) : FileContent where
  size := bytes.size
  text :=
    match String.fromUTF8? bytes with
    | some text => .ok text
    | none => .error .notText

/-- A file or a directory, the names being of some type. -/
inductive Entry (Name : Type := String) where
  /-- A file. -/
  | file (content : FileContent)
  /-- A directory with its entries. -/
  | directory (entries : List (Name × Entry Name))

/-- What each path stands for, if anything. -/
abbrev Files := Path → Option (Entry RawText)

namespace Entry

mutual

/-- The same files and directories under other names. -/
def rename {Name Other : Type} (f : Name → Other) : Entry Name → Entry Other
  | .file content => .file content
  | .directory entries => .directory (renameAll f entries)

/-- The same entries of a directory under other names. -/
def renameAll {Name Other : Type} (f : Name → Other) :
    List (Name × Entry Name) → List (Other × Entry Other)
  | [] => []
  | e :: entries => (f e.1, rename f e.2) :: renameAll f entries

end

instance : Coe Entry (Entry RawText) := ⟨rename RawText.ofString⟩

/-- What is reached by going from an entry through the pieces of a path. `above` are the
directories around the entry, innermost first. A piece that is empty or a dot stays, which only a
directory allows. -/
def follow? (above : List (Entry RawText)) (here : Entry RawText) :
    List (List UInt8) → Option (Entry RawText)
  | [] => some here
  | piece :: pieces =>
    match here with
    | .file _ => none
    | .directory entries =>
      if piece = [] || piece = [dot] then follow? above here pieces
      else if piece = [dot, dot] then
        match above with
        | [] => follow? [] here pieces
        | outer :: above => follow? above outer pieces
      else
        match entries.lookup ⟨piece⟩ with
        | some entry => follow? (here :: above) entry pieces
        | none => none

/-- What each path stands for in a directory. Nothing outside the directory can be reached. -/
def files (directory : Entry RawText) : Files := fun p =>
  if p.raw.bytes.isEmpty || p.raw.bytes.head? = some slash then none
  else follow? [] directory p.pieces

end Entry

end Apex
