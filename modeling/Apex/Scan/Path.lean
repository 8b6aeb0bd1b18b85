import Apex.Text.Raw

/-!
# Paths

A path is the raw text by which a file or a directory is named. Two texts may be the same path: what
counts are the components between slashes, so doubled slashes and a dot between slashes make no
difference. Paths are ordered component by component.
-/

namespace Apex

/-- The byte between the components of a path. -/
def slash : UInt8 := 0x2F

/-- The byte in front of the extension of a name, and of names that are hidden. -/
def dot : UInt8 := 0x2E

/-- A path, as it is written. -/
structure Path where
  /-- The text. -/
  raw : RawText
deriving DecidableEq, Repr

/-- One component of a path. -/
inductive Component where
  /-- The slash in front. -/
  | root
  /-- A dot in front; anywhere else a dot is no component. -/
  | here
  /-- Two dots. -/
  | parent
  /-- A name. -/
  | name (bytes : List UInt8)
deriving DecidableEq, Repr

/-- The key by which components are ordered: first by sort, names by their bytes. -/
def Component.key : Component → List Nat
  | .root => [0]
  | .here => [1]
  | .parent => [2]
  | .name bytes => 3 :: bytes.map UInt8.toNat

/-- The component that a piece between slashes stands for, if it stands for one. -/
def pieceComponent? (piece : List UInt8) : Option Component :=
  if piece = [] || piece = [dot] then none
  else if piece = [dot, dot] then some .parent
  else some (.name piece)

namespace Path

/-- The path as it is shown to the user. -/
def text (p : Path) : String := p.raw.shown

/-- The pieces of the text between slashes; there is always at least one. -/
def pieces (p : Path) : List (List UInt8) := p.raw.bytes.splitOn slash

/-- The component in front that is no name: a slash or a dot. -/
def front (p : Path) : List Component :=
  if p.raw.bytes.head? = some slash then [.root]
  else if p.pieces.head? = some [dot] then [.here]
  else []

/-- The components of a path. -/
def components (p : Path) : List Component := p.front ++ p.pieces.filterMap pieceComponent?

/-- The key by which paths are ordered. -/
def key (p : Path) : List (List Nat) := p.components.map Component.key

/-- Whether a path comes before another. -/
def isBefore (p q : Path) : Bool := p.key.lex q.key fun a b => a.lex b fun m n => m < n

/-- Whether a path comes before another or is the same. -/
def precedes (p q : Path) : Bool := !q.isBefore p

/-- Whether two texts are the same path. -/
def isSame (p q : Path) : Bool := p.components == q.components

/-- The name of the file or directory; a path that ends with dots or in the root has none. -/
def name? (p : Path) : Option (List UInt8) :=
  match p.components.getLast? with
  | some (.name bytes) => some bytes
  | _ => none

/-- The path of an entry of a directory. -/
def join (p : Path) (entry : RawText) : Path :=
  if p.raw.bytes.isEmpty || p.raw.bytes.getLast? = some slash then ⟨⟨p.raw.bytes ++ entry.bytes⟩⟩
  else ⟨⟨p.raw.bytes ++ slash :: entry.bytes⟩⟩

end Path

/-- What stands behind the last dot of a name. A dot at the very front begins no extension. -/
def nameExtension? (name : List UInt8) : Option (List UInt8) :=
  match name.reverse.dropWhile (· ≠ dot) with
  | _ :: _ :: _ => some (name.reverse.takeWhile (· ≠ dot)).reverse
  | _ => none

/-- The extension of the name of a file, if it can be read. -/
def Path.extension? (p : Path) : Option String :=
  (p.name?.bind nameExtension?).bind fun bytes => (RawText.mk bytes).text?

end Apex
