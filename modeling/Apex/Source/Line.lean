/-!
# Lines and columns

Byte offsets are turned into line and column for people to read. Lines are the pieces of the text
between newline characters; both numbers count from one, and columns count bytes.
-/

namespace Apex

/-- Number of bytes of a text in UTF-8. -/
def byteSize (text : List Char) : Nat := text.foldl (fun n c => n + c.utf8Size) 0

@[simp] theorem byteSize_nil : byteSize [] = 0 := rfl

@[simp] theorem byteSize_cons (c : Char) (cs : List Char) :
    byteSize (c :: cs) = c.utf8Size + byteSize cs := by
  have shift : ∀ (cs : List Char) (n : Nat),
      cs.foldl (fun n c => n + c.utf8Size) n = n + byteSize cs := by
    intro cs
    induction cs with
    | nil => exact fun _ => rfl
    | cons c cs ih =>
      intro n
      rw [byteSize, List.foldl_cons, List.foldl_cons, ih, ih (0 + _)]
      omega
  rw [byteSize, List.foldl_cons, shift, Nat.zero_add]

@[simp] theorem byteSize_append (cs ds : List Char) :
    byteSize (cs ++ ds) = byteSize cs + byteSize ds := by
  induction cs with
  | nil => simp
  | cons c cs ih => rw [List.cons_append, byteSize_cons, byteSize_cons, ih, Nat.add_assoc]

/-- The pieces of a text between its newline characters; there is always at least one. -/
def newlinePieces (text : List Char) : List (List Char) :=
  text.foldr
    (fun c pieces =>
      match pieces with
      | [] => [[c]]
      | piece :: later => if c = '\n' then [] :: piece :: later else (c :: piece) :: later)
    [[]]

/-- A place in a text, as a person counts it. -/
structure Place where
  /-- Line number, from one. -/
  line : Nat
  /-- Byte column within the line, from one. -/
  column : Nat
  /-- The whole line, without its newline. -/
  text : List Char
deriving DecidableEq, Repr

/-- The place `offset` bytes into the pieces, the first of which is line `line`. An offset that
points at the newline ending a piece belongs to that piece. -/
def placeIn (line : Nat) : List (List Char) → Nat → Place
  | [], offset => ⟨line, offset + 1, []⟩
  | [piece], offset => ⟨line, offset + 1, piece⟩
  | piece :: next :: later, offset =>
    if offset ≤ byteSize piece then ⟨line, offset + 1, piece⟩
    else placeIn (line + 1) (next :: later) (offset - byteSize piece - 1)

/-- The place of a byte offset in a text. Offsets past the end stand for the end. -/
def placeOf (source : String) (offset : Nat) : Place :=
  placeIn 1 (newlinePieces source.toList) (min offset source.utf8ByteSize)

end Apex
