import Apex.Token.Basic

/-!
# Reading tokens

The grammar reads tokens through a cursor: a row of tokens that ends with the end of the program,
and a position in it. A cursor is a value, so a reader that wants to come back to a place just
keeps the cursor; for callers that step one cursor along there are marks as well.
-/

namespace Apex

/-- A place in a row of tokens. -/
structure Cursor where
  /-- All tokens. -/
  tokens : Array Token
  /-- The index of the token under the cursor. -/
  position : Nat
  /-- There is a token under the cursor. -/
  inBounds : position < tokens.size
  /-- The last token is the end of the program. -/
  endsRow : (tokens[tokens.size - 1]).isEnd

/-- A place to come back to. -/
structure CursorMark where
  /-- The position when the mark was taken. -/
  position : Nat
deriving DecidableEq, Repr

namespace Cursor

/-- The tokens with an end added, unless the last one already is an end. -/
def withEnd (tokens : List Token) : List Token :=
  match tokens.getLast? with
  | some last =>
    if last.isEnd then tokens
    else tokens ++ [.plain .endOfFile (Span.point last.span.stop)]
  | none => [.plain .endOfFile (Span.point 0)]

theorem getLast?_withEnd (tokens : List Token) :
    ∃ last, (withEnd tokens).getLast? = some last ∧ last.isEnd = true := by
  unfold withEnd
  split
  · next last h =>
    split
    · next isEnd => exact ⟨last, h, isEnd⟩
    · exact ⟨_, List.getLast?_concat, rfl⟩
  · exact ⟨_, rfl, rfl⟩

theorem length_withEnd_pos (tokens : List Token) : 0 < (withEnd tokens).length := by
  obtain ⟨last, h, _⟩ := getLast?_withEnd tokens
  exact List.length_pos_of_mem (List.mem_of_getLast? h)

theorem isEnd_last_withEnd (tokens : List Token)
    (h : (withEnd tokens).length - 1 < (withEnd tokens).length) :
    ((withEnd tokens)[(withEnd tokens).length - 1]).isEnd = true := by
  obtain ⟨last, found, isEnd⟩ := getLast?_withEnd tokens
  rw [List.getLast?_eq_getElem?, List.getElem?_eq_getElem h] at found
  rwa [Option.some.inj found]

/-- The cursor at the first token of a row. -/
def ofTokens (tokens : List Token) : Cursor where
  tokens := (withEnd tokens).toArray
  position := 0
  inBounds := by simpa using length_withEnd_pos tokens
  endsRow := by simpa using isEnd_last_withEnd tokens (by have := length_withEnd_pos tokens; omega)

/-- The token under the cursor. -/
def current (c : Cursor) : Token :=
  have := c.inBounds
  c.tokens[c.position]

/-- The token `n` places ahead, or the last one if there are not that many. -/
def peek (c : Cursor) (n : Nat) : Token :=
  have := c.inBounds
  c.tokens[min (c.position + n) (c.tokens.size - 1)]

/-- The token before the cursor. -/
def previous? (c : Cursor) : Option Token :=
  if c.position = 0 then none else c.tokens[c.position - 1]?

/-- Whether the end is under the cursor. -/
def atEnd (c : Cursor) : Bool := c.current.isEnd

/-- The cursor one token on; at the end it stays. -/
def advance (c : Cursor) : Cursor :=
  if h : c.position + 1 < c.tokens.size then
    if c.atEnd then c else { c with position := c.position + 1, inBounds := h }
  else c

/-- The number of tokens from the cursor on. -/
def remaining (c : Cursor) : Nat := c.tokens.size - c.position

/-- A mark at the cursor's place. -/
def mark (c : Cursor) : CursorMark := ⟨c.position⟩

/-- The cursor back at a mark taken on the same row. -/
def rollback (c : Cursor) (m : CursorMark) : Cursor :=
  if h : m.position < c.tokens.size then { c with position := m.position, inBounds := h } else c

/-- The token behind the first end of the row, which no cursor ever reaches. -/
def strayAfterEnd? (c : Cursor) : Option Token :=
  match c.tokens.findIdx? Token.isEnd with
  | some i => c.tokens[i + 1]?
  | none => none

end Cursor

end Apex
