/-!
# Raw text

The system names files and directories by bytes. Most names are UTF-8 text, but nothing enforces it:
a name that is none can be compared and followed as well as any other, only it cannot be read.
-/

namespace Apex

/-- Text as the system has it: bytes, which need not be UTF-8. -/
structure RawText where
  /-- The bytes. -/
  bytes : List UInt8
deriving DecidableEq, Repr

namespace RawText

/-- The bytes of a text. -/
def ofString (text : String) : RawText := ⟨text.toList.flatMap String.utf8EncodeChar⟩

instance : Coe String RawText := ⟨ofString⟩

/-- The text, if the bytes are UTF-8. -/
def text? (r : RawText) : Option String := String.fromUTF8? r.bytes.toByteArray

/-! ## Showing bytes -/

/-- Whether a byte can only stand inside a character. -/
def isContinuation (b : UInt8) : Bool := 0x80 ≤ b && b ≤ 0xBF

/-- Whether two bytes can stand at the front of a character of three or four bytes. -/
def isFrontOfLong (first second : UInt8) : Bool :=
  if first = 0xE0 then 0xA0 ≤ second && second ≤ 0xBF
  else if first = 0xED then 0x80 ≤ second && second ≤ 0x9F
  else if first = 0xF0 then 0x90 ≤ second && second ≤ 0xBF
  else if first = 0xF4 then 0x80 ≤ second && second ≤ 0x8F
  else 0xE1 ≤ first && first ≤ 0xF3 && isContinuation second

/-- How many bytes in front are shown as one, if no character stands there: as many as could begin a
character, but at least one. -/
def brokenLength : List UInt8 → Nat
  | first :: second :: rest =>
    if !isFrontOfLong first second then 1
    else if 0xF0 ≤ first && rest.head?.any isContinuation then 3
    else 2
  | _ => 1

/-- The characters that bytes are shown as, where the first `skipped` bytes belong to what has been
shown. What is no character is shown as `U+FFFD`. -/
def shownFrom : (skipped : Nat) → List UInt8 → List Char
  | _, [] => []
  | skipped + 1, _ :: rest => shownFrom skipped rest
  | 0, first :: rest =>
    match (first :: rest.take 3).toByteArray.utf8DecodeChar? 0 with
    | some c => c :: shownFrom (c.utf8Size - 1) rest
    | none => '\uFFFD' :: shownFrom (brokenLength (first :: rest) - 1) rest

/-- The text that is shown for the bytes. -/
def shown (r : RawText) : String := String.ofList (shownFrom 0 r.bytes)

end RawText

end Apex
