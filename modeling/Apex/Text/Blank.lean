/-!
# Blank characters

Two notions of blank space meet in this language. Between tokens only a handful of characters may
stand. When the scanner decides whether an opening bracket starts an embedded query it looks past
every character with the Unicode property `White_Space`.
-/

namespace Apex

/-- Characters with the Unicode property `White_Space`. -/
def isWhiteSpace (c : Char) : Bool :=
  (0x09 ≤ c.val && c.val ≤ 0x0D) || c.val == 0x20 || c.val == 0x85 || c.val == 0xA0 ||
    c.val == 0x1680 || (0x2000 ≤ c.val && c.val ≤ 0x200A) || c.val == 0x2028 ||
    c.val == 0x2029 || c.val == 0x202F || c.val == 0x205F || c.val == 0x3000

/-- Characters that may stand between tokens: space, tab, line feed, carriage return and the
byte order mark. -/
def isGap (c : Char) : Bool :=
  c == ' ' || c == '\t' || c == '\n' || c == '\r' || c == '\uFEFF'

end Apex
