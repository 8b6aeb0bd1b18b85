/-!
# Words

Names and keywords are ASCII words. The language reads them without regard to letter case, so
words are compared by their lower-case form.
-/

namespace Apex

/-- Whether a character can open a word: an ASCII letter or an underscore. -/
def isWordStart (c : Char) : Bool := c.isAlpha || c == '_'

/-- Whether a character can continue a word: an ASCII letter, a digit or an underscore. -/
def isWordPart (c : Char) : Bool := c.isAlphanum || c == '_'

/-- The text with its ASCII capitals made small; all other characters stay. -/
def lowerWord (word : String) : String := word.map Char.toLower

/-- Whether two texts differ at most in the case of ASCII letters. -/
def sameWord (a b : String) : Bool := lowerWord a == lowerWord b

end Apex
