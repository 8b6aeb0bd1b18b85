/-!
# JSON objects of numbers

Statistics are written as JSON: objects, nested if need be, that hold numbers. Keys are plain
words, in which nothing has to be escaped.
-/

namespace Apex

/-- A JSON value made of numbers and objects. -/
inductive Json where
  /-- A number. -/
  | number (value : Nat)
  /-- An object with its members, in the order in which they are written. -/
  | object (members : List (String × Json))

namespace Json

/-- The line breaks and blanks before a member at a depth. -/
def newLine (depth : Nat) : String := "\n" ++ String.join (List.replicate depth "  ")

mutual

/-- A value at a depth of nesting, two blanks further in for every object around it. -/
def textAt (depth : Nat) : Json → String
  | .number value => toString value
  | .object [] => "\x7b\x7d"
  | .object (member :: members) =>
    "\x7b" ++ String.intercalate "," (memberTexts (depth + 1) (member :: members)) ++
      newLine depth ++ "\x7d"

/-- The members of an object, each on a line of its own. -/
def memberTexts (depth : Nat) : List (String × Json) → List String
  | [] => []
  | (key, value) :: members =>
    (newLine depth ++ "\"" ++ key ++ "\": " ++ value.textAt depth) :: memberTexts depth members

end

/-- A value over several lines. -/
def text (j : Json) : String := j.textAt 0

end Json

end Apex
