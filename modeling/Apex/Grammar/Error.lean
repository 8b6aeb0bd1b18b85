import Apex.Source.Diagnostic
import Apex.Token.Basic
import Apex.Token.Fault
import Apex.Vocabulary.Modifier

/-!
# Parse errors

Why a source text is no program. Parsing stops at the first error.
-/

namespace Apex

/-- What is wrong with an annotation's value. -/
inductive AnnotationFault where
  /-- The token begins no value. -/
  | noValue (found : TokenKind)
  /-- The token goes on after a complete value. -/
  | continued (found : TokenKind)
deriving DecidableEq, Repr

/-- The reason given to the user. -/
def AnnotationFault.reason : AnnotationFault → String
  | .noValue found => found.description ++ " is not a literal, array or annotation"
  | .continued found => "unexpected " ++ found.description ++ " after value"

/-- Why parsing failed. -/
inductive ParseError where
  /-- The token at `span` is none of those that could stand there. -/
  | unexpected (span : Span) (expected : List String) (found : TokenKind)
  /-- Words in a trigger's header that name no event. -/
  | unknownTriggerEvent (span : Span) (found : String)
  /-- An annotation's value is not of the simple form required. -/
  | malformedAnnotationValue (span : Span) (fault : AnnotationFault)
  /-- A modifier is given twice. -/
  | duplicateModifier (span : Span) (modifier : Modifier)
  /-- The text has lexical faults; this is the first. -/
  | lexical (error : LexError)
deriving DecidableEq, Repr

/-- Alternatives in a sentence. -/
def listAlternatives : List String → String
  | [] => "something else"
  | [one] => one
  | several =>
    "one of " ++ String.intercalate ", " several.dropLast ++ " or " ++ several.getLastD ""

/-- The data of a report on a lexical fault. -/
def LexError.diagnostic (e : LexError) : Diagnostic := ⟨"apex::lex", none, [⟨"here", e.span⟩]⟩

namespace ParseError

/-- Where parsing failed. -/
def span : ParseError → Span
  | .unexpected span .. => span
  | .unknownTriggerEvent span _ => span
  | .malformedAnnotationValue span _ => span
  | .duplicateModifier span _ => span
  | .lexical e => e.span

/-- What the user is told. -/
def message : ParseError → String
  | .unexpected _ expected found =>
    "expected " ++ listAlternatives expected ++ ", found " ++ found.description
  | .unknownTriggerEvent _ found => "unknown trigger event '" ++ found ++ "'"
  | .malformedAnnotationValue _ fault => "malformed annotation value: " ++ fault.reason
  | .duplicateModifier _ modifier => "duplicate modifier '" ++ modifier.text ++ "'"
  | .lexical e => e.fault.message

/-- The data of a report on the error. -/
def diagnostic : ParseError → Diagnostic
  | .unexpected span _ found =>
    ⟨"apex::syntax", none, [⟨"unexpected " ++ found.description, span⟩]⟩
  | .unknownTriggerEvent span _ =>
    ⟨"apex::unknown_trigger_event",
      some "valid events are before/after insert, update, delete, and after undelete",
      [⟨"not a trigger event", span⟩]⟩
  | .malformedAnnotationValue span _ =>
    ⟨"apex::malformed_annotation_value",
      some "annotation values must be literals, `\x7b...\x7d` arrays or nested annotations",
      [⟨"invalid value", span⟩]⟩
  | .duplicateModifier span _ =>
    ⟨"apex::duplicate_modifier", none, [⟨"already specified", span⟩]⟩
  | .lexical e => e.diagnostic

end ParseError

end Apex
