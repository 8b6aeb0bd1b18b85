import Apex.Grammar.Declaration
import Apex.Token.Lexer

/-!
# Parsing a program

The grammar is tied together level by level, up to the depth to which programs may be nested, and
run over a whole source file.
-/

namespace Apex

namespace Grammar

/-- The constructs that may be read above a level, given those below it. -/
def above (deeper : Deeper) : Deeper where
  typeRef := typeRef deeper.typeRef
  annotationMark := annotationMark deeper
  annotationValue := annotationValue deeper
  assignment := assignment deeper
  ternary := ternary deeper
  unary := unary deeper
  statement := statement deeper
  typeDeclaration := typeDeclaration deeper
  ahead look := Parser.matchesAhead (look (typeRef deeper.typeRef))

/-- The constructs that may be nested `depth` levels deep. -/
def levels : (depth : Nat) → Deeper
  | 0 => .bottom
  | depth + 1 => above (levels depth)

/-- The span from the given one to the token read last. -/
def throughPrevious (start : Span) : Parser Span := fun c =>
  match c.previous? with
  | some last => .ok (start.merge last.span, c)
  | none => .ok (start, c)

/-- The declaration of a file, with the semicolons behind it. A file may hold semicolons only. -/
def declarationAndSemicolons (deeper : Deeper) : Parser (Declaration × Nat) := do
  let start ← Parser.here
  if (← get).atEnd || (← Parser.isAt (.punctuation .semicolon)) then
    let count ← Parser.semicolons
    return (.nothing (← throughPrevious start), count)
  let found ← declaration deeper
  return (found, ← Parser.semicolons)

/-- A whole file. -/
def compilationUnit (deeper : Deeper) : Parser CompilationUnit := do
  let start ← Parser.here
  let (declaration, semicolons) ← declarationAndSemicolons deeper
  if !(← get).atEnd then Parser.fail [TokenKind.endOfFile.description]
  return ⟨← throughPrevious start, declaration, semicolons⟩

end Grammar

/-- The depth to which expressions, statements, types, annotations and member types may be nested
in each other. -/
def maxNesting : Nat := 1000

/-- The tree of a row of tokens, given what may be nested in it. Tokens behind an end of file that
is not the last token are refused, since they would go unread. -/
def parseWith (deeper : Deeper) (tokens : List Token) : Except ParseError CompilationUnit :=
  let c := Cursor.ofTokens tokens
  match c.strayAfterEnd? with
  | some stray => .error (.unexpected stray.span ["end of token stream"] stray.kind)
  | none => (Grammar.compilationUnit deeper c).map Prod.fst

/-- The tree of a row of tokens nested to a depth of at most `depth`. -/
def parseWithin (depth : Nat) (tokens : List Token) : Except ParseError CompilationUnit :=
  parseWith (Grammar.levels depth) tokens

/-- The tree of a row of tokens. A missing end of file is added. -/
def parse (tokens : List Token) : Except ParseError CompilationUnit := parseWithin maxNesting tokens

/-- The tree of a source text. Of several lexical faults the first is reported. -/
def parseSource (source : String) : Except ParseError CompilationUnit :=
  match lex source with
  | .ok tokens => parse tokens
  | .error (first :: _) => .error (.lexical first)
  | .error [] => .error (.unexpected (Span.point 0) [] .endOfFile)

end Apex
