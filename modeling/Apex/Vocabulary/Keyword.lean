import Apex.Text.Word

/-!
# Keywords

The words the language gives a meaning to. Most are reserved: a word spelled like one, in any
letter case, is that keyword and nothing else. The contextual ones stay ordinary names and carry
their meaning only where the grammar asks for them.
-/

namespace Apex

/-- Every keyword, reserved or contextual. -/
inductive Keyword where
  | kwClass | kwInterface | kwEnum | kwTrigger | kwExtends | kwImplements | kwVoid
  | kwPublic | kwPrivate | kwProtected | kwGlobal | kwStatic | kwFinal | kwAbstract | kwVirtual
  | kwOverride | kwTransient | kwTestMethod | kwWebService | kwWith
  | kwIf | kwElse | kwWhile | kwDo | kwFor | kwBreak | kwContinue | kwReturn | kwThrow | kwTry
  | kwCatch | kwFinally
  | kwNew | kwThis | kwSuper | kwInstanceOf
  | kwTrue | kwFalse | kwNull
  | kwInsert | kwUpdate | kwUpsert | kwDelete | kwUndelete | kwMerge
  | kwGet | kwSet | kwSharing | kwWithout | kwInherited | kwOn | kwBefore | kwAfter | kwSystem
  | kwRunAs
deriving DecidableEq, Repr

/-- What a keyword is for. -/
inductive KeywordCategory where
  | declaration | modifier | controlFlow | expression | literal | dml | contextual
deriving DecidableEq, Repr

namespace Keyword

/-- All keywords, in the order of the register. -/
def all : List Keyword :=
  [ .kwClass, .kwInterface, .kwEnum, .kwTrigger, .kwExtends, .kwImplements, .kwVoid,
    .kwPublic, .kwPrivate, .kwProtected, .kwGlobal, .kwStatic, .kwFinal, .kwAbstract,
    .kwVirtual, .kwOverride, .kwTransient, .kwTestMethod, .kwWebService, .kwWith,
    .kwIf, .kwElse, .kwWhile, .kwDo, .kwFor, .kwBreak, .kwContinue, .kwReturn, .kwThrow, .kwTry,
    .kwCatch, .kwFinally,
    .kwNew, .kwThis, .kwSuper, .kwInstanceOf,
    .kwTrue, .kwFalse, .kwNull,
    .kwInsert, .kwUpdate, .kwUpsert, .kwDelete, .kwUndelete, .kwMerge,
    .kwGet, .kwSet, .kwSharing, .kwWithout, .kwInherited, .kwOn, .kwBefore, .kwAfter, .kwSystem,
    .kwRunAs ]

/-- The spelling in lower case. -/
def word : Keyword → String
  | .kwClass => "class"
  | .kwInterface => "interface"
  | .kwEnum => "enum"
  | .kwTrigger => "trigger"
  | .kwExtends => "extends"
  | .kwImplements => "implements"
  | .kwVoid => "void"
  | .kwPublic => "public"
  | .kwPrivate => "private"
  | .kwProtected => "protected"
  | .kwGlobal => "global"
  | .kwStatic => "static"
  | .kwFinal => "final"
  | .kwAbstract => "abstract"
  | .kwVirtual => "virtual"
  | .kwOverride => "override"
  | .kwTransient => "transient"
  | .kwTestMethod => "testmethod"
  | .kwWebService => "webservice"
  | .kwWith => "with"
  | .kwIf => "if"
  | .kwElse => "else"
  | .kwWhile => "while"
  | .kwDo => "do"
  | .kwFor => "for"
  | .kwBreak => "break"
  | .kwContinue => "continue"
  | .kwReturn => "return"
  | .kwThrow => "throw"
  | .kwTry => "try"
  | .kwCatch => "catch"
  | .kwFinally => "finally"
  | .kwNew => "new"
  | .kwThis => "this"
  | .kwSuper => "super"
  | .kwInstanceOf => "instanceof"
  | .kwTrue => "true"
  | .kwFalse => "false"
  | .kwNull => "null"
  | .kwInsert => "insert"
  | .kwUpdate => "update"
  | .kwUpsert => "upsert"
  | .kwDelete => "delete"
  | .kwUndelete => "undelete"
  | .kwMerge => "merge"
  | .kwGet => "get"
  | .kwSet => "set"
  | .kwSharing => "sharing"
  | .kwWithout => "without"
  | .kwInherited => "inherited"
  | .kwOn => "on"
  | .kwBefore => "before"
  | .kwAfter => "after"
  | .kwSystem => "system"
  | .kwRunAs => "runas"

/-- What the keyword is for. -/
def category : Keyword → KeywordCategory
  | .kwClass | .kwInterface | .kwEnum | .kwTrigger | .kwExtends | .kwImplements | .kwVoid =>
    .declaration
  | .kwPublic | .kwPrivate | .kwProtected | .kwGlobal | .kwStatic | .kwFinal | .kwAbstract
  | .kwVirtual | .kwOverride | .kwTransient | .kwTestMethod | .kwWebService | .kwWith => .modifier
  | .kwIf | .kwElse | .kwWhile | .kwDo | .kwFor | .kwBreak | .kwContinue | .kwReturn | .kwThrow
  | .kwTry | .kwCatch | .kwFinally => .controlFlow
  | .kwNew | .kwThis | .kwSuper | .kwInstanceOf => .expression
  | .kwTrue | .kwFalse | .kwNull => .literal
  | .kwInsert | .kwUpdate | .kwUpsert | .kwDelete | .kwUndelete | .kwMerge => .dml
  | .kwGet | .kwSet | .kwSharing | .kwWithout | .kwInherited | .kwOn | .kwBefore | .kwAfter
  | .kwSystem | .kwRunAs => .contextual

/-- Whether the keyword can never be a name. -/
def isReserved (k : Keyword) : Bool := k.category != .contextual

/-- The keyword, reserved or contextual, that a word spells in any letter case. -/
def ofWord? (word : String) : Option Keyword :=
  let lower := lowerWord word
  all.find? (·.word == lower)

/-- The reserved keyword that a word spells. -/
def reservedOfWord? (word : String) : Option Keyword := (ofWord? word).filter isReserved

/-- Whether a name spells the keyword, in any letter case. -/
def isSpelledBy (k : Keyword) (name : String) : Bool := sameWord k.word name

end Keyword

end Apex
