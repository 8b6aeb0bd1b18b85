import Apex.Vocabulary.Keyword

/-!
# Modifiers

The words before a declaration that say who may see it and how it behaves. Most are one keyword;
the three on record sharing are a word followed by `sharing`.
-/

namespace Apex

/-- What a modifier controls. -/
inductive ModifierCategory where
  | visibility | inheritance | sharing | storage | test | webService
deriving DecidableEq, Repr

/-- Every modifier. -/
inductive Modifier where
  | isPublic | isPrivate | isProtected | isGlobal | isStatic | isFinal | isTransient | isAbstract
  | isVirtual | isOverride | isTestMethod | isWebService
  | withSharing | withoutSharing | inheritedSharing
deriving DecidableEq, Repr

namespace Modifier

/-- All modifiers, in the order of the register. -/
def all : List Modifier :=
  [ .isPublic, .isPrivate, .isProtected, .isGlobal, .isStatic, .isFinal, .isTransient, .isAbstract,
    .isVirtual, .isOverride, .isTestMethod, .isWebService,
    .withSharing, .withoutSharing, .inheritedSharing ]

/-- How the modifier is written. -/
def text : Modifier → String
  | .isPublic => "public"
  | .isPrivate => "private"
  | .isProtected => "protected"
  | .isGlobal => "global"
  | .isStatic => "static"
  | .isFinal => "final"
  | .isTransient => "transient"
  | .isAbstract => "abstract"
  | .isVirtual => "virtual"
  | .isOverride => "override"
  | .isTestMethod => "testMethod"
  | .isWebService => "webService"
  | .withSharing => "with sharing"
  | .withoutSharing => "without sharing"
  | .inheritedSharing => "inherited sharing"

/-- What the modifier controls. -/
def category : Modifier → ModifierCategory
  | .isPublic | .isPrivate | .isProtected | .isGlobal => .visibility
  | .isStatic | .isFinal | .isTransient => .storage
  | .isAbstract | .isVirtual | .isOverride => .inheritance
  | .isTestMethod => .test
  | .isWebService => .webService
  | .withSharing | .withoutSharing | .inheritedSharing => .sharing

/-- The keyword that spells the modifier, where one word does. -/
def keyword? : Modifier → Option Keyword
  | .isPublic => some .kwPublic
  | .isPrivate => some .kwPrivate
  | .isProtected => some .kwProtected
  | .isGlobal => some .kwGlobal
  | .isStatic => some .kwStatic
  | .isFinal => some .kwFinal
  | .isTransient => some .kwTransient
  | .isAbstract => some .kwAbstract
  | .isVirtual => some .kwVirtual
  | .isOverride => some .kwOverride
  | .isTestMethod => some .kwTestMethod
  | .isWebService => some .kwWebService
  | .withSharing | .withoutSharing | .inheritedSharing => none

/-- The modifier that a single keyword spells. -/
def ofKeyword? (k : Keyword) : Option Modifier := all.find? (·.keyword? == some k)

end Modifier

end Apex
