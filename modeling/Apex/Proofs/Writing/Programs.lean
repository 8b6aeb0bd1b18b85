import Apex.Layout.Format
import Apex.Proofs.Echo.Programs
import Apex.Proofs.Writing.Declarations
import Apex.Proofs.Writing.Genuine

/-!
# Formatted programs

The text of an accepted program is cut into tokens of the program's forms, and from such tokens the
grammar reads the program again. So formatting keeps what a program says, and a formatted text stays
as it is.
-/

namespace Apex

open Form

/-- The text of a sound tree spells the tree, whatever the settings are. -/
theorem CompilationUnit.spells_text {u : CompilationUnit} (sound : u.node.IsSound)
    (say : AllSayable u.forms) (settings : LayoutSettings) :
    Spells u.forms (u.text settings).toList := by
  have spelled : Spelled settings u.forms u.marks := by
    simpa using u.closed sound say Spelled.nil
  rw [text, toList_renderMarks]
  exact spelled 0 true

/-- The tokens of the text of a program are read as a tree that says the same and is written the
same. -/
theorem CompilationUnit.exists_again {tokens : List Token} {u : CompilationUnit}
    (accepted : parse tokens = .ok u) (sound : (Cursor.ofTokens tokens).Sound)
    (say : AllSayable u.forms) (settings : LayoutSettings) :
    ∃ v, parseSource (u.text settings) = .ok v ∧ u.view = v.view := by
  have spells := u.spells_text (isSound_of_parse accepted) say settings
  obtain ⟨others, lexed, stray, d', stands, ends⟩ := stands_of_spells spells
  rw [String.ofList_toList] at lexed
  obtain ⟨v, again, same⟩ := (parse_echoes accepted sound).2 stray (sorted_of_lex lexed) stands ends
  refine ⟨v, ?_, same⟩
  unfold parseSource
  rw [lexed]
  exact again

/-- Formatting keeps what a program says and settles it. If no name of an accepted source spells
`select`, in any letter case, then the formatted text is accepted, its tree is the tree of the
source apart from spans, and the text is formatted already. -/
theorem formatSource_settles {source : String} {tokens : List Token} {unit : CompilationUnit}
    (lexed : lex source = .ok tokens)
    (free : ∀ t ∈ tokens, ∀ name, t.kind = .name name → ¬IsSelect name)
    (accepted : parseSource source = .ok unit) (settings : LayoutSettings) :
    ∃ text again, formatSource source settings = .ok text ∧ parseSource text = .ok again ∧
      again.blur .erasing = unit.blur .erasing ∧ formatSource text settings = .ok text := by
  have parsed : parse tokens = .ok unit := by
    unfold parseSource at accepted
    rwa [lexed] at accepted
  -- what the tree stands for was read from the source, so it can be written again
  have sound := sound_of_lex lexed
  obtain ⟨⟨c', stands⟩, -⟩ := parse_echoes parsed sound
  have say : AllSayable unit.forms := by
    refine sayable_of_stands stands sound ?_
    rw [tokens_of_lex lexed]
    simpa using free
  obtain ⟨again, accepted', same⟩ := CompilationUnit.exists_again parsed sound say settings
  obtain ⟨erased, marks⟩ := Prod.mk.inj same
  refine ⟨unit.text settings, again, ?_, accepted', erased.symm, ?_⟩
  · unfold formatSource
    rw [accepted]
    rfl
  · have text : again.text settings = unit.text settings := by
      unfold CompilationUnit.text
      rw [marks]
    unfold formatSource
    rw [accepted']
    exact congrArg _ text

/-- A modifier before an annotation, types that end together, a cast, two signs, and an `else` that
belongs to the inner of two conditionals. -/
def innerElse : String :=
  "public @A class C \x7b A<B<D>> x = (A) y - -z; " ++
    "void m() \x7b if (a) if (b) c(); else d(); \x7d ; \x7d"

/-- The text of `innerElse` is settled, written with two spaces and gaps of one line. -/
theorem formatSource_settles_innerElse :
    ∃ tokens unit text again,
      lex innerElse = .ok tokens ∧
      (∀ t ∈ tokens, ∀ name, t.kind = .name name → ¬IsSelect name) ∧
      parseSource innerElse = .ok unit ∧
      formatSource innerElse ⟨2, 1⟩ = .ok text ∧
      parseSource text = .ok again ∧ again.blur .erasing = unit.blur .erasing ∧
      formatSource text ⟨2, 1⟩ = .ok text := by
  have others : ((lex innerElse).toOption.any fun tokens =>
      tokens.all fun t => t.kind.word?.all fun word => !sameWord "select" word) = true := by
    decide +kernel
  have parses : (parseSource innerElse).toBool = true := by
    decide +kernel
  cases lexed : lex innerElse with
  | error errors =>
    rw [lexed] at others
    cases others
  | ok tokens =>
    have free : ∀ t ∈ tokens, ∀ name, t.kind = .name name → ¬IsSelect name := by
      intro t mem name named select
      rw [lexed] at others
      have other := List.all_eq_true.mp others t mem
      rw [named, TokenKind.word?, Option.all_some, select] at other
      cases other
    cases accepted : parseSource innerElse with
    | error e =>
      rw [accepted] at parses
      cases parses
    | ok unit =>
      obtain ⟨text, again, settled⟩ := formatSource_settles lexed free accepted ⟨2, 1⟩
      exact ⟨tokens, unit, text, again, rfl, free, rfl, settled⟩

end Apex
