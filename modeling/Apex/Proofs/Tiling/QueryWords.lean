import Apex.Proofs.Tiling.Places

/-!
# Words that announce a query

Behind an opening bracket the reader looks for a word that announces a query. What it finds does not
depend on which white space stands there. Where it finds none, the bracket is a mark.
-/

namespace Apex

/-! ## The words behind a bracket -/

/-- The query language that a word announces, given what follows the word. -/
def queryNext? (word : String) (after : List Char) : Option QueryLanguage :=
  if (after.head?.map isWhiteSpace).getD false then
    match after.dropWhile isWhiteSpace with
    | c :: _ =>
      if sameWord "select" word && isWordStart c then some .soql
      else if sameWord "find" word && (c = '\'' || c = '\x7b' || c = ':') then some .sosl
      else none
    | [] => none
  else none

theorem queryAhead?_eq (text : List Char) :
    queryAhead? text =
      queryNext? (String.ofList ((text.dropWhile isWhiteSpace).takeWhile isWordPart))
        ((text.dropWhile isWhiteSpace).dropWhile isWordPart) := rfl

/-- The words that announce a query. -/
def IsQueryWord (word : String) : Prop := sameWord "select" word ∨ sameWord "find" word

theorem isQueryWord_of_queryNext? {word : String} {after : List Char}
    (some : queryNext? word after ≠ none) : IsQueryWord word := by
  by_contra other
  obtain ⟨noSelect, noFind⟩ := not_or.mp other
  refine some ?_
  unfold queryNext?
  simp only [noSelect, noFind, Bool.false_and, Bool.false_eq_true, if_false]
  split
  · split <;> rfl
  · rfl

theorem queryNext?_congr (word : String) {after after' : List Char}
    (head : after.head?.map isWhiteSpace = after'.head?.map isWhiteSpace)
    (next : (after.dropWhile isWhiteSpace).head? = (after'.dropWhile isWhiteSpace).head?) :
    queryNext? word after = queryNext? word after' := by
  unfold queryNext?
  rw [head]
  split
  · revert next
    cases after.dropWhile isWhiteSpace <;> cases after'.dropWhile isWhiteSpace <;> intro next
    · rfl
    · cases next
    · cases next
    · cases next
      rfl
  · rfl

theorem head?_append_of_ne_nil {cs : List Char} (nonempty : cs ≠ []) (after after' : List Char) :
    (cs ++ after).head? = (cs ++ after').head? := by
  cases cs with
  | nil => exact absurd rfl nonempty
  | cons c cs => rfl

/-- What follows a word is settled by its first character that is no white space. -/
theorem queryNext?_append (word : String) {text : List Char}
    (visible : text.dropWhile isWhiteSpace ≠ []) (after after' : List Char) :
    queryNext? word (text ++ after) = queryNext? word (text ++ after') := by
  have nonempty : text ≠ [] := by
    rintro rfl
    exact visible rfl
  have isEmpty : (text.dropWhile isWhiteSpace).isEmpty = false := by simpa using visible
  refine queryNext?_congr word (by rw [head?_append_of_ne_nil nonempty]) ?_
  rw [List.dropWhile_append, List.dropWhile_append, isEmpty]
  exact head?_append_of_ne_nil visible _ _

/-- The word behind a bracket ends where blank space starts. -/
theorem queryAhead?_append {x : Char} (hx : isWordPart x = false) {text : List Char}
    (visible : text.dropWhile isWhiteSpace ≠ []) (xs : List Char) :
    queryAhead? (text ++ x :: xs) =
      queryNext? (String.ofList ((text.dropWhile isWhiteSpace).takeWhile isWordPart))
        ((text.dropWhile isWhiteSpace).dropWhile isWordPart ++ x :: xs) := by
  have isEmpty : (text.dropWhile isWhiteSpace).isEmpty = false := by simpa using visible
  rw [queryAhead?_eq, List.dropWhile_append, isEmpty]
  simp only [Bool.false_eq_true, if_false, takeWhile_append_stop hx, dropWhile_append_stop hx]

theorem dropWhile_spaces {spaces : List Char} (all : spaces.all isWhiteSpace) (after : List Char) :
    (spaces ++ after).dropWhile isWhiteSpace = after.dropWhile isWhiteSpace := by
  rw [List.dropWhile_append, if_pos]
  rw [List.isEmpty_iff, List.dropWhile_eq_nil_iff]
  exact List.all_eq_true.mp all

theorem all_of_dropWhile_eq_nil {p : Char → Bool} {cs : List Char} (none : cs.dropWhile p = []) :
    cs.all p :=
  List.all_eq_true.mpr (List.dropWhile_eq_nil_iff.mp none)

/-- White space behind a bracket is as good as a space. -/
theorem queryAhead?_spaces {x : Char} {spaces : List Char} (hx : isWordPart x = false)
    (all : (x :: spaces).all isWhiteSpace) (text after : List Char) :
    queryAhead? (text ++ x :: (spaces ++ after)) = queryAhead? (text ++ ' ' :: after) := by
  have space : [' '].all isWhiteSpace := by decide
  have same : (x :: (spaces ++ after)).dropWhile isWhiteSpace = (' ' :: after).dropWhile isWhiteSpace :=
    (dropWhile_spaces all after).trans (dropWhile_spaces space after).symm
  by_cases visible : text.dropWhile isWhiteSpace = []
  · rw [queryAhead?_eq, queryAhead?_eq, dropWhile_spaces (all_of_dropWhile_eq_nil visible),
      dropWhile_spaces (all_of_dropWhile_eq_nil visible), same]
  · rw [queryAhead?_append hx visible, queryAhead?_append (by decide) visible]
    generalize (text.dropWhile isWhiteSpace).dropWhile isWordPart = tail
    by_cases visible' : tail.dropWhile isWhiteSpace = []
    · have blank := all_of_dropWhile_eq_nil visible'
      refine queryNext?_congr _ ?_ ?_
      · cases tail with
        | nil =>
          have white : isWhiteSpace x = true := List.all_eq_true.mp all x List.mem_cons_self
          exact congrArg some white
        | cons c tail => rfl
      · rw [dropWhile_spaces blank, dropWhile_spaces blank, same]
    · exact queryNext?_append _ visible' _ _

/-! ## White space and words that are read -/

theorem isWhiteSpace_of_isWordStart {c : Char} (letter : isWordStart c) : isWhiteSpace c = false := by
  unfold isWordStart at letter
  rw [Bool.or_eq_true, isAlpha_iff, beq_iff_eq] at letter
  rcases letter with letter | rfl
  · exact isWhiteSpace_of_visible (by omega) (by omega)
  · decide

theorem isGap_of_isWordStart {c : Char} (letter : isWordStart c) : ¬isGap c := by
  intro gap
  unfold isGap at gap
  simp only [Bool.or_eq_true, beq_iff_eq] at gap
  rcases gap with (((rfl | rfl) | rfl) | rfl) | rfl <;> exact absurd letter (by decide)

theorem isGap_of_isDigit {c : Char} (digit : c.isDigit) : ¬isGap c := by
  intro gap
  unfold isGap at gap
  simp only [Bool.or_eq_true, beq_iff_eq] at gap
  rcases gap with (((rfl | rfl) | rfl) | rfl) | rfl <;> exact absurd digit (by decide)

theorem isWhiteSpace_of_isDigit {c : Char} (digit : c.isDigit) : isWhiteSpace c = false := by
  rw [isDigit_iff] at digit
  exact isWhiteSpace_of_visible (by omega) (by omega)

theorem isWordPart_of_isWhiteSpace {c : Char} (white : isWhiteSpace c) : isWordPart c = false := by
  by_contra part
  have cases : isWordStart c ∨ c.isDigit := by
    unfold isWordPart Char.isAlphanum at part
    unfold isWordStart
    simp only [Bool.not_eq_false, Bool.or_eq_true] at part ⊢
    tauto
  rcases cases with letter | digit
  · rw [isWhiteSpace_of_isWordStart letter] at white
    exact nomatch white
  · rw [isWhiteSpace_of_isDigit digit] at white
    exact nomatch white

theorem lowerWord_of_isQueryWord {word : String} (isQuery : IsQueryWord word) :
    lowerWord word = "select" ∨ lowerWord word = "find" := by
  unfold IsQueryWord sameWord at isQuery
  rw [beq_iff_eq, beq_iff_eq] at isQuery
  refine isQuery.imp (fun same => same.symm.trans ?_) fun same => same.symm.trans ?_
  all_goals decide +kernel

theorem isWord_of_isQueryWord {cs : List Char} (isQuery : IsQueryWord (String.ofList cs)) :
    (cs.head?.map isWordStart).getD false ∧ cs.all isWordPart := by
  have lower : cs.map Char.toLower = "select".toList ∨ cs.map Char.toLower = "find".toList := by
    refine (lowerWord_of_isQueryWord isQuery).imp (fun lower => ?_) fun lower => ?_
    all_goals rw [← lower, lowerWord_ofList, String.toList_ofList]
  have parts : (cs.map Char.toLower).all isWordPart = cs.all isWordPart := by
    rw [List.all_map]
    exact congrArg cs.all (funext isWordPart_toLower)
  rw [← wordAhead_lower, ← parts]
  rcases lower with lower | lower <;> rw [lower] <;> decide

/-- A bracket that opens no query is a mark. -/
theorem Lexeme.read_bracket {cs : List Char} (noQuery : queryAhead? cs = none) (start : Nat) :
    read start '[' cs = ⟨0, .token (.punctuation .openBracket)⟩ := by
  have sign : Reads start '[' cs (sign start '[' cs) :=
    .sign (by decide) (by decide) (by decide) (by decide) nofun nofun
  rw [sign.eq, Lexeme.sign, if_pos rfl, noQuery]
  rfl

end Apex
