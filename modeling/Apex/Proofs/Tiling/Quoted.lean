import Apex.Proofs.Tiling.Places

/-!
# Quoted literals are read back

Writing a text as a literal and reading a literal undo each other: whatever the text holds, the
literal written for it is read as one token with that text in it, and what stands behind the literal
is read as if it stood alone.
-/

namespace Apex

/-! ## Literals -/

/-- A character is written as an escape that stands for it, or as itself if it is no quote, no
backslash and no line break. -/
theorem escapeChar_cases (c : Char) :
    (∃ letter, escapeChar c = ['\\', letter] ∧ unescapeLetter? letter = some c ∧ letter ≠ 'u') ∨
      (escapeChar c = [c] ∧ c ≠ '\'' ∧ c ≠ '\\' ∧ c ≠ '\n') := by
  unfold escapeChar
  cases escaped : escapeLetter? c with
  | some letter =>
    refine .inl ⟨letter, rfl, ?_⟩
    unfold escapeLetter? at escaped
    split_ifs at escaped <;> cases escaped <;> rename_i same <;> subst same <;> decide
  | none =>
    refine .inr ⟨rfl, ?_, ?_, ?_⟩
    all_goals
      rintro rfl
      exact nomatch escaped

/-- The closing quote of a written literal is the first one that is not escaped. -/
theorem quotedLength_escaped (n : Nat) (text rest : List Char) :
    quotedLength n (text.flatMap escapeChar ++ '\'' :: rest) =
      (n + (text.flatMap escapeChar).length, .closed) := by
  induction text generalizing n with
  | nil => rfl
  | cons c text ih =>
    rw [List.flatMap_cons, List.append_assoc]
    rcases escapeChar_cases c with ⟨letter, written, -, -⟩ | ⟨written, quote, backslash, newline⟩
    · rw [written, List.cons_append, List.cons_append, List.nil_append, quotedLength.eq_5, ih]
      simp only [List.length_append, List.length_cons, List.length_nil, Prod.mk.injEq, and_true]
      omega
    · rw [written, List.cons_append, List.nil_append, quotedLength.eq_6 _ _ _ quote newline
        (absurd · backslash) fun _ _ => (absurd · backslash), ih]
      simp only [List.length_append, List.length_cons, List.length_nil, Prod.mk.injEq, and_true]
      omega

/-- Between the quotes of a written literal stands what was written, without a fault. -/
theorem decodeQuoted_escaped (found : Decoding) (offset : Nat) (text : List Char) :
    decodeQuoted found offset 0 (text.flatMap escapeChar) =
      { found with value := text.reverse ++ found.value } := by
  induction text generalizing found offset with
  | nil => rfl
  | cons c text ih =>
    rw [List.flatMap_cons, List.reverse_cons, List.append_assoc]
    rcases escapeChar_cases c with ⟨letter, written, undone, noCode⟩ | ⟨written, -, backslash, -⟩
    · rw [written, List.cons_append, List.cons_append, List.nil_append,
        decodeQuoted.eq_4 _ _ _ _ noCode, undone, ih]
      rfl
    · rw [written, List.cons_append, List.nil_append, decodeQuoted.eq_5 _ _ _ _
        (fun _ => (absurd · backslash)) fun _ _ => (absurd · backslash), ih]
      rfl

/-- A written literal is one lexeme, whatever follows it. -/
theorem Lexeme.quoted_escaped (start : Nat) (text rest : List Char) :
    quoted start (text.flatMap escapeChar ++ '\'' :: rest) =
      ⟨(text.flatMap escapeChar).length + 1, .token (.string (String.ofList text))⟩ := by
  have closing := quotedLength_escaped 0 text rest
  rw [Nat.zero_add] at closing
  unfold quoted
  rw [closing]
  simp only [List.take_left, decodeQuoted_escaped, List.append_nil, List.reverse_reverse]
  rfl

/-- What stands behind a written literal is read next. -/
theorem lexFrom_quote (text : String) (rest : List Char) :
    lexFrom ⟨[], [], 0⟩ 0 ((quote text).toList ++ rest) =
      lexFrom ⟨[.plain (.string text) ⟨0, (quote text).utf8ByteSize⟩], [],
        (quote text).utf8ByteSize⟩ 0 rest := by
  have written : (quote text).toList = '\'' :: text.toList.flatMap escapeChar ++ ['\''] := by
    rw [quote, String.toList_ofList]
  rw [← byteSize_toList, written]
  generalize inner : text.toList.flatMap escapeChar = escaped
  have read : Lexeme.read 0 '\'' (escaped ++ '\'' :: rest) =
      ⟨escaped.length + 1, .token (.string text)⟩ := by
    rw [Lexeme.read_quote, ← inner, Lexeme.quoted_escaped, String.ofList_toList]
  rw [List.append_assoc, List.singleton_append, List.cons_append, lexFrom_cons, read]
  simp only [List.take_length_add_append, List.drop_length_add_append, List.take_succ_cons,
    List.take_zero, List.drop_succ_cons, List.drop_zero, Nat.zero_add]
  rfl

/-- Every text can be written as a literal: the literal is read as one token with that text in it,
which reaches to the closing quote, and what stands behind it is read as if it stood alone, only
further on. In particular the literal alone is read as this token and the end of the text. -/
theorem lex_quote_append (text rest : String) :
    lex (quote text) =
        .ok [.plain (.string text) ⟨0, (quote text).utf8ByteSize⟩,
          .plain .endOfFile (.point (quote text).utf8ByteSize)] ∧
      lex (quote text ++ rest) =
        match lex rest with
        | .ok tokens =>
          .ok (.plain (.string text) ⟨0, (quote text).utf8ByteSize⟩ ::
            tokens.map (Token.moved (quote text).utf8ByteSize))
        | .error errors => .error (errors.map (LexError.moved (quote text).utf8ByteSize)) := by
  constructor
  · have alone := lexFrom_quote text []
    rw [List.append_nil] at alone
    unfold lex
    rw [alone]
    rfl
  · unfold lex
    rw [String.toList_append, lexFrom_quote, lexFrom_eq]
    generalize lexFrom ⟨[], [], 0⟩ 0 rest.toList = l
    simp only [Lexing.behind, Lexing.moved, List.append_nil, List.isEmpty_map]
    split
    · simp only [List.reverse_cons, List.reverse_append, List.map_append, List.map_reverse,
        List.map_cons, List.map_nil, List.reverse_nil, List.nil_append, List.cons_append]
      rfl
    · simp only [List.map_reverse]

end Apex
