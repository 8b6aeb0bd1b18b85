import Apex.Proofs.Tiling.Sources

/-!
# Where tokens and faults come from

Every token of a text but its end, and every fault of a text, comes from a lexeme: from what is read
at one character of the text, by the characters from there on. Nothing depends on what has been read
before.
-/

namespace Apex

/-! ## Lexemes of a source -/

/-- At byte `start` of the source stands the character `c`, and `cs` behind it. -/
def StandsAt (source : String) (start : Nat) (c : Char) (cs : List Char) : Prop :=
  ∃ before, source.toList = before ++ c :: cs ∧ byteSize before = start

/-- The span of the lexeme that starts with `c` at byte `start` and is followed by `cs`. -/
def Lexeme.spanAt (start : Nat) (c : Char) (cs : List Char) : Span :=
  ⟨start, start + byteSize (c :: cs.take (read start c cs).more)⟩

/-- The token comes from a lexeme of the source. -/
def Token.IsFrom (source : String) (t : Token) : Prop :=
  ∃ start c cs, StandsAt source start c cs ∧
    (Lexeme.read start c cs).content.token? (Lexeme.spanAt start c cs) = some t

/-- The fault comes from a lexeme of the source. -/
def LexError.IsFrom (source : String) (e : LexError) : Prop :=
  ∃ start c cs errors, StandsAt source start c cs ∧
    (Lexeme.read start c cs).content = .faulty errors ∧ e ∈ errors

/-- Everything read so far comes from lexemes of the source. -/
structure Lexing.IsFrom (source : String) (l : Lexing) : Prop where
  tokens : ∀ t ∈ l.tokens, t.IsFrom source
  errors : ∀ e ∈ l.errors, e.IsFrom source

namespace Lexing.IsFrom

variable {source : String} {l : Lexing}

/-- Taking in a lexeme of the source. -/
theorem add (h : l.IsFrom source) {c : Char} {cs : List Char}
    (stands : StandsAt source l.offset c cs) :
    (l.add (Lexeme.read l.offset c cs).content (Lexeme.spanAt l.offset c cs).stop).IsFrom
      source := by
  have token : ∀ t, (Lexeme.read l.offset c cs).content.token? (Lexeme.spanAt l.offset c cs) =
      some t → t.IsFrom source := fun t bears => ⟨_, c, cs, stands, bears⟩
  have fault : ∀ errors, (Lexeme.read l.offset c cs).content = .faulty errors →
      ∀ e ∈ errors, e.IsFrom source := fun errors found e mem => ⟨_, c, cs, _, stands, found, mem⟩
  generalize (Lexeme.read l.offset c cs).content = content at token fault
  cases content with
  | blank => exact ⟨h.tokens, h.errors⟩
  | token kind => exact ⟨List.forall_mem_cons.mpr ⟨token _ rfl, h.tokens⟩, h.errors⟩
  | keyword k written => exact ⟨List.forall_mem_cons.mpr ⟨token _ rfl, h.tokens⟩, h.errors⟩
  | faulty errors =>
    refine ⟨h.tokens, ?_⟩
    rw [Lexing.errors_add_faulty]
    simp only [List.mem_append, List.mem_reverse]
    rintro e (mem | mem)
    · exact fault _ rfl e mem
    · exact h.errors e mem

/-- What is read of a source comes from its lexemes, from any lexeme on. -/
theorem lexFrom (h : l.IsFrom source) {before cs : List Char}
    (whole : source.toList = before ++ cs) (start : byteSize before = l.offset) :
    (lexFrom l 0 cs).IsFrom source ∧ (Apex.lexFrom l 0 cs).offset = source.utf8ByteSize := by
  induction length : cs.length using Nat.strong_induction_on generalizing l before cs with
  | _ n ih =>
  subst length
  rcases cs with _ | ⟨c, cs⟩
  · refine ⟨h, ?_⟩
    rw [← byteSize_toList, whole, List.append_nil, start]
    rfl
  · rw [lexFrom_cons]
    have shorter : (cs.drop (Lexeme.read l.offset c cs).more).length < (c :: cs).length := by
      rw [List.length_drop, List.length_cons]
      omega
    have offset (content : LexemeContent) (stop : Nat) : (l.add content stop).offset = stop := by
      cases content <;> rfl
    have whole' : source.toList = before ++ c :: cs.take (Lexeme.read l.offset c cs).more ++
        cs.drop (Lexeme.read l.offset c cs).more := by
      rw [whole, List.append_assoc, List.cons_append, List.take_append_drop]
    refine ih _ shorter (h.add ⟨before, whole, start⟩) whole' ?_ rfl
    rw [offset, byteSize_append, start]
    rfl

end Lexing.IsFrom

/-- A token of an accepted text is its end or comes from a lexeme of it. -/
theorem eq_end_or_isFrom_of_lex {source : String} {tokens : List Token}
    (accepted : lex source = .ok tokens) {t : Token} (mem : t ∈ tokens) :
    t = .plain .endOfFile (.point source.utf8ByteSize) ∨ t.IsFrom source := by
  have fresh : Lexing.IsFrom source ⟨[], [], 0⟩ := ⟨nofun, nofun⟩
  have from' := fresh.lexFrom (List.nil_append source.toList).symm rfl
  unfold lex at accepted
  dsimp only at accepted
  split at accepted
  · cases accepted
    rw [from'.2] at mem
    rcases List.mem_cons.mp (List.mem_reverse.mp mem) with rfl | mem
    · exact .inl rfl
    · exact .inr (from'.1.tokens t mem)
  · cases accepted

/-- A fault of a text comes from a lexeme of it. -/
theorem isFrom_of_lex_error {source : String} {errors : List LexError}
    (refused : lex source = .error errors) {e : LexError} (mem : e ∈ errors) : e.IsFrom source := by
  have fresh : Lexing.IsFrom source ⟨[], [], 0⟩ := ⟨nofun, nofun⟩
  have from' := fresh.lexFrom (List.nil_append source.toList).symm rfl
  unfold lex at refused
  dsimp only at refused
  split at refused
  · cases refused
  · cases refused
    exact from'.1.errors e (List.mem_reverse.mp mem)

/-! ## What is read does not depend on what was read before -/

/-- What has been read, `n` bytes further on. -/
def Lexing.moved (n : Nat) (l : Lexing) : Lexing :=
  ⟨l.tokens.map (Token.moved n), l.errors.map (LexError.moved n), l.offset + n⟩

/-- What has been read, behind other tokens and faults. -/
def Lexing.behind (l earlier : Lexing) : Lexing :=
  ⟨l.tokens ++ earlier.tokens, l.errors ++ earlier.errors, l.offset⟩

theorem Lexing.add_moved (l : Lexing) (n : Nat) (content : LexemeContent) (stop : Nat) :
    (l.moved n).add (content.moved n) (stop + n) = (l.add content stop).moved n := by
  cases content with
  | blank | token | keyword => rfl
  | faulty errors =>
    simp only [moved, add, LexemeContent.moved, List.foldl_flip_cons_eq_append, List.map_id',
      List.map_append, List.map_reverse]

theorem Lexing.add_behind (l earlier : Lexing) (content : LexemeContent) (stop : Nat) :
    (l.behind earlier).add content stop = (l.add content stop).behind earlier := by
  cases content with
  | blank | token | keyword => rfl
  | faulty errors =>
    simp only [behind, add, List.foldl_flip_cons_eq_append, List.map_id', List.append_assoc]

/-- A text is read alike wherever it stands. -/
theorem lexFrom_moved (l : Lexing) (n skip : Nat) (cs : List Char) :
    lexFrom (l.moved n) skip cs = (lexFrom l skip cs).moved n := by
  induction cs generalizing l skip with
  | nil => cases skip <;> rfl
  | cons c cs ih =>
    cases skip with
    | succ skip => exact ih l skip
    | zero =>
      have read : Lexeme.read (l.moved n).offset c cs = (Lexeme.read l.offset c cs).moved n :=
        Lexeme.read_moved n l.offset c cs
      rw [lexFrom, lexFrom, read, ← ih, ← Lexing.add_moved]
      simp only [Lexeme.moved, Lexing.moved, Nat.add_right_comm]

/-- A text is read alike whatever has been read before. -/
theorem lexFrom_behind (l earlier : Lexing) (skip : Nat) (cs : List Char) :
    lexFrom (l.behind earlier) skip cs = (lexFrom l skip cs).behind earlier := by
  induction cs generalizing l skip with
  | nil => cases skip <;> rfl
  | cons c cs ih =>
    cases skip with
    | succ skip => exact ih l skip
    | zero =>
      rw [lexFrom, lexFrom, ← ih, ← Lexing.add_behind]
      rfl

/-- The reading of a text from a place on, by the reading of the text alone. -/
theorem lexFrom_eq (l : Lexing) (cs : List Char) :
    lexFrom l 0 cs = ((lexFrom ⟨[], [], 0⟩ 0 cs).moved l.offset).behind l := by
  have start : l = (Lexing.moved l.offset ⟨[], [], 0⟩).behind l := by
    simp [Lexing.moved, Lexing.behind]
  rw [← lexFrom_moved, ← lexFrom_behind, ← start]

/-! ## Rows of tokens -/

/-- The tokens that have been read, and the end. -/
def Lexing.row (l : Lexing) : List Token :=
  l.tokens.reverse ++ [.plain .endOfFile (.point l.offset)]

/-- An accepted text is read without faults. -/
theorem lex_eq_ok_iff {source : String} {tokens : List Token} :
    lex source = .ok tokens ↔ (lexFrom ⟨[], [], 0⟩ 0 source.toList).errors = [] ∧
      tokens = (lexFrom ⟨[], [], 0⟩ 0 source.toList).row := by
  unfold lex Lexing.row
  rw [← List.reverse_cons]
  dsimp only
  split
  · next clean =>
    rw [List.isEmpty_iff.mp clean, Except.ok.injEq]
    exact ⟨fun same => ⟨rfl, same.symm⟩, fun same => same.2.symm⟩
  · next faulty =>
    rw [List.isEmpty_iff] at faulty
    exact iff_of_false nofun fun clean => faulty clean.1

/-- What is read behind some tokens: the same tokens as of that text alone, so much further on. -/
theorem row_lexFrom (front : List Token) (t : Token) (place : Nat) (cs : List Char) :
    (lexFrom ⟨t :: front.reverse, [], place⟩ 0 cs).row =
      front ++ t :: (lexFrom ⟨[], [], 0⟩ 0 cs).row.map (Token.moved place) := by
  rw [lexFrom_eq]
  simp only [Lexing.row, Lexing.behind, Lexing.moved, List.reverse_append, List.reverse_cons,
    List.reverse_reverse, List.map_append, List.map_reverse, List.append_assoc]
  rfl

theorem errors_lexFrom_eq_nil {l : Lexing} (clean : l.errors = []) (cs : List Char) :
    (lexFrom l 0 cs).errors = [] ↔ (lexFrom ⟨[], [], 0⟩ 0 cs).errors = [] := by
  rw [lexFrom_eq]
  simp only [Lexing.behind, Lexing.moved, clean, List.append_nil, List.map_eq_nil_iff]

theorem Token.moved_moved (m n : Nat) (t : Token) : (t.moved m).moved n = t.moved (m + n) := by
  have span (s : Span) : (s.moved m).moved n = s.moved (m + n) := by
    simp only [Span.moved, Nat.add_assoc]
  have query (q : Query) : (q.moved m).moved n = q.moved (m + n) := by
    simp only [Query.moved, List.map_map, Query.mk.injEq, true_and]
    exact List.map_congr_left fun b _ => by
      simp only [Function.comp_apply, Spanned.moved, span]
  obtain ⟨kind, s, spelling⟩ := t
  cases kind <;> simp only [moved, TokenKind.moved, span, query]

theorem eq_nil_of_byteSize {cs : List Char} (size : byteSize cs = 0) : cs = [] := by
  cases cs with
  | nil => rfl
  | cons c cs =>
    have positive := c.utf8Size_pos
    rw [byteSize_cons] at size
    omega

/-- A text is cut in one way where so many bytes end. -/
theorem append_inj_of_byteSize {cs cs' ds ds' : List Char} (whole : cs ++ ds = cs' ++ ds')
    (size : byteSize cs = byteSize cs') : cs = cs' ∧ ds = ds' := by
  rcases List.append_eq_append_iff.mp whole with ⟨between, rfl, rfl⟩ | ⟨between, rfl, rfl⟩
  all_goals
    rw [byteSize_append] at size
    obtain rfl : between = [] := eq_nil_of_byteSize (by omega)
    simp

end Apex
