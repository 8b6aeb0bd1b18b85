import Apex.Proofs.Safety.Families
import Apex.Proofs.Tiling.Queries

/-!
# Safe spans

A span is safe to use on a source text if the text can be cut there. The spans of tokens, of bound
variables and of faults are safe, since each of them covers a piece of a lexeme, and so is the joint
span of two safe ones.
-/

namespace Apex

/-- The span can be used on the source text. -/
structure Span.IsSafe (source : String) (s : Span) : Prop where
  /-- It does not end before it starts, so it has a length. -/
  ordered : s.start ≤ s.stop
  /-- It does not reach behind the end of the text. -/
  inside : s.stop ≤ source.utf8ByteSize
  /-- It starts between two characters, not inside one. -/
  start : String.Pos.Raw.IsValid source ⟨s.start⟩
  /-- It ends between two characters, not inside one. -/
  stop : String.Pos.Raw.IsValid source ⟨s.stop⟩
  /-- There is a piece of the text under it, which is as long as the span. -/
  slice : ∃ text, s.slice? source = some text ∧ text.utf8ByteSize = s.length

/-! ## Pieces of a text -/

/-- The span covers a piece of a text that starts at byte `start`. -/
def Span.Cuts (start : Nat) (text : List Char) (s : Span) : Prop :=
  ∃ before piece after, text = before ++ piece ++ after ∧
    s = ⟨start + byteSize before, start + byteSize before + byteSize piece⟩

namespace Span.Cuts

variable {start : Nat} {text : List Char} {s : Span}

/-- The piece in front. -/
theorem take (start n : Nat) (text : List Char) :
    Cuts start text ⟨start, start + byteSize (text.take n)⟩ :=
  ⟨[], text.take n, text.drop n, (List.take_append_drop n text).symm, rfl⟩

/-- A piece of the end of a text is a piece of the text. -/
theorem behind {before : List Char} (h : Cuts (start + byteSize before) text s) :
    Cuts start (before ++ text) s := by
  obtain ⟨front, piece, after, rfl, rfl⟩ := h
  refine ⟨before ++ front, piece, after, ?_, ?_⟩
  · simp only [List.append_assoc]
  · rw [byteSize_append, Nat.add_assoc]

theorem cons {c : Char} (h : Cuts (start + c.utf8Size) text s) : Cuts start (c :: text) s := by
  have one : byteSize [c] = c.utf8Size := by simp
  rw [← one] at h
  exact h.behind

/-- A piece of the front of a text is a piece of the text. -/
theorem append (h : Cuts start text s) (rest : List Char) : Cuts start (text ++ rest) s := by
  obtain ⟨before, piece, after, rfl, rfl⟩ := h
  exact ⟨before, piece, after ++ rest, by simp only [List.append_assoc], rfl⟩

end Span.Cuts

/-! ## Safe spans -/

/-- A place is valid where some characters of the text end. -/
theorem isValid_of_append {source : String} {before after : List Char}
    (whole : source.toList = before ++ after) :
    String.Pos.Raw.IsValid source ⟨byteSize before⟩ := by
  refine String.Pos.Raw.isValid_iff_exists_append.mpr
    ⟨String.ofList before, String.ofList after, ?_, ?_⟩
  · rw [← String.ofList_append, ← whole, String.ofList_toList]
  · have size : byteSize before = (String.ofList before).utf8ByteSize := by
      rw [← byteSize_toList, String.toList_ofList]
    rw [size]
    rfl

theorem exists_append_of_isValid {source : String} {n : Nat}
    (valid : String.Pos.Raw.IsValid source ⟨n⟩) :
    ∃ before after, source.toList = before ++ after ∧ byteSize before = n := by
  obtain ⟨before, after, rfl, place⟩ := String.Pos.Raw.isValid_iff_exists_append.mp valid
  refine ⟨before.toList, after.toList, String.toList_append, ?_⟩
  rw [byteSize_toList]
  exact (congrArg String.Pos.Raw.byteIdx place).symm

namespace Span

variable {source : String} {s s' : Span}

/-- A span that covers a piece of the text is safe. -/
theorem Cuts.isSafe (h : Cuts 0 source.toList s) : s.IsSafe source := by
  obtain ⟨before, piece, after, whole, rfl⟩ := h
  rw [Nat.zero_add]
  have size : source.utf8ByteSize = byteSize before + byteSize piece + byteSize after := by
    rw [← byteSize_toList, whole, byteSize_append, byteSize_append]
  constructor
  · exact Nat.le_add_right _ _
  · exact size ▸ Nat.le_add_right _ _
  · exact isValid_of_append (whole.trans (List.append_assoc _ _ _))
  · rw [← byteSize_append]
    exact isValid_of_append whole
  · refine ⟨_, Span.slice?_of_append before piece after whole, ?_⟩
    rw [← byteSize_toList, String.toList_ofList]
    exact (Nat.add_sub_cancel_left _ _).symm

/-- A span between two valid places is safe. -/
theorem isSafe_of_isValid (ordered : s.start ≤ s.stop)
    (start : String.Pos.Raw.IsValid source ⟨s.start⟩)
    (stop : String.Pos.Raw.IsValid source ⟨s.stop⟩) : s.IsSafe source := by
  obtain ⟨before, after, whole, hstart⟩ := exists_append_of_isValid start
  obtain ⟨before', after', whole', hstop⟩ := exists_append_of_isValid stop
  refine Cuts.isSafe ?_
  rcases List.append_eq_append_iff.mp (whole.symm.trans whole') with
    ⟨piece, rfl, rfl⟩ | ⟨piece, rfl, rfl⟩
  · refine ⟨before, piece, after', whole', ?_⟩
    rw [Nat.zero_add, ← byteSize_append, hstart, hstop]
  · -- the end stands in front of the start, so nothing is between them
    have both := byteSize_append before' piece
    obtain rfl : piece = [] := eq_nil_of_byteSize (by omega)
    rw [byteSize_nil] at both
    refine ⟨before', [], after, by simpa using whole', ?_⟩
    rw [Nat.zero_add, byteSize_nil, Nat.add_zero, hstop]
    exact congrArg (Span.mk · s.stop) (by omega)

theorem IsSafe.merge (h : s.IsSafe source) (h' : s'.IsSafe source) :
    (s.merge s').IsSafe source := by
  refine isSafe_of_isValid ?_ ?_ ?_
  · exact (Nat.min_le_left _ _).trans (h.ordered.trans (Nat.le_max_left _ _))
  · rcases Nat.le_total s.start s'.start with first | first
    · simpa only [Span.merge, Nat.min_eq_left first] using h.start
    · simpa only [Span.merge, Nat.min_eq_right first] using h'.start
  · rcases Nat.le_total s.stop s'.stop with last | last
    · simpa only [Span.merge, Nat.max_eq_right last] using h'.stop
    · simpa only [Span.merge, Nat.max_eq_left last] using h.stop

theorem isSafe_point_zero (source : String) : (point 0).IsSafe source :=
  Cuts.isSafe ⟨[], [], source.toList, rfl, rfl⟩

theorem isSafe_point_end (source : String) : (point source.utf8ByteSize).IsSafe source := by
  refine Cuts.isSafe ⟨source.toList, [], [], by simp, ?_⟩
  rw [byteSize_toList, Nat.zero_add]
  rfl

/-- The spans that are safe to use on a source text. -/
def safe (source : String) : Family := ⟨IsSafe source, IsSafe.merge⟩

end Span

/-- A piece of what stands at a place of the source is a piece of the source. -/
theorem StandsAt.isSafe {source : String} {start : Nat} {c : Char} {cs : List Char}
    (stands : StandsAt source start c cs) {s : Span} (cuts : s.Cuts start (c :: cs)) :
    s.IsSafe source := by
  obtain ⟨before, whole, rfl⟩ := stands
  refine Span.Cuts.isSafe ?_
  rw [whole]
  exact Span.Cuts.behind (by rwa [Nat.zero_add])

/-! ## Faults -/

theorem utf8Size_of_hexDigit? {c : Char} {d : Nat} (digit : hexDigit? c = some d) :
    c.utf8Size = 1 := by
  have below (top : Char) (small : top.val ≤ 127) (le : c ≤ top) : c.utf8Size = 1 :=
    Char.utf8Size_eq_one_iff.mpr (UInt32.le_trans le small)
  unfold hexDigit? at digit
  split at digit
  · next range => exact below '9' (by decide) range.2
  split at digit
  · next range => exact below 'f' (by decide) range.2
  split at digit
  · next range => exact below 'F' (by decide) range.2
  · cases digit

theorem byteSize_hexRun (limit value : Nat) (cs : List Char) :
    byteSize (cs.take (hexRun limit value cs).1) = (hexRun limit value cs).1 := by
  fun_induction hexRun limit value cs with
  | case1 | case2 | case4 => rfl
  | case3 limit value c cs d digit n v run ih =>
    rw [run] at ih
    rw [List.take_succ_cons, byteSize_cons, ih, utf8Size_of_hexDigit? digit, Nat.add_comm]

/-- A fault inside of a quoted literal is an escape in it. -/
theorem cuts_decodeQuoted (found : Decoding) (offset skip : Nat) (cs : List Char) :
    ∀ e ∈ (decodeQuoted found offset skip cs).errors,
      e ∈ found.errors ∨ e.span.Cuts offset cs := by
  have backslash : '\\'.utf8Size = 1 := rfl
  fun_induction decodeQuoted found offset skip cs with
  | case1 found offset => exact fun e mem => .inl mem
  | case2 found offset skip c cs ih => exact fun e mem => (ih e mem).imp_right .cons
  | case3 found offset cs digits code run found' ih =>
    intro e mem
    rcases ih e mem with mem | cuts
    · unfold found' at mem
      split at mem
      · exact .inl mem
      · rcases List.mem_cons.mp mem with rfl | mem
        · have size := byteSize_hexRun 4 0 cs
          rw [run] at size
          have escape := Span.Cuts.take offset (digits + 2) ('\\' :: 'u' :: cs)
          rw [List.take_succ_cons, List.take_succ_cons, byteSize_cons, byteSize_cons, size,
            ← Nat.add_assoc, ← Nat.add_assoc] at escape
          exact .inr escape
        · exact .inl mem
    · exact .inr (.cons (.cons cuts))
  | case4 found offset letter cs noCode found' ih =>
    intro e mem
    rcases ih e mem with mem | cuts
    · unfold found' at mem
      split at mem <;> exact .inl mem
    · exact .inr (.cons (.cons cuts))
  | case5 found offset c cs noCode noEscape ih => exact fun e mem => (ih e mem).imp_right .cons

namespace Lexeme

variable {start : Nat} {c : Char} {cs : List Char}

/-- The faults of a lexeme are about pieces of the text where it stands. -/
def FaultsCut (start : Nat) (text : List Char) (lexeme : Lexeme) : Prop :=
  ∀ errors, lexeme.content = .faulty errors → ∀ e ∈ errors, e.span.Cuts start text

theorem faultsCut_faulty (fault : LexFault) (start : Nat) (c : Char) (cs : List Char) (more : Nat) :
    FaultsCut start (c :: cs) (faulty fault start c cs more) := by
  intro errors same e mem
  cases same
  rw [List.mem_singleton.mp mem]
  exact Span.Cuts.take start (more + 1) (c :: cs)

/-- A lexeme without faults. -/
theorem faultsCut_of_ne {text : List Char} {lexeme : Lexeme}
    (clean : ∀ errors, lexeme.content ≠ .faulty errors) : FaultsCut start text lexeme :=
  fun errors same => absurd same (clean errors)

theorem faultsCut_quoted (start : Nat) (cs : List Char) :
    FaultsCut start ('\'' :: cs) (quoted start cs) := by
  intro errors same e mem
  rcases scan : quotedLength 0 cs with ⟨n, ending⟩
  have escapes : ∀ e ∈ (decodeQuoted ⟨[], []⟩ (start + 1) 0 (cs.take n)).errors,
      e.span.Cuts start ('\'' :: cs) := by
    intro e mem
    have cuts := (cuts_decodeQuoted ⟨[], []⟩ (start + 1) 0 (cs.take n) e mem).resolve_left nofun
    have whole := cuts.append (cs.drop n)
    rw [List.take_append_drop] at whole
    exact whole.cons
  unfold quoted at same
  rw [scan] at same
  dsimp only at same
  split at same
  · split at same
    · cases same
    · cases same
      exact escapes e (List.mem_reverse.mp mem)
  · cases same
    rcases List.mem_append.mp mem with mem | mem
    · exact escapes e (List.mem_reverse.mp mem)
    · rw [List.mem_singleton.mp mem]
      exact Span.Cuts.take start (_ + 1) ('\'' :: cs)

theorem faultsCut_query (language : QueryLanguage) (start : Nat) (cs : List Char) :
    FaultsCut start ('[' :: cs) (query language start cs) := by
  unfold query
  rcases queryLength 0 0 false cs with ⟨n, ending⟩
  cases ending with
  | closed => exact faultsCut_of_ne (by simp)
  | sourceEnd | sourceEndInString => exact faultsCut_faulty _ _ _ _ _

theorem faultsCut_read (start : Nat) (c : Char) (cs : List Char) :
    FaultsCut start (c :: cs) (read start c cs) := by
  obtain ⟨lexeme, reads, same⟩ := exists_reads start c cs
  rw [same]
  cases reads with
  | gap | lineComment => exact faultsCut_of_ne (by simp)
  | word noGap letter =>
    refine faultsCut_of_ne fun errors => ?_
    unfold word
    dsimp only
    split <;> simp
  | numeral noGap noLetter digit =>
    unfold numeral
    dsimp only
    split
    · exact faultsCut_of_ne (by simp)
    · exact faultsCut_faulty _ _ _ _ _
  | blockComment cs =>
    unfold blockComment
    split
    · exact faultsCut_of_ne (by simp)
    · exact faultsCut_faulty _ _ _ _ _
  | quoted cs => exact faultsCut_quoted start cs
  | sign noGap noLetter noDigit unquoted noLine noBlock =>
    unfold sign
    split
    · next language ahead =>
      split at ahead
      · next bracket =>
        subst bracket
        exact faultsCut_query language start cs
      · cases ahead
    · split
      · exact faultsCut_of_ne (by simp)
      · exact faultsCut_faulty _ _ _ _ _

/-! ## Tokens -/

/-- A variable bound in a token stands in the lexeme. -/
theorem cuts_binds {kind : TokenKind} (found : (read start c cs).content = .token kind) :
    ∀ b ∈ kind.binds, b.span.Cuts start (c :: cs) := by
  intro b mem
  obtain ⟨q, isQuery, mem⟩ : ∃ q, (kind = .soql q ∨ kind = .sosl q) ∧ b ∈ q.binds := by
    cases kind with
    | soql q => exact ⟨q, .inl rfl, mem⟩
    | sosl q => exact ⟨q, .inr rfl, mem⟩
    | _ => cases mem
  obtain ⟨rfl, language, read⟩ := bracket_of_read_query found isQuery
  rw [read] at found
  obtain ⟨inner, rest, rfl, -, rfl, -⟩ := exists_closed_of_query found isQuery
  obtain ⟨before, path, after, rfl, -, rfl⟩ := (Query.binds_ofText (start + 1) inner).sound b mem
  have cuts : Span.Cuts (start + 1) (before ++ ':' :: path ++ after)
      ⟨start + 1 + byteSize before, start + 1 + byteSize before + byteSize (':' :: path)⟩ :=
    ⟨before, ':' :: path, after, rfl, rfl⟩
  exact (cuts.append (']' :: rest)).cons

end Lexeme

/-- All spans of a token that comes from the source are safe. -/
theorem Token.IsFrom.liesIn {source : String} {t : Token} (h : t.IsFrom source) :
    t.LiesIn (Span.safe source) := by
  obtain ⟨start, c, cs, stands, bears⟩ := h
  refine Token.liesIn_iff.mpr ⟨?_, fun b mem => ?_⟩
  · rw [LexemeContent.span_of_token? bears]
    exact stands.isSafe (Span.Cuts.take start (_ + 1) (c :: cs))
  · refine stands.isSafe ?_
    cases content : (Lexeme.read start c cs).content with
    | token kind =>
      rw [content] at bears
      cases bears
      exact Lexeme.cuts_binds content b mem
    | keyword k written =>
      rw [content] at bears
      cases bears
      cases mem
    | blank | faulty =>
      rw [content] at bears
      cases bears

/-- All spans of the tokens of a text are safe. -/
theorem liesIn_of_lex {source : String} {tokens : List Token} (accepted : lex source = .ok tokens) :
    ∀ t ∈ tokens, t.LiesIn (Span.safe source) := by
  intro t mem
  rcases eq_end_or_isFrom_of_lex accepted mem with rfl | isFrom
  · exact Token.liesIn_iff.mpr ⟨Span.isSafe_point_end source, lieIn_nil⟩
  · exact isFrom.liesIn

/-- The faults of a text are at places that are safe. -/
theorem isSafe_of_lex_error {source : String} {errors : List LexError}
    (refused : lex source = .error errors) : ∀ e ∈ errors, e.span.IsSafe source := by
  intro e mem
  obtain ⟨start, c, cs, faults, stands, found, mem⟩ := isFrom_of_lex_error refused mem
  exact stands.isSafe (Lexeme.faultsCut_read start c cs faults found e mem)

end Apex
