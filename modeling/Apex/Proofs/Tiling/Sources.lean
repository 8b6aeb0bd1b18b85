import Apex.Proofs.Tiling.Lexemes
import Mathlib

/-!
# Tokens tile their source

The tokens of an accepted source text cut it into pieces: between one token and the next stands
nothing but blank space and comments, and the piece under a token, read as a text of its own, gives
that token again. So nothing is lost, nothing is read twice, and no token depends on its
surroundings.
-/

namespace Apex

/-! ## Pieces of a text -/

/-- The text behind the first `n` bytes, if a character ends there. -/
def dropBytes? : (n : Nat) → List Char → Option (List Char)
  | 0, cs => some cs
  | _ + 1, [] => none
  | n + 1, c :: cs =>
    if c.utf8Size ≤ n + 1 then dropBytes? (n + 1 - c.utf8Size) cs else none

/-- The first `n` bytes of a text, if a character ends there. -/
def takeBytes? : (n : Nat) → List Char → Option (List Char)
  | 0, _ => some []
  | _ + 1, [] => none
  | n + 1, c :: cs =>
    if c.utf8Size ≤ n + 1 then (takeBytes? (n + 1 - c.utf8Size) cs).map (c :: ·) else none

/-- The piece of a source text under a span, if both ends of the span lie between characters. -/
def Span.slice? (s : Span) (source : String) : Option String :=
  if s.start ≤ s.stop then
    ((dropBytes? s.start source.toList).bind (takeBytes? s.length)).map String.ofList
  else none

theorem byteSize_toList (source : String) : byteSize source.toList = source.utf8ByteSize := by
  obtain ⟨cs, rfl⟩ : ∃ cs, source = String.ofList cs := ⟨_, String.ofList_toList.symm⟩
  rw [String.toList_ofList]
  induction cs with
  | nil => rfl
  | cons c cs ih =>
    rw [byteSize_cons, String.ofList_cons, String.utf8ByteSize_append,
      String.utf8ByteSize_singleton, ih]

theorem dropBytes?_append (before after : List Char) :
    dropBytes? (byteSize before) (before ++ after) = some after := by
  induction before with
  | nil => cases after <;> rfl
  | cons c before ih =>
    have size := c.utf8Size_pos
    obtain ⟨n, size⟩ : ∃ n, byteSize (c :: before) = n + 1 :=
      ⟨_, (Nat.sub_add_cancel (by rw [byteSize_cons]; omega)).symm⟩
    rw [size, List.cons_append, dropBytes?, ← size, byteSize_cons, if_pos (by omega),
      Nat.add_sub_cancel_left, ih]

theorem takeBytes?_append (text after : List Char) :
    takeBytes? (byteSize text) (text ++ after) = some text := by
  induction text with
  | nil => cases after <;> rfl
  | cons c text ih =>
    have size := c.utf8Size_pos
    obtain ⟨n, size⟩ : ∃ n, byteSize (c :: text) = n + 1 :=
      ⟨_, (Nat.sub_add_cancel (by rw [byteSize_cons]; omega)).symm⟩
    rw [size, List.cons_append, takeBytes?, ← size, byteSize_cons, if_pos (by omega),
      Nat.add_sub_cancel_left, ih]
    rfl

theorem Span.slice?_of_append {source : String} (before text after : List Char)
    (cut : source.toList = before ++ text ++ after) :
    Span.slice? ⟨byteSize before, byteSize before + byteSize text⟩ source =
      some (String.ofList text) := by
  unfold slice? Span.length
  rw [if_pos (Nat.le_add_right _ _), cut, List.append_assoc, dropBytes?_append]
  simp only [Option.bind_some, Nat.add_sub_cancel_left, takeBytes?_append, Option.map_some]

/-! ## Blank space -/

/-- Blank space: characters that may stand between tokens, and comments. A comment between slashes
and stars ends with the first star that a slash follows. A comment behind two slashes ends with its
line; only where nothing else follows, `last`, the line may end with the text. -/
inductive IsBlank (last : Bool) : List Char → Prop
  | nil : IsBlank last []
  | gap {c : Char} {cs : List Char} (isGap : isGap c) (rest : IsBlank last cs) :
    IsBlank last (c :: cs)
  | blockComment {body cs : List Char} (inside : ¬['*', '/'] <:+: body ++ ['*'])
    (rest : IsBlank last cs) : IsBlank last ('/' :: '*' :: body ++ '*' :: '/' :: cs)
  | lineComment {body cs : List Char} (inside : '\n' ∉ body) (rest : IsBlank last cs) :
    IsBlank last ('/' :: '/' :: body ++ '\n' :: cs)
  | lastLine {body : List Char} (inside : '\n' ∉ body) (isLast : last = true) :
    IsBlank last ('/' :: '/' :: body)

/-- A block comment that is closed ends with the first star that a slash follows. -/
theorem Lexeme.commentLength_closed {n m : Nat} {cs : List Char}
    (closed : commentLength n cs = (m, true)) :
    ∃ body rest, cs = body ++ '*' :: '/' :: rest ∧ m = n + body.length + 2 ∧
      ¬['*', '/'] <:+: body ++ ['*'] := by
  fun_induction commentLength n cs with
  | case1 n => cases closed
  | case2 n cs =>
    cases closed
    exact ⟨[], cs, rfl, rfl, by decide⟩
  | case3 n c cs other ih =>
    obtain ⟨body, rest, rfl, rfl, inside⟩ := ih closed
    refine ⟨c :: body, rest, rfl, by simp only [List.length_cons]; omega, fun found => ?_⟩
    rw [List.cons_append, List.infix_cons_iff] at found
    rcases found with ⟨tail, found⟩ | found
    · obtain ⟨rfl, behind⟩ := List.cons.inj found
      cases body with
      | nil => cases behind
      | cons d body =>
        have slash : '/' = d := (List.cons.inj behind).1
        exact other _ rfl (by rw [← slash]; rfl)
    · exact inside found

/-! ## The statement -/

/-- A stretch of the source text that is blank. -/
def IsGapIn (source : String) (last : Bool) (s : Span) : Prop :=
  ∃ gap, s.slice? source = some gap ∧ IsBlank last gap.toList

/-- The piece of source text under the token, read on its own, gives the token and the end. -/
def Token.StandsAlone (source : String) (t : Token) : Prop :=
  ∃ text alone, t.span.slice? source = some text ∧
    lex text = .ok [alone, .plain .endOfFile (.point t.span.length)] ∧
    alone.moved t.span.start = t

/-- The tokens tile the source text from byte `offset` on. -/
structure IsTiledFrom (source : String) (offset : Nat) (tokens : List Token) : Prop where
  /-- The last token is the end of the text, and empty. -/
  ends : tokens.getLast? = some (.plain .endOfFile (.point source.utf8ByteSize))
  /-- The others are no ends, and not empty. -/
  proper : ∀ t ∈ tokens.dropLast, t.isEnd = false ∧ t.span.start < t.span.stop
  /-- The tokens stand one behind the other. -/
  ordered : tokens.Pairwise fun t t' => t.span.stop ≤ t'.span.start
  /-- The text before the first token is blank. -/
  before : ∀ t ∈ tokens.head?, IsGapIn source t.isEnd ⟨offset, t.span.start⟩
  /-- The text between one token and the next is blank. -/
  between : tokens.IsChain fun t t' => IsGapIn source t'.isEnd ⟨t.span.stop, t'.span.start⟩
  /-- Each token but the end is told by the text under it. -/
  alone : ∀ t ∈ tokens.dropLast, t.StandsAlone source

/-! ## Cutting -/

/-- The text, which starts at byte `offset`, is cut into blanks and the given tokens. -/
inductive Cut : (offset : Nat) → List Char → List Token → Prop
  | ends {offset : Nat} {blank : List Char} (isBlank : IsBlank true blank) :
    Cut offset blank [.plain .endOfFile (.point (offset + byteSize blank))]
  | token {offset : Nat} {blank text rest : List Char} {t alone : Token} {tokens : List Token}
    (isBlank : IsBlank false blank) (nonempty : text ≠ [])
    (span : t.span = ⟨offset + byteSize blank, offset + byteSize blank + byteSize text⟩)
    (proper : t.isEnd = false)
    (lexed : lex (String.ofList text) = .ok [alone, .plain .endOfFile (.point (byteSize text))])
    (moved : alone.moved t.span.start = t) (after : Cut t.span.stop rest tokens) :
    Cut offset (blank ++ text ++ rest) (t :: tokens)

namespace Cut

/-- Blank space in front of a text changes nothing. -/
theorem blank {offset : Nat} {piece cs : List Char} {tokens : List Token}
    (isBlank : ∀ last blank, IsBlank last blank → IsBlank last (piece ++ blank))
    (cut : Cut (offset + byteSize piece) cs tokens) : Cut offset (piece ++ cs) tokens := by
  cases cut with
  | ends blank =>
    rw [Nat.add_assoc, ← byteSize_append]
    exact .ends (isBlank _ _ blank)
  | token isBlank' nonempty span proper lexed moved after =>
    rw [← List.append_assoc, ← List.append_assoc]
    refine .token (isBlank _ _ isBlank') nonempty ?_ proper lexed moved after
    rw [span, byteSize_append, Nat.add_assoc]

theorem le_start {offset : Nat} {cs : List Char} {tokens : List Token}
    (cut : Cut offset cs tokens) : ∀ t ∈ tokens, offset ≤ t.span.start := by
  induction cut with
  | @ends offset blank isBlank =>
    intro t mem
    cases List.mem_singleton.mp mem
    exact Nat.le_add_right _ _
  | @token offset blank text rest t alone tokens isBlank nonempty span proper lexed moved after ih =>
    intro t' mem
    rcases List.mem_cons.mp mem with rfl | mem
    · rw [span]
      exact Nat.le_add_right _ _
    · have behind := ih t' mem
      rw [span] at behind
      dsimp only at behind
      omega

theorem ne_nil {offset : Nat} {cs : List Char} {tokens : List Token} (cut : Cut offset cs tokens) :
    tokens ≠ [] := by
  cases cut <;> exact nofun

/-- A text that is cut is tiled. -/
theorem isTiledFrom {source : String} {before cs : List Char} {tokens : List Token} {offset : Nat}
    (cut : Cut offset cs tokens) (whole : source.toList = before ++ cs)
    (start : byteSize before = offset) : IsTiledFrom source offset tokens := by
  induction cut generalizing before with
  | @ends offset blank isBlank =>
    subst start
    have size : source.utf8ByteSize = byteSize before + byteSize blank := by
      rw [← byteSize_toList, whole, byteSize_append]
    have gap : IsGapIn source true ⟨byteSize before, byteSize before + byteSize blank⟩ :=
      ⟨_, Span.slice?_of_append before blank [] (by rw [whole, List.append_nil]),
        by rwa [String.toList_ofList]⟩
    exact ⟨by rw [size]; rfl, nofun, List.pairwise_singleton _ _,
      by rintro t ⟨⟩; exact gap, .singleton _, nofun⟩
  | @token offset blank text rest t alone tokens isBlank nonempty span proper lexed moved after ih =>
    subst start
    have whole' : source.toList = before ++ blank ++ text ++ rest := by
      rw [whole, List.append_assoc, List.append_assoc, List.append_assoc]
    have tiled : IsTiledFrom source t.span.stop tokens := by
      refine ih whole' ?_
      rw [span, byteSize_append, byteSize_append]
    have gap : IsGapIn source false ⟨byteSize before, t.span.start⟩ := by
      rw [span]
      exact ⟨_, Span.slice?_of_append before blank (text ++ rest)
        (by rw [whole', List.append_assoc]), by rwa [String.toList_ofList]⟩
    have slice : t.span.slice? source = some (String.ofList text) := by
      rw [span, ← byteSize_append]
      exact Span.slice?_of_append _ text rest whole'
    have length : t.span.length = byteSize text := by
      rw [span]
      exact Nat.add_sub_cancel_left _ _
    have stands : t.StandsAlone source := ⟨_, alone, slice, by rw [length]; exact lexed, moved⟩
    have positive : 0 < byteSize text := by
      obtain ⟨c, text, rfl⟩ := List.exists_cons_of_ne_nil nonempty
      rw [byteSize_cons]
      exact Nat.add_pos_left c.utf8Size_pos _
    have occupied : t.span.start < t.span.stop := by
      rw [span]
      exact Nat.lt_add_of_pos_right positive
    refine ⟨?_, ?_, List.pairwise_cons.mpr ⟨after.le_start, tiled.ordered⟩, ?_,
      List.isChain_cons.mpr ⟨tiled.before, tiled.between⟩, ?_⟩
    · rw [List.getLast?_cons, tiled.ends]
      rfl
    · rw [List.dropLast_cons_of_ne_nil after.ne_nil]
      exact List.forall_mem_cons.mpr ⟨⟨proper, occupied⟩, tiled.proper⟩
    · rintro t' ⟨⟩
      rw [proper]
      exact gap
    · rw [List.dropLast_cons_of_ne_nil after.ne_nil]
      exact List.forall_mem_cons.mpr ⟨stands, tiled.alone⟩

end Cut

/-! ## The lexer -/

theorem lexFrom_skip (l : Lexing) (n : Nat) (cs : List Char) :
    lexFrom l n cs = lexFrom l 0 (cs.drop n) := by
  induction n generalizing cs with
  | zero => rfl
  | succ n ih =>
    cases cs with
    | nil => rfl
    | cons c cs => exact ih cs

theorem lexFrom_cons (l : Lexing) (c : Char) (cs : List Char) :
    lexFrom l 0 (c :: cs) =
      lexFrom
        (l.add (Lexeme.read l.offset c cs).content
          (l.offset + byteSize (c :: cs.take (Lexeme.read l.offset c cs).more)))
        0 (cs.drop (Lexeme.read l.offset c cs).more) := by
  rw [lexFrom, lexFrom_skip]

theorem Lexing.add_token {l : Lexing} {content : LexemeContent} {stop : Nat} {t : Token}
    (bears : content.token? ⟨l.offset, stop⟩ = some t) :
    l.add content stop = ⟨t :: l.tokens, l.errors, stop⟩ := by
  cases content <;> cases bears <;> rfl

/-- A lexeme that becomes a token does so on its own. -/
theorem Lexeme.lex_alone {start : Nat} {c : Char} {cs text : List Char} {t : Token}
    (piece : text = c :: cs.take (read start c cs).more)
    (bears : (read start c cs).content.token? ⟨start, start + byteSize text⟩ = some t) :
    ∃ alone, lex (String.ofList text) = .ok [alone, .plain .endOfFile (.point (byteSize text))] ∧
      alone.moved start = t := by
  have same : read start c cs = (read 0 c cs).moved start := by
    rw [← read_moved, Nat.zero_add]
  have place : (⟨start, start + byteSize text⟩ : Span) = Span.moved start ⟨0, 0 + byteSize text⟩ := by
    rw [Span.moved, Nat.zero_add, Nat.zero_add, Nat.add_comm]
  rw [same, place] at bears
  have token := LexemeContent.token?_moved start ⟨0, 0 + byteSize text⟩ (read 0 c cs).content
  obtain ⟨alone, bears, moved⟩ := Option.map_eq_some_iff.mp (token.symm.trans bears)
  refine ⟨alone, ?_, moved⟩
  have more : (read start c cs).more = (read 0 c cs).more := more_read start 0 c cs
  rw [more] at piece
  subst piece
  have single : lexFrom ⟨[], [], 0⟩ 0 (c :: cs.take (read 0 c cs).more) =
      ⟨[alone], [], 0 + byteSize (c :: cs.take (read 0 c cs).more)⟩ := by
    rw [lexFrom_cons]
    dsimp only
    rw [read_take bears, List.take_take, Nat.min_self, List.drop_take, Nat.sub_self,
      List.take_zero, Lexing.add_token bears]
    rfl
  unfold lex
  rw [String.toList_ofList, single, Nat.zero_add]
  rfl

theorem Lexing.errors_add_faulty (l : Lexing) (errors : List LexError) (stop : Nat) :
    (l.add (.faulty errors) stop).errors = errors.reverse ++ l.errors := by
  simp only [add, List.foldl_flip_cons_eq_append, List.map_id']

/-- Faults are not forgotten. -/
theorem errors_lexFrom {l : Lexing} (faulty : l.errors ≠ []) (n : Nat) (cs : List Char) :
    (lexFrom l n cs).errors ≠ [] := by
  induction cs generalizing l n with
  | nil => cases n <;> exact faulty
  | cons c cs ih =>
    cases n with
    | succ n => exact ih faulty n
    | zero =>
      refine ih ?_ _
      cases (Lexeme.read l.offset c cs).content with
      | blank | token | keyword => exact faulty
      | faulty errors =>
        rw [Lexing.errors_add_faulty]
        exact List.append_ne_nil_of_right_ne_nil _ faulty

/-- What has no token and no faults is blank. A line comment is so together with the newline behind
it, which is no part of its lexeme. -/
theorem Lexeme.blank_read {start : Nat} {c : Char} {cs : List Char}
    (blank : (read start c cs).content = .blank) :
    ∃ piece rest, c :: cs = piece ++ rest ∧ piece.length = (read start c cs).more + 1 ∧
      ((∀ last blank, IsBlank last blank → IsBlank last (piece ++ blank)) ∨
        (rest = [] ∧ IsBlank true piece) ∨
        (∃ rest', rest = '\n' :: rest' ∧
          ∀ last blank, IsBlank last blank → IsBlank last (piece ++ '\n' :: blank))) := by
  obtain ⟨lexeme, cut, same⟩ := exists_reads start c cs
  rw [same] at blank ⊢
  cases cut with
  | gap isGap => exact ⟨[c], cs, rfl, rfl, .inl fun last blank => .gap isGap⟩
  | word noGap letter =>
    unfold word at blank
    dsimp only at blank
    split at blank <;> exact nomatch blank
  | numeral noGap noLetter digit =>
    unfold numeral at blank
    dsimp only at blank
    split at blank <;> exact nomatch blank
  | lineComment cs =>
    have inside : '\n' ∉ cs.takeWhile (· != '\n') := fun mem =>
      absurd (List.all_eq_true.mp List.all_takeWhile _ mem) (by decide)
    refine ⟨'/' :: '/' :: cs.takeWhile (· != '\n'), cs.dropWhile (· != '\n'), ?_, ?_, .inr ?_⟩
    · rw [List.cons_append, List.cons_append, List.takeWhile_append_dropWhile]
    · simp only [List.length_cons]
      omega
    · cases found : cs.dropWhile (· != '\n') with
      | nil => exact .inl ⟨rfl, .lastLine inside rfl⟩
      | cons d rest =>
        have newline : d = '\n' := by
          have nonempty : cs.dropWhile (· != '\n') ≠ [] := by
            rw [found]
            exact List.cons_ne_nil d rest
          have stop := List.head_dropWhile_not _ nonempty
          simpa only [found, List.head_cons, bne_eq_false_iff_eq] using stop
        subst newline
        exact .inr ⟨rest, rfl, fun last blank => .lineComment inside⟩
  | blockComment cs =>
    unfold blockComment at blank ⊢
    split at blank
    · next n found =>
      obtain ⟨body, rest, rfl, rfl, inside⟩ := commentLength_closed found
      refine ⟨'/' :: '*' :: body ++ ['*', '/'], rest, ?_, ?_, .inl fun last blank => ?_⟩
      · simp only [List.cons_append, List.append_assoc, List.nil_append]
      · simp only [List.length_append, List.length_cons, List.length_nil]
        omega
      · intro isBlank
        rw [List.append_assoc]
        exact .blockComment inside isBlank
    · exact nomatch blank
  | quoted cs =>
    unfold quoted at blank
    dsimp only at blank
    split at blank
    · split at blank <;> exact nomatch blank
    · exact nomatch blank
  | sign noGap noLetter noDigit unquoted noLine noBlock =>
    unfold sign at blank
    split at blank
    · unfold query at blank
      dsimp only at blank
      split at blank <;> exact nomatch blank
    · split at blank <;> exact nomatch blank

/-- What is read without faults is cut into blanks and tokens, from any place on. A step of the
induction takes in one lexeme, or a line comment and the newline behind it. -/
theorem exists_cut (l : Lexing) (cs : List Char) (clean : (lexFrom l 0 cs).errors = []) :
    ∃ tokens, Cut l.offset cs tokens ∧
      (Token.plain .endOfFile (.point (lexFrom l 0 cs).offset) :: (lexFrom l 0 cs).tokens).reverse =
        l.tokens.reverse ++ tokens := by
  induction length : cs.length using Nat.strong_induction_on generalizing l cs with
  | _ n ih =>
  subst length
  rcases cs with _ | ⟨c, cs⟩
  · exact ⟨_, .ends .nil, List.reverse_cons⟩
  rw [lexFrom_cons] at clean ⊢
  cases bears : (Lexeme.read l.offset c cs).content.token?
      ⟨l.offset, l.offset + byteSize (c :: cs.take (Lexeme.read l.offset c cs).more)⟩ with
  | some t =>
    have shorter : (cs.drop (Lexeme.read l.offset c cs).more).length < (c :: cs).length := by
      rw [List.length_drop, List.length_cons]
      omega
    have proper := (Lexeme.isProper_read l.offset c cs).isEnd_eq_false bears
    have span := LexemeContent.span_of_token? bears
    obtain ⟨alone, lexed, moved⟩ := Lexeme.lex_alone rfl bears
    rw [Lexing.add_token bears] at clean ⊢
    obtain ⟨tokens, after, same⟩ := ih _ shorter _ _ clean rfl
    have cut := Cut.token .nil (List.cons_ne_nil _ _) span proper lexed (by rwa [span]) (by rwa [span])
    rw [List.nil_append, List.cons_append, List.take_append_drop] at cut
    refine ⟨t :: tokens, cut, ?_⟩
    rw [same, List.reverse_cons, List.append_assoc]
    rfl
  | none =>
    rcases (Lexeme.isProper_read l.offset c cs).blank_or_faulty bears with blank | ⟨e, errors, faulty⟩
    · obtain ⟨piece, rest, whole, length, shape⟩ := Lexeme.blank_read blank
      have taken : c :: cs.take (Lexeme.read l.offset c cs).more = piece := by
        rw [← List.take_succ_cons, whole, List.take_left' length]
      have left : cs.drop (Lexeme.read l.offset c cs).more = rest := by
        rw [← List.drop_succ_cons, whole, List.drop_left' length]
      have shorter : rest.length < (c :: cs).length := by
        rw [whole, List.length_append]
        omega
      rw [blank, taken, left] at clean ⊢
      rw [whole]
      rcases shape with isBlank | ⟨rfl, isBlank⟩ | ⟨rest, rfl, isBlank⟩
      · obtain ⟨tokens, cut, same⟩ := ih _ shorter _ _ clean rfl
        exact ⟨tokens, cut.blank isBlank, same⟩
      · rw [List.append_nil]
        exact ⟨_, .ends isBlank, List.reverse_cons⟩
      · rw [List.length_cons] at shorter
        have newline : lexFrom (l.add .blank (l.offset + byteSize piece)) 0 ('\n' :: rest) =
            lexFrom ⟨l.tokens, l.errors, l.offset + byteSize (piece ++ ['\n'])⟩ 0 rest := by
          rw [byteSize_append, ← Nat.add_assoc]
          rfl
        rw [newline] at clean ⊢
        obtain ⟨tokens, cut, same⟩ := ih rest.length (by omega) _ _ clean rfl
        rw [List.append_cons]
        refine ⟨tokens, cut.blank fun last blank isGap => ?_, same⟩
        rw [← List.append_cons]
        exact isBlank last blank isGap
    · rw [faulty] at clean
      refine absurd clean (errors_lexFrom ?_ _ _)
      rw [Lexing.errors_add_faulty, List.reverse_cons, List.append_assoc]
      exact List.append_ne_nil_of_right_ne_nil _ nofun

/-- An accepted text is cut into its tokens. -/
theorem cut_of_lex {source : String} {tokens : List Token} (accepted : lex source = .ok tokens) :
    Cut 0 source.toList tokens := by
  unfold lex at accepted
  dsimp only at accepted
  split at accepted
  · next clean =>
    cases accepted
    obtain ⟨tokens, cut, same⟩ := exists_cut ⟨[], [], 0⟩ source.toList (List.isEmpty_iff.mp clean)
    rw [same]
    exact cut
  · exact nomatch accepted

/-- The tokens of an accepted text tile it. They stand one behind the other, all but the last, which
is the end of the text, cover some of it, what stands between them is blank space and comments, and
each is told by the piece of text under it alone: the same kind, the same value, the same spelling
are read from that piece, and only the places are other ones. -/
theorem isTiledFrom_of_lex {source : String} {tokens : List Token}
    (accepted : lex source = .ok tokens) : IsTiledFrom source 0 tokens :=
  (cut_of_lex accepted).isTiledFrom (List.nil_append source.toList).symm rfl

/-- A query with a bound variable, marks that touch, a numeral before a point, and comments. -/
theorem isTiledFrom_of_lex_query :
    ∃ tokens, lex "[SELECT A FROM B WHERE C = :d]>>=1./* \u00e9 */x// '" = .ok tokens ∧
      tokens.map Token.span =
        [⟨0, 30⟩, ⟨30, 31⟩, ⟨31, 33⟩, ⟨33, 34⟩, ⟨34, 35⟩, ⟨43, 44⟩, ⟨48, 48⟩] ∧
      IsTiledFrom "[SELECT A FROM B WHERE C = :d]>>=1./* \u00e9 */x// '" 0 tokens := by
  have ahead : queryAhead? "SELECT A FROM B WHERE C = :d]>>=1./* \u00e9 */x// '".toList =
      some .soql := by
    cbv
  have accepted : lex "[SELECT A FROM B WHERE C = :d]>>=1./* \u00e9 */x// '" =
      .ok [.plain (.soql ⟨"SELECT A FROM B WHERE C = :d", [⟨":d", ⟨27, 29⟩⟩]⟩) ⟨0, 30⟩,
        .plain (.operator .greater) ⟨30, 31⟩, .plain (.operator .greaterEqual) ⟨31, 33⟩,
        .plain (.integer 1) ⟨33, 34⟩, .plain (.punctuation .dot) ⟨34, 35⟩,
        .plain (.name "x") ⟨43, 44⟩, .plain .endOfFile ⟨48, 48⟩] := by
    unfold lex
    rw [show "[SELECT A FROM B WHERE C = :d]>>=1./* \u00e9 */x// '".toList =
      '[' :: "SELECT A FROM B WHERE C = :d]>>=1./* \u00e9 */x// '".toList by decide +kernel,
      lexFrom_cons, Lexeme.read_query ahead]
    decide +kernel
  exact ⟨_, accepted, rfl, isTiledFrom_of_lex accepted⟩

end Apex
