import Apex.Proofs.Blur.Trees
import Apex.Token.Lexer

/-!
# Lexemes without regard to letter case

Outside quoted literals the extent of a lexeme does not depend on the case of letters, and what it
contributes depends on it only in the way names and queries are written. Every function of the
lexer is followed from a text to the same text in small letters.
-/

namespace Apex

/-! ## Letters -/

/-- A character in small letters is an ASCII capital moved up by 32, or the character itself. -/
theorem toLower_cases (c : Char) :
    (65 ≤ c.toNat ∧ c.toNat ≤ 90 ∧ c.toLower.toNat = c.toNat + 32) ∨
      (¬(65 ≤ c.toNat ∧ c.toNat ≤ 90) ∧ c.toLower = c) := by
  unfold Char.toLower Char.toNat
  simp only [ge_iff_le, UInt32.le_iff_toNat_le]
  split
  · next capital =>
    have low : 65 ≤ c.val.toNat := capital.1
    have high : c.val.toNat ≤ 90 := capital.2
    refine .inl ⟨low, high, ?_⟩
    rw [UInt32.toNat_add]
    show (c.val.toNat + 32) % 2 ^ 32 = c.val.toNat + 32
    omega
  · next other => exact .inr ⟨other, rfl⟩

theorem isAlpha_iff (c : Char) :
    c.isAlpha = true ↔ (65 ≤ c.toNat ∧ c.toNat ≤ 90) ∨ (97 ≤ c.toNat ∧ c.toNat ≤ 122) := by
  delta Char.isAlpha Char.isUpper Char.isLower
  simp only [Bool.or_eq_true, Bool.and_eq_true, decide_eq_true_eq, ge_iff_le,
    UInt32.le_iff_toNat_le]
  rfl

theorem isDigit_iff (c : Char) : c.isDigit = true ↔ 48 ≤ c.toNat ∧ c.toNat ≤ 57 := by
  simp only [Char.isDigit, Bool.and_eq_true, decide_eq_true_eq, ge_iff_le, UInt32.le_iff_toNat_le]
  rfl

/-- Marks are not mistaken for letters. -/
theorem toLower_eq_iff {c sign : Char} (mark : sign.isAlpha = false) :
    c.toLower = sign ↔ c = sign := by
  have other : ¬(_ ∨ _) := mt (isAlpha_iff sign).mpr (by simp [mark])
  rcases toLower_cases c with ⟨low, high, lower⟩ | ⟨_, same⟩
  · constructor <;> rintro rfl <;> omega
  · rw [same]

theorem toLower_beq {c sign : Char} (mark : sign.isAlpha = false) :
    (c.toLower == sign) = (c == sign) := by
  rw [Bool.eq_iff_iff, beq_iff_eq, beq_iff_eq]
  exact toLower_eq_iff mark

/-- A letter is still the same letter when capitals are made small. -/
theorem toLower_eq_or_iff (c capital : Char) (low : 65 ≤ capital.toNat)
    (high : capital.toNat ≤ 90) :
    (c.toLower = capital.toLower ∨ c.toLower = capital) ↔ (c = capital.toLower ∨ c = capital) := by
  have equal (a d : Char) : a = d ↔ a.toNat = d.toNat := Char.toNat_inj.symm
  rcases toLower_cases capital with ⟨_, _, small⟩ | ⟨other, _⟩
  · rcases toLower_cases c with ⟨_, _, lower⟩ | ⟨_, same⟩
    · simp only [equal, small, lower]
      omega
    · rw [same]
  · exact absurd ⟨low, high⟩ other

@[simp] theorem toLower_toLower (c : Char) : c.toLower.toLower = c.toLower := by
  rcases toLower_cases c with ⟨low, high, lower⟩ | ⟨_, same⟩
  · rcases toLower_cases c.toLower with ⟨low', high', _⟩ | ⟨_, same⟩
    · omega
    · exact same
  · rw [same, same]

@[simp] theorem isAlpha_toLower (c : Char) : c.toLower.isAlpha = c.isAlpha := by
  rw [Bool.eq_iff_iff, isAlpha_iff, isAlpha_iff]
  rcases toLower_cases c with ⟨low, high, lower⟩ | ⟨_, same⟩
  · omega
  · rw [same]

@[simp] theorem isDigit_toLower (c : Char) : c.toLower.isDigit = c.isDigit := by
  rw [Bool.eq_iff_iff, isDigit_iff, isDigit_iff]
  rcases toLower_cases c with ⟨low, high, lower⟩ | ⟨_, same⟩
  · omega
  · rw [same]

@[simp] theorem isWordStart_toLower (c : Char) : isWordStart c.toLower = isWordStart c := by
  have underscore : c.toLower = '_' ↔ c = '_' := toLower_eq_iff rfl
  rw [isWordStart, isWordStart, isAlpha_toLower, Bool.eq_iff_iff]
  simp [underscore]

theorem isWordPart_of_isWordStart {c : Char} (start : isWordStart c) : isWordPart c := by
  unfold isWordStart at start
  unfold isWordPart Char.isAlphanum
  simp only [Bool.or_eq_true] at start ⊢
  exact start.imp .inl id

@[simp] theorem isWordPart_toLower (c : Char) : isWordPart c.toLower = isWordPart c := by
  have underscore : c.toLower = '_' ↔ c = '_' := toLower_eq_iff rfl
  rw [isWordPart, isWordPart, Char.isAlphanum, Char.isAlphanum, isAlpha_toLower, isDigit_toLower,
    Bool.eq_iff_iff]
  simp [underscore]

/-- Visible ASCII characters are no blank space of any kind. -/
theorem isWhiteSpace_of_visible {c : Char} (low : 33 ≤ c.toNat) (high : c.toNat ≤ 126) :
    isWhiteSpace c = false := by
  have equal (k : UInt32) : (c.val == k) = decide (c.toNat = k.toNat) := by
    rw [Bool.eq_iff_iff, beq_iff_eq, decide_eq_true_eq, ← UInt32.toNat_inj]
    rfl
  have least (k : UInt32) : (k ≤ c.val) ↔ k.toNat ≤ c.toNat := UInt32.le_iff_toNat_le
  have most (k : UInt32) : (c.val ≤ k) ↔ c.toNat ≤ k.toNat := UInt32.le_iff_toNat_le
  simp only [isWhiteSpace, equal, least, most, UInt32.reduceToNat, Bool.or_eq_false_iff,
    Bool.and_eq_false_iff, decide_eq_false_iff_not]
  omega

@[simp] theorem isWhiteSpace_toLower (c : Char) : isWhiteSpace c.toLower = isWhiteSpace c := by
  rcases toLower_cases c with ⟨low, high, lower⟩ | ⟨_, same⟩
  · rw [isWhiteSpace_of_visible (by omega) (by omega),
      isWhiteSpace_of_visible (by omega) (by omega)]
  · rw [same]

@[simp] theorem isGap_toLower (c : Char) : isGap c.toLower = isGap c := by
  rw [Bool.eq_iff_iff]
  simp only [isGap, Bool.or_eq_true, beq_iff_eq]
  rw [toLower_eq_iff rfl, toLower_eq_iff rfl, toLower_eq_iff rfl, toLower_eq_iff rfl,
    toLower_eq_iff rfl]

@[simp] theorem utf8Size_toLower (c : Char) : c.toLower.utf8Size = c.utf8Size := by
  have ascii (c : Char) (small : c.toNat ≤ 127) : c.utf8Size = 1 :=
    Char.utf8Size_eq_one_iff.mpr (UInt32.le_iff_toNat_le.mpr small)
  rcases toLower_cases c with ⟨low, high, lower⟩ | ⟨_, same⟩
  · rw [ascii _ (by omega), ascii _ (by omega)]
  · rw [same]

/-! ## Texts -/

theorem byteSize_lower (cs : List Char) : byteSize (cs.map Char.toLower) = byteSize cs := by
  induction cs with
  | nil => rfl
  | cons c cs ih => rw [List.map_cons, byteSize_cons, byteSize_cons, utf8Size_toLower, ih]

theorem takeWhile_lower {p : Char → Bool} (hp : ∀ c, p c.toLower = p c) (cs : List Char) :
    (cs.map Char.toLower).takeWhile p = (cs.takeWhile p).map Char.toLower := by
  rw [List.takeWhile_map, show p ∘ Char.toLower = p from funext hp]

theorem dropWhile_lower {p : Char → Bool} (hp : ∀ c, p c.toLower = p c) (cs : List Char) :
    (cs.map Char.toLower).dropWhile p = (cs.dropWhile p).map Char.toLower := by
  rw [List.dropWhile_map, show p ∘ Char.toLower = p from funext hp]

/-- A text in small letters starts with a mark only if the text does. -/
theorem lower_eq_cons {sign : Char} (mark : sign.isAlpha = false) {cs tail : List Char}
    (lower : cs.map Char.toLower = sign :: tail) :
    ∃ rest, cs = sign :: rest ∧ rest.map Char.toLower = tail := by
  obtain ⟨c, rest, rfl, first, rfl⟩ := List.map_eq_cons_iff.mp lower
  exact ⟨rest, by rw [(toLower_eq_iff mark).mp first], rfl⟩

theorem lower_ne_cons {sign : Char} (mark : sign.isAlpha = false) {cs : List Char}
    (other : ∀ tail, cs = sign :: tail → False) (tail : List Char)
    (lower : cs.map Char.toLower = sign :: tail) : False := by
  obtain ⟨rest, found, -⟩ := lower_eq_cons mark lower
  exact other rest found

theorem lowerWord_ofList (cs : List Char) :
    lowerWord (String.ofList cs) = String.ofList (cs.map Char.toLower) := by
  apply String.ext
  simp [lowerWord]

@[simp] theorem lowerWord_lowerWord (word : String) :
    lowerWord (lowerWord word) = lowerWord word := by
  apply String.ext
  simp [lowerWord, Function.comp_def]

/-! ## Comments, numerals and marks -/

namespace Lexeme

theorem commentLength_lower (n : Nat) (cs : List Char) :
    commentLength n (cs.map Char.toLower) = commentLength n cs := by
  fun_induction commentLength n cs with
  | case1 n => rfl
  | case2 n cs => rfl
  | case3 n c cs unclosed ih =>
    rw [List.map_cons, commentLength.eq_3, ih]
    intro rest star slash
    obtain ⟨rest, rfl, -⟩ := lower_eq_cons rfl slash
    exact unclosed rest ((toLower_eq_iff rfl).mp star) rfl

/-- The characters that marks start with. -/
def markStarts : List Char :=
  ['+', '-', '*', '/', '&', '|', '^', '~', '!', '=', '<', '>', '?', ':', ';', ',', '.', '@', '(',
    ')', '[', ']', '\x7b', '\x7d']

theorem markAhead?_eq_none_iff (c : Char) (cs : List Char) :
    markAhead? c cs = none ↔ c ∉ markStarts := by
  fun_cases markAhead? c cs
  case case46 =>
    refine iff_of_true rfl ?_
    simp only [markStarts, List.mem_cons, List.not_mem_nil, or_false, not_or]
    and_intros <;> assumption
  all_goals exact iff_of_false nofun (by decide)

theorem toLower_mem_markStarts {c : Char} : c.toLower ∈ markStarts ↔ c ∈ markStarts := by
  have all : markStarts.all (!·.isAlpha) = true := by decide
  have marks (sign : Char) (mark : sign ∈ markStarts) : sign.isAlpha = false := by
    simpa using List.all_eq_true.mp all sign mark
  constructor
  · intro mark
    rwa [(toLower_eq_iff (marks _ mark)).mp rfl]
  · intro mark
    rwa [(toLower_eq_iff (marks _ mark)).mpr rfl]

/-- Marks have no letters in them, so they are found alike. -/
theorem markAhead?_lower (c : Char) (cs : List Char) :
    markAhead? c.toLower (cs.map Char.toLower) = markAhead? c cs := by
  have starts := markAhead?_eq_none_iff c cs
  revert starts
  fun_cases markAhead? c cs
  all_goals intro starts
  case case3 => exact markAhead?.eq_3 _ (lower_ne_cons rfl ‹_›) (lower_ne_cons rfl ‹_›)
  case case6 => exact markAhead?.eq_6 _ (lower_ne_cons rfl ‹_›) (lower_ne_cons rfl ‹_›)
  case case8 => exact markAhead?.eq_8 _ (lower_ne_cons rfl ‹_›)
  case case10 => exact markAhead?.eq_10 _ (lower_ne_cons rfl ‹_›)
  case case13 => exact markAhead?.eq_13 _ (lower_ne_cons rfl ‹_›) (lower_ne_cons rfl ‹_›)
  case case16 => exact markAhead?.eq_16 _ (lower_ne_cons rfl ‹_›) (lower_ne_cons rfl ‹_›)
  case case18 => exact markAhead?.eq_18 _ (lower_ne_cons rfl ‹_›)
  case case21 => exact markAhead?.eq_21 _ (lower_ne_cons rfl ‹_›)
  case case22 other =>
    exact markAhead?.eq_22 _ (fun _ => lower_ne_cons rfl other _) (lower_ne_cons rfl other)
  case case24 => exact markAhead?.eq_24 _ (lower_ne_cons rfl ‹_›)
  case case26 other other' =>
    exact markAhead?.eq_26 _ (fun _ => lower_ne_cons rfl other _) (lower_ne_cons rfl other)
      (lower_ne_cons rfl other')
  case case28 => exact markAhead?.eq_28 _ (lower_ne_cons rfl ‹_›)
  case case31 other other' other'' =>
    exact markAhead?.eq_31 _ (fun _ => lower_ne_cons rfl other _) (lower_ne_cons rfl other)
      (lower_ne_cons rfl other') (lower_ne_cons rfl other'')
  case case33 => exact markAhead?.eq_33 _ (lower_ne_cons rfl ‹_›)
  case case46 =>
    exact (markAhead?_eq_none_iff _ _).mpr (mt toLower_mem_markStarts.mp (starts.mp rfl))
  all_goals rfl

end Lexeme

namespace Numeral

/-- Digits are not changed. -/
theorem digits_lower (cs : List Char) :
    (cs.map Char.toLower).takeWhile Char.isDigit = cs.takeWhile Char.isDigit := by
  have digit (c : Char) (hc : c.isDigit = true) : c.toLower = c := by
    have value := (isDigit_iff c).mp hc
    rcases toLower_cases c with ⟨low, _, _⟩ | ⟨_, same⟩
    · omega
    · exact same
  calc (cs.map Char.toLower).takeWhile Char.isDigit
      = (cs.takeWhile Char.isDigit).map Char.toLower := takeWhile_lower isDigit_toLower cs
    _ = (cs.takeWhile Char.isDigit).map id :=
      List.map_congr_left fun c hc => digit c (List.all_eq_true.mp List.all_takeWhile c hc)
    _ = cs.takeWhile Char.isDigit := List.map_id _

theorem fractionAhead_lower (cs : List Char) :
    fractionAhead (cs.map Char.toLower) = fractionAhead cs := by
  fun_cases fractionAhead cs with
  | case1 cs => exact digits_lower cs
  | case2 _ pointless => exact fractionAhead.eq_2 _ (lower_ne_cons rfl pointless)

theorem markAhead_lower (hasFraction : Bool) (cs : List Char) :
    markAhead hasFraction (cs.map Char.toLower) = markAhead hasFraction cs := by
  cases cs with
  | nil => rfl
  | cons c cs =>
    have long : c.toLower = 'l' ∨ c.toLower = 'L' ↔ c = 'l' ∨ c = 'L' :=
      toLower_eq_or_iff c 'L' (by decide) (by decide)
    have floating : c.toLower = 'd' ∨ c.toLower = 'D' ↔ c = 'd' ∨ c = 'D' :=
      toLower_eq_or_iff c 'D' (by decide) (by decide)
    simp only [List.map_cons, markAhead, long, floating]

theorem read_lower (text : List Char) : read (text.map Char.toLower) = read text := by
  unfold read
  simp only [digits_lower, dropWhile_lower isDigit_toLower, fractionAhead_lower]
  split
  · rw [markAhead_lower]
  · rw [← List.map_drop, markAhead_lower]

end Numeral

/-! ## Queries -/

theorem queryAhead?_lower (text : List Char) :
    queryAhead? (text.map Char.toLower) = queryAhead? text := by
  unfold queryAhead?
  simp only [dropWhile_lower isWhiteSpace_toLower, takeWhile_lower isWordPart_toLower,
    dropWhile_lower isWordPart_toLower, List.head?_map, Option.map_map, Function.comp_def,
    isWhiteSpace_toLower, sameWord, ← lowerWord_ofList, lowerWord_lowerWord]
  split
  · cases ((text.dropWhile isWhiteSpace).dropWhile isWordPart).dropWhile isWhiteSpace with
    | nil => rfl
    | cons c cs => simp [toLower_eq_iff]
  · rfl

theorem queryLength_lower (depth n : Nat) (inString : Bool) (cs : List Char) :
    queryLength depth n inString (cs.map Char.toLower) = queryLength depth n inString cs := by
  fun_induction queryLength depth n inString cs
  case case1 => rw [List.map_nil, queryLength.eq_def]
  all_goals
    rw [List.map_cons, queryLength.eq_def]
    simp_all [toLower_eq_iff, toLower_beq, bne]

theorem pathLength_lower (n : Nat) (cs : List Char) :
    pathLength n (cs.map Char.toLower) = pathLength n cs := by
  fun_induction pathLength n cs with
  | case1 n c cs start ih =>
    show pathLength n ('.' :: c.toLower :: cs.map Char.toLower) = _
    rw [pathLength, isWordStart_toLower, if_pos start, ih]
  | case2 n c cs start =>
    show pathLength n ('.' :: c.toLower :: cs.map Char.toLower) = _
    rw [pathLength, isWordStart_toLower, if_neg start]
  | case3 n c cs other part ih =>
    rw [List.map_cons, pathLength.eq_2, isWordPart_toLower, if_pos part, ih]
    intro d ds dot rest
    obtain ⟨d, ds, rfl, -⟩ := List.map_eq_cons_iff.mp rest
    exact other d ds ((toLower_eq_iff rfl).mp dot) rfl
  | case4 n c cs other part =>
    rw [List.map_cons, pathLength.eq_2, isWordPart_toLower, if_neg part]
    intro d ds dot rest
    obtain ⟨d, ds, rfl, -⟩ := List.map_eq_cons_iff.mp rest
    exact other d ds ((toLower_eq_iff rfl).mp dot) rfl
  | case5 n => rfl

theorem wordAhead_lower (cs : List Char) :
    ((cs.map Char.toLower).head?.map isWordStart).getD false =
      (cs.head?.map isWordStart).getD false := by
  cases cs <;> simp

/-- The bound variables of a query are the same ones, in small letters. -/
theorem bindsIn_lower (found : List (Spanned String)) (offset : Nat) (inString : Bool)
    (cs : List Char) :
    bindsIn (found.map (Ident.blur .folding)) offset inString (cs.map Char.toLower) =
      (bindsIn found offset inString cs).map (Ident.blur .folding) := by
  fun_induction bindsIn found offset inString cs
  case case1 => rw [List.map_nil, bindsIn.eq_def]
  case case5 found offset inString c cs outside ahead bind span ih =>
    have lower : (c.toLower :: (cs.map Char.toLower).take (pathLength 0 (cs.map Char.toLower))) =
        bind.map Char.toLower := by
      rw [pathLength_lower, ← List.map_take, ← List.map_cons]
    have ahead' : c.toLower = ':' ∧
        ((cs.map Char.toLower).head?.map isWordStart).getD false = true :=
      ⟨(toLower_eq_iff rfl).mpr ahead.1, (wordAhead_lower cs).trans ahead.2⟩
    rw [List.map_cons, bindsIn.eq_def]
    simp only [if_neg outside, if_pos ahead', lower, byteSize_lower]
    rw [← ih]
    simp only [List.map_cons, Ident.blur, Blur.folding, lowerWord_ofList, span]
  case case6 found offset inString c cs outside unbound ih =>
    have unbound' : ¬(c.toLower = ':' ∧
        ((cs.map Char.toLower).head?.map isWordStart).getD false = true) := by
      rwa [toLower_eq_iff rfl, wordAhead_lower]
    have quote : (c.toLower == '\'') = (c == '\'') := toLower_beq rfl
    rw [List.map_cons, bindsIn.eq_def]
    simp only [if_neg outside, if_neg unbound', utf8Size_toLower, quote, ih]
  all_goals
    rw [List.map_cons, bindsIn.eq_def]
    simp_all [toLower_eq_iff, toLower_beq, bne]

theorem Query.ofText_lower (offset : Nat) (text : List Char) :
    Query.ofText offset (text.map Char.toLower) = (Query.ofText offset text).blur .folding := by
  unfold Query.ofText Query.blur
  rw [List.map_reverse, ← bindsIn_lower]
  simp only [List.map_nil, Blur.folding, lowerWord_ofList]

theorem Ident.blur_folding (i : Ident) :
    Ident.blur .folding (Ident.blur .folding i) = Ident.blur .folding i := by
  simp only [Ident.blur, Blur.folding, lowerWord_lowerWord]

theorem Query.blur_folding (q : Query) : (q.blur .folding).blur .folding = q.blur .folding := by
  have binds : (q.binds.map (Ident.blur .folding)).map (Ident.blur .folding) =
      q.binds.map (Ident.blur .folding) := by
    rw [List.map_map, show Ident.blur .folding ∘ Ident.blur .folding = Ident.blur .folding from
      funext Ident.blur_folding]
  have text : Blur.folding.text (Blur.folding.text q.text) = Blur.folding.text q.text :=
    lowerWord_lowerWord q.text
  simp only [Query.blur, text, binds]

theorem reservedOfWord?_lowerWord (word : String) :
    Keyword.reservedOfWord? (lowerWord word) = Keyword.reservedOfWord? word := by
  simp only [Keyword.reservedOfWord?, Keyword.ofWord?, lowerWord_lowerWord]

/-! ## Lexemes -/

/-- The content with names and queries in small letters. -/
def LexemeContent.folded : LexemeContent → LexemeContent
  | .blank => .blank
  | .token kind => .token (kind.blur .folding)
  | .keyword k written => .keyword k (lowerWord written)
  | .faulty errors => .faulty errors

/-- The lexeme with names and queries in small letters. -/
def Lexeme.folded (lexeme : Lexeme) : Lexeme := ⟨lexeme.more, lexeme.content.folded⟩

namespace Lexeme

theorem faulty_lower (fault : LexFault) (start : Nat) (c : Char) (cs : List Char) (more : Nat) :
    faulty fault start c.toLower (cs.map Char.toLower) more = faulty fault start c cs more := by
  unfold faulty
  rw [byteSize_cons, byteSize_cons, utf8Size_toLower, ← List.map_take, byteSize_lower]

theorem blockComment_lower (start : Nat) (cs : List Char) :
    (blockComment start (cs.map Char.toLower)).folded = (blockComment start cs).folded := by
  unfold blockComment
  rw [commentLength_lower]
  split
  · rfl
  · exact faulty_lower .openComment start '/' ('*' :: cs) _

theorem query_lower (language : QueryLanguage) (start : Nat) (cs : List Char) :
    (query language start (cs.map Char.toLower)).folded = (query language start cs).folded := by
  unfold query
  rw [queryLength_lower]
  rcases queryLength 0 0 false cs with ⟨n, ending⟩
  cases ending with
  | closed =>
    dsimp only
    rw [← List.map_take, Query.ofText_lower]
    cases language <;> simp only [folded, LexemeContent.folded, TokenKind.blur, Query.blur_folding]
  | sourceEnd => exact congrArg folded (faulty_lower .openQuery start '[' cs n)
  | sourceEndInString => exact congrArg folded (faulty_lower .openQueryString start '[' cs n)

theorem numeral_lower (start : Nat) (c : Char) (cs : List Char) :
    (numeral start c.toLower (cs.map Char.toLower)).folded = (numeral start c cs).folded := by
  unfold numeral
  rw [← List.map_cons, Numeral.read_lower]
  dsimp only
  split
  · rfl
  · rw [faulty_lower]

theorem word_lower (c : Char) (cs : List Char) :
    (word c.toLower (cs.map Char.toLower)).folded = (word c cs).folded := by
  unfold word
  have written : String.ofList (c.toLower :: (cs.takeWhile isWordPart).map Char.toLower) =
      lowerWord (String.ofList (c :: cs.takeWhile isWordPart)) := by
    rw [lowerWord_ofList, List.map_cons]
  dsimp only
  rw [takeWhile_lower isWordPart_toLower, written, List.length_map, reservedOfWord?_lowerWord]
  generalize String.ofList (c :: cs.takeWhile isWordPart) = word
  unfold folded
  cases Keyword.reservedOfWord? word with
  | some k => simp only [LexemeContent.folded, lowerWord_lowerWord]
  | none => simp only [LexemeContent.folded, TokenKind.blur, Blur.folding, lowerWord_lowerWord]

/-- The lexeme that starts with no letter, digit or quote and is no comment: a query or a mark. -/
def sign (start : Nat) (c : Char) (cs : List Char) : Lexeme :=
  match (if c = '[' then queryAhead? cs else none) with
  | some language => query language start cs
  | none =>
    match markAhead? c cs with
    | some (kind, more) => ⟨more, .token kind⟩
    | none => faulty (.unexpectedCharacter c) start c cs 0

theorem read_eq_sign {start : Nat} {c : Char} {cs : List Char} (gap : ¬isGap c)
    (word : ¬isWordStart c) (digit : ¬c.isDigit) (unquoted : c ≠ '\'')
    (line : ∀ rest, c = '/' → cs = '/' :: rest → False)
    (block : ∀ rest, c = '/' → cs = '*' :: rest → False) : read start c cs = sign start c cs := by
  unfold read
  rw [if_neg gap, if_neg word, if_neg digit]
  split
  · exact (line _ rfl rfl).elim
  · exact (block _ rfl rfl).elim
  · exact absurd rfl unquoted
  · rfl

/-- A character that is no letter stays as it is. -/
theorem toLower_of_not_wordStart {c : Char} (word : ¬isWordStart c) : c.toLower = c := by
  have other : ¬c.isAlpha = true := fun alpha => word (by simp [isWordStart, alpha])
  rw [isAlpha_iff] at other
  rcases toLower_cases c with ⟨low, high, _⟩ | ⟨_, same⟩
  · omega
  · exact same

theorem sign_lower {c : Char} (word : ¬isWordStart c) (start : Nat) (cs : List Char) :
    (sign start c (cs.map Char.toLower)).folded = (sign start c cs).folded := by
  have marks := markAhead?_lower c cs
  have fault := faulty_lower (.unexpectedCharacter c) start c cs 0
  rw [toLower_of_not_wordStart word] at marks fault
  unfold sign
  rw [queryAhead?_lower, marks]
  split
  · exact query_lower _ start cs
  · split
    · rfl
    · rw [fault]

/-- Outside quoted literals a lexeme is the same one in small letters, up to the way names and
queries are written. -/
theorem read_lower (start : Nat) {c : Char} (unquoted : c ≠ '\'') (cs : List Char) :
    (read start c.toLower (cs.map Char.toLower)).folded = (read start c cs).folded := by
  by_cases gap : isGap c
  · unfold read
    rw [isGap_toLower, if_pos gap, if_pos gap]
  by_cases word : isWordStart c
  · unfold read
    rw [isGap_toLower, isWordStart_toLower, if_neg gap, if_neg gap, if_pos word, if_pos word]
    exact word_lower c cs
  by_cases digit : c.isDigit
  · unfold read
    rw [isGap_toLower, isWordStart_toLower, isDigit_toLower, if_neg gap, if_neg gap, if_neg word,
      if_neg word, if_pos digit, if_pos digit]
    exact numeral_lower start c cs
  rw [toLower_of_not_wordStart word]
  by_cases line : ∃ rest, c = '/' ∧ cs = '/' :: rest
  · obtain ⟨rest, rfl, rfl⟩ := line
    have newline (d : Char) : (d.toLower != '\n') = (d != '\n') := by
      rw [bne, bne, toLower_beq rfl]
    show (⟨1 + ((rest.map Char.toLower).takeWhile (· != '\n')).length, .blank⟩ : Lexeme).folded = _
    rw [takeWhile_lower newline, List.length_map]
    rfl
  by_cases block : ∃ rest, c = '/' ∧ cs = '*' :: rest
  · obtain ⟨rest, rfl, rfl⟩ := block
    exact blockComment_lower start rest
  have line' (rest : List Char) (slash : c = '/') (found : cs = '/' :: rest) : False :=
    line ⟨rest, slash, found⟩
  have block' (rest : List Char) (slash : c = '/') (found : cs = '*' :: rest) : False :=
    block ⟨rest, slash, found⟩
  rw [read_eq_sign gap word digit unquoted line' block', read_eq_sign gap word digit unquoted]
  · exact sign_lower word start cs
  · exact fun rest slash => lower_ne_cons rfl (fun rest => line' rest slash) rest
  · exact fun rest slash => lower_ne_cons rfl (fun rest => block' rest slash) rest

/-! ## Quoted literals -/

theorem le_quotedLength (n : Nat) (cs : List Char) : n ≤ (quotedLength n cs).1 := by
  fun_induction quotedLength n cs with
  | case1 | case2 | case3 => exact Nat.le_refl _
  | case4 => exact Nat.le_succ _
  | case5 | case6 => omega

/-- A literal that ends with the source reaches to its last character. -/
theorem quotedLength_sourceEnd (n : Nat) (cs : List Char)
    (ends : (quotedLength n cs).2 = .sourceEnd) : (quotedLength n cs).1 = n + cs.length := by
  fun_induction quotedLength n cs with
  | case1 | case4 => rfl
  | case2 | case3 => exact nomatch ends
  | case5 n c cs ih | case6 n c cs _ _ _ _ ih =>
    rw [ih ends]
    simp only [List.length_cons]
    omega

/-- The end of a quoted literal is found by the characters up to it, and by whether there are any
behind them. -/
theorem quotedLength_congr (n : Nat) (cs ds : List Char) (length : cs.length = ds.length)
    (same : cs.take ((quotedLength n cs).1 + 1 - n) = ds.take ((quotedLength n cs).1 + 1 - n)) :
    quotedLength n ds = quotedLength n cs := by
  fun_induction quotedLength n cs generalizing ds with
  | case1 n =>
    rw [List.eq_nil_of_length_eq_zero length.symm]
    rfl
  | case2 n cs | case3 n cs =>
    rcases ds with _ | ⟨d, ds⟩
    · exact nomatch length
    · rw [show n + 1 - n = 1 by omega] at same
      cases same
      rfl
  | case4 n =>
    rcases ds with _ | ⟨d, _ | ⟨d', ds⟩⟩
    · exact nomatch length
    · rw [show n + 1 + 1 - n = 2 by omega] at same
      cases same
      rfl
    · exact nomatch length
  | case5 n c cs ih =>
    have least := le_quotedLength (n + 2) cs
    rw [show (quotedLength (n + 2) cs).1 + 1 - n = (quotedLength (n + 2) cs).1 + 1 - (n + 2) + 1 + 1
      by omega] at same
    rcases ds with _ | ⟨d, _ | ⟨d', ds⟩⟩
    · exact nomatch length
    · exact nomatch length
    · simp only [List.take_succ_cons, List.cons.injEq] at same
      obtain ⟨rfl, rfl, same⟩ := same
      rw [quotedLength.eq_5]
      exact ih ds (by simpa using length) same
  | case6 n c cs quote newline last shield ih =>
    have least := le_quotedLength (n + 1) cs
    rw [show (quotedLength (n + 1) cs).1 + 1 - n = (quotedLength (n + 1) cs).1 + 1 - (n + 1) + 1
      by omega] at same
    rcases ds with _ | ⟨d, ds⟩
    · exact nomatch length
    · simp only [List.take_succ_cons, List.cons.injEq] at same
      obtain ⟨rfl, same⟩ := same
      rw [quotedLength.eq_6 _ _ _ quote newline]
      · exact ih ds (by simpa using length) same
      · rintro rfl rfl
        exact last rfl (List.eq_nil_of_length_eq_zero (by simpa using length))
      · rintro d ds rfl rfl
        rcases cs with _ | ⟨e, cs⟩
        · exact nomatch length
        · exact shield e cs rfl rfl

theorem quoted_more (start : Nat) (cs : List Char) :
    (quoted start cs).more =
      if (quotedLength 0 cs).2 = .sourceEnd then (quotedLength 0 cs).1
      else (quotedLength 0 cs).1 + 1 := by
  unfold quoted
  dsimp only
  split
  · split <;> rfl
  · rfl

/-- A quoted literal is told by its characters, and by whether there are any behind them. -/
theorem quoted_congr (start : Nat) {cs ds : List Char} (length : cs.length = ds.length)
    (same : cs.take (quoted start cs).more = ds.take (quoted start cs).more) :
    quoted start ds = quoted start cs := by
  have inner : cs.take (quotedLength 0 cs).1 = ds.take (quotedLength 0 cs).1 := by
    have shorter := congrArg (List.take (quotedLength 0 cs).1) same
    rw [List.take_take, List.take_take, quoted_more] at shorter
    rwa [Nat.min_eq_left (by split <;> omega)] at shorter
  have whole : cs.take ((quotedLength 0 cs).1 + 1) = ds.take ((quotedLength 0 cs).1 + 1) := by
    by_cases ends : (quotedLength 0 cs).2 = .sourceEnd
    · have all := quotedLength_sourceEnd 0 cs ends
      rw [List.take_of_length_le (by omega), List.take_of_length_le (by omega)] at inner ⊢
      exact inner
    · rwa [quoted_more, if_neg ends] at same
  rw [quoted_more] at same
  unfold quoted
  rw [quotedLength_congr 0 cs ds length whole]
  dsimp only
  rw [← inner, byteSize_cons, byteSize_cons, same]

theorem read_quote (start : Nat) (cs : List Char) : read start '\'' cs = quoted start cs := rfl

/-! ## Two texts -/

/-- Lexemes of texts that differ in letter case only, outside quoted literals. -/
theorem read_like (start : Nat) {c d : Char} {cs ds : List Char} (unquoted : c ≠ '\'')
    (first : c.toLower = d.toLower) (rest : cs.map Char.toLower = ds.map Char.toLower) :
    (read start c cs).folded = (read start d ds).folded := by
  have unquoted' : d ≠ '\'' := by
    rintro rfl
    exact unquoted ((toLower_eq_iff rfl).mp first)
  rw [← read_lower start unquoted, ← read_lower start unquoted', first, rest]

/-- The extent of a lexeme does not depend on where it stands. -/
theorem more_read (start start' : Nat) (c : Char) (cs : List Char) :
    (read start c cs).more = (read start' c cs).more := by
  unfold read
  split
  · rfl
  split
  · rfl
  split
  · unfold numeral
    dsimp only
    split <;> rfl
  split
  · rfl
  · unfold blockComment
    split <;> rfl
  · rw [quoted_more, quoted_more]
  · split
    · unfold query
      dsimp only
      split <;> rfl
    · split <;> rfl

end Lexeme

end Apex
