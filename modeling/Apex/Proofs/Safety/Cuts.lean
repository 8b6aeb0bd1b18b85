import Apex.Proofs.Safety.Counting
import Apex.Proofs.Safety.Cutting
import Apex.Proofs.Tiling.QueryWords

/-!
# No cut fails

A cursor stands between two characters of its text: it has counted the bytes of the characters it
passed. So whatever it cuts out is a piece of the text, and reading by cutting gives what reading the
characters gives.
-/

namespace Apex

namespace TextCursor

variable {s : TextCursor}

/-! ## Moving on -/

@[simp] theorem pass_zero (s : TextCursor) : s.pass 0 = s := rfl

theorem pass_pass (s : TextCursor) (m n : Nat) : (s.pass m).pass n = s.pass (m + n) := by
  simp only [pass, List.drop_drop, List.take_add, byteSize_append, Nat.add_assoc]

theorem advance_eq (s : TextCursor) : s.advance = s.pass 1 := by
  obtain ⟨source, rest, offset⟩ := s
  cases rest <;> simp [advance, pass]

theorem advance_pass (s : TextCursor) (n : Nat) : s.advance.pass n = s.pass (n + 1) := by
  rw [advance_eq, pass_pass, Nat.add_comm]

theorem offset_pass {c : Char} {cs : List Char} (found : s.rest = c :: cs) (n : Nat) :
    (s.pass (n + 1)).offset = s.offset + byteSize (c :: cs.take n) := by
  rw [pass, found, List.take_succ_cons]

theorem rest_advance {c : Char} {cs : List Char} (found : s.rest = c :: cs) :
    s.advance.rest = cs := by
  rw [advance_eq, pass, found]
  rfl

theorem offset_advance {c : Char} {cs : List Char} (found : s.rest = c :: cs) :
    s.advance.offset = s.offset + c.utf8Size := by
  rw [TextCursor.advance, found]

theorem passWhile_eq (p : Char → Bool) (s : TextCursor) :
    s.passWhile p = s.pass (s.rest.takeWhile p).length := by
  fun_induction passWhile p s with
  | case1 s found => rw [found, List.takeWhile_nil, List.length_nil, pass_zero]
  | case2 s c cs found holds ih =>
    rw [ih, rest_advance found, advance_pass, found, List.takeWhile_cons_of_pos holds,
      List.length_cons]
  | case3 s c cs found fails =>
    rw [found, List.takeWhile_cons_of_neg fails, List.length_nil, pass_zero]

/-! ## Words and numerals -/

/-- As many bytes are counted as there are before the characters left. -/
def Stands (s : TextCursor) : Prop :=
  ∃ before, s.source.toList = before ++ s.rest ∧ byteSize before = s.offset

namespace Stands

theorem pass (h : s.Stands) (n : Nat) : (s.pass n).Stands := by
  obtain ⟨before, whole, offset⟩ := h
  refine ⟨before ++ s.rest.take n, ?_, ?_⟩
  · rw [List.append_assoc]
    exact whole.trans (congrArg (before ++ ·) (List.take_append_drop n s.rest).symm)
  · rw [byteSize_append, offset]
    rfl

theorem advance (h : s.Stands) : s.advance.Stands := by
  rw [advance_eq]
  exact h.pass 1

/-- What has been passed can be cut out. -/
theorem cut? (h : s.Stands) (n : Nat) :
    s.cut? s.offset (s.pass n).offset = some (String.ofList (s.rest.take n)) := by
  obtain ⟨before, whole, offset⟩ := h
  have split : s.source.toList = before ++ s.rest.take n ++ s.rest.drop n := by
    rw [List.append_assoc, List.take_append_drop, whole]
  have slice := Span.slice?_of_append _ _ _ split
  rw [offset] at slice
  exact slice

/-- What is left can be cut off. -/
theorem ahead? (h : s.Stands) : s.ahead? = some (String.ofList s.rest) := by
  have whole := h.cut? s.rest.length
  have size : (s.pass s.rest.length).offset = s.source.utf8ByteSize := by
    obtain ⟨before, whole, offset⟩ := h
    rw [← byteSize_toList, whole, byteSize_append, offset, TextCursor.pass, List.take_length]
  rwa [size, List.take_length] at whole

theorem peekNext? (h : s.Stands) : s.peekNext? = some s.rest[1]? := by
  rw [TextCursor.peekNext?, h.ahead?, Option.map_some, String.toList_ofList]

theorem word? (h : s.Stands) {c : Char} {cs : List Char} (found : s.rest = c :: cs) :
    s.advance.word? s.offset =
      some ((Lexeme.word c cs).content, s.pass ((Lexeme.word c cs).more + 1)) := by
  have passed : s.advance.passWhile isWordPart = s.pass ((cs.takeWhile isWordPart).length + 1) := by
    rw [passWhile_eq, rest_advance found, advance_pass]
  have text := h.cut? ((cs.takeWhile isWordPart).length + 1)
  rw [found, List.take_succ_cons, take_takeWhile_length] at text
  unfold TextCursor.word?
  rw [passed]
  change (s.cut? s.offset _).bind _ = _
  rw [text]
  rfl

/-- The digits behind a point and the point itself. -/
theorem fraction? (h : s.Stands) :
    s.fraction? = some (s.pass (if (Numeral.fractionAhead s.rest).isEmpty then 0
        else (Numeral.fractionAhead s.rest).length + 1),
      !(Numeral.fractionAhead s.rest).isEmpty) := by
  unfold TextCursor.fraction?
  cases found : s.rest with
  | nil => simp [Numeral.fractionAhead]
  | cons c cs =>
    by_cases point : c = '.'
    · subst point
      have digits : Numeral.fractionAhead ('.' :: cs) = cs.takeWhile Char.isDigit := rfl
      rw [h.peekNext?, found, digits, passWhile_eq, rest_advance found, advance_pass]
      cases cs with
      | nil => simp
      | cons d ds =>
        by_cases digit : d.isDigit
        · simp [digit]
        · simp [digit]
    · have pointless : Numeral.fractionAhead (c :: cs) = [] :=
        Numeral.fractionAhead.eq_2 _ fun rest same => point (List.cons.inj same).1
      simp [point, pointless]

theorem numeral? (h : s.Stands) {c : Char} {cs : List Char} (found : s.rest = c :: cs)
    (digit : c.isDigit) :
    s.advance.numeral? s.offset =
      some ((Lexeme.numeral s.offset c cs).content,
        s.pass ((Lexeme.numeral s.offset c cs).more + 1)) := by
  let n := Numeral.read (c :: cs)
  let k := if n.fraction.isEmpty then 0 else n.fraction.length + 1
  have first : n.whole = c :: cs.takeWhile Char.isDigit := List.takeWhile_cons_of_pos digit
  have wholePassed : s.advance.passWhile Char.isDigit = s.pass n.whole.length := by
    rw [passWhile_eq, rest_advance found, advance_pass, first, List.length_cons]
  have behind : (s.pass n.whole.length).rest = (c :: cs).dropWhile Char.isDigit := by
    rw [TextCursor.pass, found]
    exact drop_takeWhile_length _ _
  have fraction : (s.pass n.whole.length).fraction? =
      some (s.pass (n.whole.length + k), !n.fraction.isEmpty) := by
    rw [(h.pass _).fraction?, behind, pass_pass]
    rfl
  have mark : Numeral.markAhead (!n.fraction.isEmpty) (s.pass (n.whole.length + k)).rest =
      n.mark := by
    rw [← pass_pass, TextCursor.pass, behind]
    unfold k
    split
    · next empty =>
      show _ = Numeral.markAhead _ (if n.fraction.isEmpty then _ else _)
      rw [if_pos empty, List.drop_zero]
      rfl
    · next some =>
      show _ = Numeral.markAhead _ (if n.fraction.isEmpty then _ else _)
      rw [if_neg some]
      rfl
  have digits : Numeral.read ((c :: cs).take (n.whole.length + k)) =
      ⟨n.whole, n.fraction, .none⟩ := Numeral.read_digits (c :: cs)
  have last : (if n.mark = .none then s.pass (n.whole.length + k)
      else (s.pass (n.whole.length + k)).advance) = s.pass n.length := by
    rw [advance_eq, pass_pass, ← apply_ite]
    unfold Numeral.length k
    split
    · rfl
    · rfl
  have cut := h.cut? (n.whole.length + k)
  rw [found] at cut
  unfold TextCursor.numeral?
  rw [wholePassed, fraction]
  change ((s.cut? s.offset (s.pass (n.whole.length + k)).offset).bind _) = _
  rw [cut]
  dsimp only [Option.bind_some]
  rw [mark, last, String.toList_ofList, digits]
  have long : 0 < n.length := by
    unfold Numeral.length
    rw [first, List.length_cons]
    omega
  have more : (Lexeme.numeral s.offset c cs).more + 1 = n.length := by
    rw [Lexeme.numeral_more]
    exact Nat.sub_add_cancel long
  have stop : (s.pass n.length).offset = s.offset + byteSize (c :: cs.take (n.length - 1)) := by
    rw [← List.take_cons long, ← found]
    rfl
  rw [more, stop]
  unfold Lexeme.numeral
  cases kind : (Numeral.read (c :: cs)).kind with
  | ok kind' => simp only [kind]; rfl
  | error fault => simp only [kind]; rfl

theorem queryAhead? (h : s.Stands) : s.queryAhead? = some (Apex.queryAhead? s.rest) := by
  unfold TextCursor.queryAhead? trimmed
  rw [h.ahead?, Apex.queryAhead?]
  dsimp only [bind, Option.bind_some]
  rw [String.toList_ofList, String.toList_ofList]
  generalize s.rest.dropWhile isWhiteSpace = words
  have whole : (String.ofList words).toList = [] ++ words.takeWhile isWordPart ++
      words.dropWhile isWordPart := by
    rw [String.toList_ofList, List.nil_append, List.takeWhile_append_dropWhile]
  have word := Span.slice?_of_append [] _ _ whole
  rw [byteSize_nil, Nat.zero_add] at word
  have after : Span.slice? ⟨byteSize (words.takeWhile isWordPart),
      (String.ofList words).utf8ByteSize⟩ (String.ofList words) =
      some (String.ofList (words.dropWhile isWordPart)) := by
    have size : (String.ofList words).utf8ByteSize =
        byteSize (words.takeWhile isWordPart) + byteSize (words.dropWhile isWordPart) := by
      rw [← byteSize_toList, whole, List.nil_append, byteSize_append]
    rw [size]
    exact Span.slice?_of_append _ _ [] (by rw [List.append_nil, whole, List.nil_append])
  rw [word, after]
  dsimp only [Option.bind_some]
  rw [String.toList_ofList, String.toList_ofList]
  generalize words.dropWhile isWordPart = behind
  have size (cs : List Char) : (String.ofList cs).utf8ByteSize = byteSize cs := by
    rw [← byteSize_toList, String.toList_ofList]
  rw [size, size]
  cases behind with
  | nil => rfl
  | cons c cs =>
    by_cases white : isWhiteSpace c
    · have shorter : byteSize ((c :: cs).dropWhile isWhiteSpace) ≠ byteSize (c :: cs) := by
        have split : byteSize cs =
            byteSize (cs.takeWhile isWhiteSpace) + byteSize (cs.dropWhile isWhiteSpace) := by
          rw [← byteSize_append, List.takeWhile_append_dropWhile]
        have positive := c.utf8Size_pos
        rw [List.dropWhile_cons_of_pos white, byteSize_cons]
        omega
      rw [if_neg shorter]
      simp only [List.head?_cons, Option.map_some, Option.getD_some, white, if_true]
      cases (c :: cs).dropWhile isWhiteSpace with
      | nil => rfl
      | cons d ds => rfl
    · rw [List.dropWhile_cons_of_neg white, if_pos rfl]
      simp [white]

theorem path? (h : s.Stands) : s.path? = some (s.pass (pathLength 0 s.rest)) := by
  fun_induction TextCursor.path? s with
  | case1 s found => rw [found]; rfl
  | case2 s c cs found part ih =>
    have next := ih (h.advance)
    rw [rest_advance found] at next
    rw [next, found, pathLength_cons part, advance_pass, Nat.add_comm]
  | case3 s cs peeked found =>
    rw [h.peekNext?] at peeked
    cases peeked
  | case4 s cs next peeked start found noPart ih =>
    rw [h.peekNext?, found] at peeked
    cases peeked
    cases cs with
    | nil => cases start
    | cons d ds =>
      have start : isWordStart d := start
      have behind := ih (h.advance)
      rw [rest_advance found, pathLength_cons (isWordPart_of_isWordStart start)] at behind
      rw [behind, found, pathLength.eq_1, if_pos start, pathLength_add, advance_eq, pass_pass]
      congr 2
      omega
  | case5 s cs next peeked start found noPart =>
    rw [h.peekNext?, found] at peeked
    cases peeked
    rw [found]
    cases cs with
    | nil => rfl
    | cons d ds =>
      have start : ¬isWordStart d := start
      rw [pathLength.eq_1, if_neg start, pass_zero]
  | case6 s c cs found noPart point =>
    rw [found, pathLength.eq_2 _ _ _ fun _ _ same => absurd same point, if_neg noPart, pass_zero]

end Stands

/-! ## Queries -/

/-- The cursor stands behind `before` and a piece of a query. -/
structure Passed (before passed : List Char) (s : TextCursor) : Prop where
  whole : s.source.toList = before ++ passed ++ s.rest
  offset : s.offset = byteSize before + byteSize passed

/-- What is found of a query behind a piece of it, given how long the rest of it is and how it
ends. -/
def scanned (passed : List Char) (binds : List (Spanned String)) (inString : Bool)
    (s : TextCursor) : Nat × QueryEnd → QueryScan × TextCursor
  | (n, .closed) =>
    (.closed (String.ofList (passed ++ s.rest.take n)) (bindsIn binds s.offset inString (s.rest.take n)),
      s.pass (n + 1))
  | (n, .sourceEnd) => (.ended false, s.pass n)
  | (n, .sourceEndInString) => (.ended true, s.pass n)

namespace Passed

variable {before passed piece behind : List Char}

theorem stands (h : Passed before passed s) : s.Stands :=
  ⟨before ++ passed, h.whole, by rw [byteSize_append, h.offset]⟩

theorem pass (h : Passed before passed s) (split : s.rest = piece ++ behind) :
    Passed before (passed ++ piece) (s.pass piece.length) := by
  constructor
  · rw [TextCursor.pass, split, List.drop_left, h.whole, split]
    simp only [List.append_assoc]
  · rw [TextCursor.pass, split, List.take_left, h.offset, byteSize_append, Nat.add_assoc]

/-- What is found behind another piece of the query. -/
theorem scanned_pass (split : s.rest = piece ++ behind) {binds binds' : List (Spanned String)}
    {inString inString' : Bool}
    (same : ∀ n, bindsIn binds s.offset inString (piece ++ behind.take n) =
      bindsIn binds' (s.offset + byteSize piece) inString' (behind.take n)) (n : Nat) (ending : QueryEnd) :
    scanned (passed ++ piece) binds' inString' (s.pass piece.length) (n, ending) =
      scanned passed binds inString s (n + piece.length, ending) := by
  have rest : (s.pass piece.length).rest = behind := by rw [TextCursor.pass, split, List.drop_left]
  have offset : (s.pass piece.length).offset = s.offset + byteSize piece := by
    rw [TextCursor.pass, split, List.take_left]
  have taken : s.rest.take (n + piece.length) = piece ++ behind.take n := by
    rw [split, Nat.add_comm, List.take_length_add_append]
  cases ending with
  | closed =>
    have count : piece.length + (n + 1) = n + piece.length + 1 := by omega
    simp only [scanned, rest, offset, taken, same, pass_pass, List.append_assoc, count]
  | sourceEnd | sourceEndInString => simp only [scanned, pass_pass, Nat.add_comm]

/-- A piece of the query that has been passed. -/
theorem step (split : s.rest = piece ++ behind) {binds binds' : List (Spanned String)}
    {depth depth' : Nat} {inString inString' : Bool}
    (size : queryLength depth 0 inString s.rest = queryLength depth' piece.length inString' behind)
    (same : ∀ n, bindsIn binds s.offset inString (piece ++ behind.take n) =
      bindsIn binds' (s.offset + byteSize piece) inString' (behind.take n)) :
    scanned (passed ++ piece) binds' inString' (s.pass piece.length)
        (queryLength depth' 0 inString' (s.pass piece.length).rest) =
      scanned passed binds inString s (queryLength depth 0 inString s.rest) := by
  have rest : (s.pass piece.length).rest = behind := by rw [TextCursor.pass, split, List.drop_left]
  have count := queryLength_add depth' 0 piece.length inString' behind
  rw [Nat.zero_add] at count
  rw [size, count, rest]
  exact scanned_pass split same _ _

/-- One character of the query that has been passed. -/
theorem stepOne {c : Char} {cs : List Char} (found : s.rest = c :: cs)
    {binds : List (Spanned String)} {depth depth' : Nat} {inString inString' : Bool}
    (size : queryLength depth 0 inString (c :: cs) = queryLength depth' 1 inString' cs)
    (same : ∀ n, bindsIn binds s.offset inString (c :: cs.take n) =
      bindsIn binds (s.offset + c.utf8Size) inString' (cs.take n)) :
    scanned (passed ++ [c]) binds inString' s.advance
        (queryLength depth' 0 inString' s.advance.rest) =
      scanned passed binds inString s (queryLength depth 0 inString s.rest) := by
  have split : s.rest = [c] ++ cs := found
  have one : byteSize [c] = c.utf8Size := by simp
  rw [advance_eq]
  exact step split (by rw [found]; exact size) (by rw [one]; exact same)

theorem advance {c : Char} {cs : List Char} (h : Passed before passed s)
    (found : s.rest = c :: cs) : Passed before (passed ++ [c]) s.advance := by
  have split : s.rest = [c] ++ cs := found
  rw [advance_eq]
  exact h.pass split

/-- What has been passed of the query can be cut out. -/
theorem cut? (h : Passed before passed s) :
    s.cut? (byteSize before) s.offset = some (String.ofList passed) := by
  rw [h.offset]
  exact Span.slice?_of_append before passed s.rest h.whole

/-- The rest of a query is read as it is counted. -/
theorem queryBody? (h : Passed before passed s) (depth : Nat) (inString : Bool)
    (binds : List (Spanned String)) :
    s.queryBody? (byteSize before) depth inString binds =
      some (scanned passed binds inString s (queryLength depth 0 inString s.rest)) := by
  generalize hstart : byteSize before = start
  fun_induction TextCursor.queryBody? start depth inString binds s generalizing passed with
  | case1 depth inString binds s found =>
    rw [found, queryLength.eq_1]
    cases inString <;> rfl
  | case2 depth binds s cs found ih =>
    cases cs with
    | nil =>
      have stays : s.advance.advance = s.advance := by
        rw [TextCursor.advance, rest_advance found]
      have moved := h.advance found
      rw [← stays] at moved
      rw [ih moved, stays, rest_advance found, found, advance_eq]
      rfl
    | cons d ds =>
      have split : s.rest = ['\\', d] ++ ds := found
      have twice : s.advance.advance = s.pass 2 := by rw [advance_eq, advance_eq, pass_pass]
      have two : byteSize ['\\', d] = 1 + d.utf8Size := by
        rw [byteSize_cons, byteSize_cons, byteSize_nil, Nat.add_zero]
        rfl
      have moved : Passed before (passed ++ ['\\', d]) s.advance.advance := twice ▸ h.pass split
      rw [ih moved, twice]
      refine congrArg some (step split (by rw [found]; rfl) fun n => ?_)
      rw [two, ← Nat.add_assoc]
      rfl
  | case3 depth binds s c cs found plain ih =>
    rw [ih (h.advance found)]
    exact congrArg some (stepOne found (queryLength_plain _ _ _ plain) fun n =>
      bindsIn_plain _ _ _ plain)
  | case4 depth inString binds s cs outside found ih =>
    rw [Bool.not_eq_true] at outside
    subst outside
    rw [ih (h.advance found)]
    exact congrArg some (stepOne found (queryLength_open _ _ _) fun n =>
      bindsIn_outside _ _ _ (by simp))
  | case5 inString binds s cs outside s' found =>
    rw [Bool.not_eq_true] at outside
    subst outside hstart
    have behind : s.advance.offset - 1 = s.offset := by
      rw [offset_advance found]
      exact Nat.add_sub_cancel s.offset 1
    change (s.advance.cut? (byteSize before) (s.advance.offset - 1)).bind _ = _
    have same : s.advance.cut? (byteSize before) s.offset = s.cut? (byteSize before) s.offset := by
      rw [advance_eq]
      rfl
    rw [behind, same, h.cut?, found, queryLength_end]
    simp only [scanned, List.take_zero, List.append_nil, bindsIn.eq_1, Nat.zero_add, ← advance_eq]
    rfl
  | case6 inString binds s cs outside depth found other ih =>
    rw [Bool.not_eq_true] at outside
    subst outside
    rw [ih (h.advance found)]
    exact congrArg some (stepOne found (queryLength_close _ _ _) fun n =>
      bindsIn_outside _ _ _ (by simp))
  | case7 depth inString binds s c cs found outside opening closing bind run =>
    have stands := (h.advance found).stands
    rw [stands.path?] at run
    cases run
  | case8 depth inString binds s c cs found outside opening closing bind bindStart s' run =>
    rename_i ih
    rw [Bool.not_eq_true] at outside
    subst outside
    obtain ⟨rfl, start⟩ := bind
    obtain ⟨d, ds, rfl, start⟩ := (startsWord_iff cs).mpr start
    obtain ⟨path, behind, whole, length, isPath⟩ := exists_path start ds
    -- the cursor that has passed the name
    have moved := h.advance found
    have split : s.rest = (':' :: path) ++ behind := by rw [found, whole]; rfl
    rw [moved.stands.path?, rest_advance found, length, advance_pass,
      ← List.length_cons (a := ':')] at run
    cases run
    have colon : bindStart = s.offset := by
      unfold bindStart
      rw [offset_advance found]
      exact Nat.add_sub_cancel s.offset 1
    have text := h.stands.cut? (':' :: path).length
    have front : (s.pass (':' :: path).length).offset = s.offset + byteSize (':' :: path) := by
      rw [TextCursor.pass, split, List.take_left]
    rw [split, List.take_left] at text
    have same : (s.pass (':' :: path).length).cut? bindStart (s.pass (':' :: path).length).offset =
        some (String.ofList (':' :: path)) := by
      rw [colon]
      exact text
    change ((s.pass (':' :: path).length).cut? bindStart _).bind _ = _
    rw [same]
    dsimp only [Option.bind_some]
    rw [ih _ (h.pass split), colon, front]
    refine congrArg some (step split ?_ (bindsIn_bind _ _ isPath (whole ▸ length)))
    have unquoted : (':' == '\'') = false := rfl
    rw [split, List.cons_append, queryLength_outside _ _ _ opening closing, unquoted,
      queryLength_path _ _ isPath.isPathPart, List.length_cons, Nat.zero_add, Nat.add_comm 1]
  | case9 depth inString binds s c cs found outside opening closing free ih =>
    rw [Bool.not_eq_true] at outside
    subst outside
    rw [ih (h.advance found)]
    refine congrArg some (stepOne found (queryLength_outside _ _ _ opening closing) fun n =>
      bindsIn_outside _ _ _ fun bind => free ⟨bind.1, ?_⟩)
    have start := bind.2
    cases cs with
    | nil => simp at start
    | cons d ds =>
      cases n with
      | zero => simp at start
      | succ n => exact start

end Passed

namespace Stands

theorem query? (h : s.Stands) {cs : List Char} (found : s.rest = '[' :: cs)
    (language : QueryLanguage) :
    s.advance.query? s.offset language =
      some ((Lexeme.query language s.offset cs).content,
        s.pass ((Lexeme.query language s.offset cs).more + 1)) := by
  obtain ⟨before, whole, offset⟩ := h
  have bracket : s.advance.offset = s.offset + 1 := offset_advance found
  have start : byteSize (before ++ ['[']) = s.advance.offset := by
    rw [byteSize_append, offset, bracket]
    rfl
  have passed : Passed (before ++ ['[']) [] s.advance := by
    constructor
    · rw [rest_advance found, advance_eq, List.append_nil, List.append_assoc]
      exact whole.trans (congrArg _ found)
    · rw [start, byteSize_nil, Nat.add_zero]
  have body := passed.queryBody? 0 false []
  rw [start, rest_advance found] at body
  unfold TextCursor.query?
  rw [body]
  unfold Lexeme.query Query.ofText
  rcases queryLength 0 0 false cs with ⟨n, _ | _ | _⟩
  · simp only [scanned, rest_advance found, List.nil_append, bracket, advance_pass]
    rfl
  · simp only [scanned, advance_pass, Lexeme.faulty, ← offset_pass found]
    rfl
  · simp only [scanned, advance_pass, Lexeme.faulty, ← offset_pass found]
    rfl

/-- A lexeme is read as its characters say. -/
theorem read? (h : s.Stands) {c : Char} {cs : List Char} (found : s.rest = c :: cs) :
    s.advance.read? s.offset c =
      some ((Lexeme.read s.offset c cs).content, s.pass ((Lexeme.read s.offset c cs).more + 1)) := by
  unfold TextCursor.read?
  rw [rest_advance found]
  dsimp only
  by_cases letter : isWordStart c
  · rw [if_pos letter, (Lexeme.Reads.word (isGap_of_isWordStart letter) letter).eq]
    exact h.word? found
  by_cases digit : c.isDigit
  · rw [if_neg letter, if_pos digit,
      (Lexeme.Reads.numeral (isGap_of_isDigit digit) letter digit).eq]
    exact h.numeral? found digit
  rw [if_neg letter, if_neg digit, advance_pass]
  by_cases bracket : c = '['
  · subst bracket
    rw [if_pos rfl, h.advance.queryAhead?, rest_advance found]
    cases ahead : Apex.queryAhead? cs with
    | none => rfl
    | some language =>
      rw [Lexeme.read_query ahead]
      exact h.query? found language
  · rw [if_neg bracket]
    rfl

theorem lexFrom? (h : s.Stands) {l : Lexing} (place : l.offset = s.offset) {limit : Nat}
    (short : s.rest.length ≤ limit) : lexFrom? l s limit = some (lexFrom l 0 s.rest) := by
  induction limit generalizing l s with
  | zero =>
    have found : s.rest = [] := List.eq_nil_of_length_eq_zero (Nat.le_zero.mp short)
    rw [TextCursor.lexFrom?, found]
    rfl
  | succ limit ih =>
    rw [TextCursor.lexFrom?]
    cases found : s.rest with
    | nil => rfl
    | cons c cs =>
      dsimp only
      rw [h.read? found, lexFrom_cons, place]
      rw [found, List.length_cons] at short
      generalize Lexeme.read s.offset c cs = lexeme
      have rest : (s.pass (lexeme.more + 1)).rest = cs.drop lexeme.more := by
        rw [TextCursor.pass, found, List.drop_succ_cons]
      rw [← offset_pass found, ← rest]
      refine ih (h.pass _) ?_ ?_
      · cases lexeme.content <;> rfl
      · rw [rest, List.length_drop]
        omega

end Stands

end TextCursor

/-- No cut fails, and reading by cutting finds what reading the characters finds. -/
theorem lexByCutting?_eq (source : String) : lexByCutting? source = some (lex source) := by
  have stands : TextCursor.Stands ⟨source, source.toList, 0⟩ := ⟨[], rfl, rfl⟩
  unfold lexByCutting? lex
  rw [stands.lexFrom? rfl (Nat.le_of_eq String.length_toList)]
  rfl

end Apex
