import Apex.Proofs.Writing.Margins
import Mathlib.Data.Set.Function

/-!
# Exact coordinates

The place of an offset is a line and a column. Both are exact: the line is counted by the newlines
before the offset, the column by the bytes since the last of them, and nothing else has the same
coordinates. The place is also what a program finds that goes over the characters with their offsets
up to the one it is asked for, keeps where the last line began, and cuts the text there; no cut it
makes fails, not even if the offset lies inside a character.
-/

namespace Apex

/-! ## Pieces -/

theorem newlinePieces_eq_splitOn (cs : List Char) : newlinePieces cs = cs.splitOn '\n' := by
  induction cs with
  | nil => rfl
  | cons c cs ih =>
    show _ = (c :: cs).splitOnP (· == '\n')
    rw [List.splitOnP_cons_eq_if_modifyHead]
    by_cases ends : c = '\n'
    · subst ends
      rw [newlinePieces_newline, ih]
      rfl
    · rw [newlinePieces_cons ends, ih, if_neg (by simpa using ends)]
      rfl

/-- Bytes of lines, each with the newline that ends it. -/
def linesSize (lines : List (List Char)) : Nat := (lines.map (byteSize · + 1)).sum

@[simp] theorem linesSize_nil : linesSize [] = 0 := rfl

@[simp] theorem linesSize_cons (line : List Char) (lines : List (List Char)) :
    linesSize (line :: lines) = byteSize line + 1 + linesSize lines := by
  simp [linesSize]

theorem linesSize_newlinePieces (cs : List Char) :
    linesSize (newlinePieces cs) = byteSize cs + 1 := by
  induction cs with
  | nil => rfl
  | cons c cs ih =>
    by_cases ends : c = '\n'
    · subst ends
      rw [newlinePieces_newline, linesSize_cons, ih, byteSize_cons, byteSize_nil]
      show 0 + 1 + (byteSize cs + 1) = 1 + byteSize cs + 1
      omega
    · obtain ⟨piece, later, pieces⟩ := List.exists_cons_of_ne_nil (newlinePieces_ne_nil cs)
      rw [pieces, linesSize_cons] at ih
      rw [newlinePieces_cons ends, pieces, List.modifyHead_cons, linesSize_cons, byteSize_cons,
        byteSize_cons]
      omega

theorem length_newlinePieces (cs : List Char) : (newlinePieces cs).length = cs.count '\n' + 1 := by
  induction cs with
  | nil => rfl
  | cons c cs ih =>
    by_cases ends : c = '\n'
    · subst ends
      rw [newlinePieces_newline, List.length_cons, ih, List.count_cons_self]
    · rw [newlinePieces_cons ends, List.length_modifyHead, ih, List.count_cons_of_ne ends]

/-! ## The line of an offset -/

/-- The offset `n` of a text lies on the line `line`, or at its end. The lines before it, with their
newlines, are `before`; the newline that ends it, if there is one, starts `after`. -/
structure OnLine (cs : List Char) (n : Nat) (before line after : List Char) : Prop where
  whole : cs = before ++ (line ++ after)
  begins : before = [] ∨ ∃ front, before = front ++ ['\n']
  oneLine : '\n' ∉ line
  ends : after = [] ∨ ∃ back, after = '\n' :: back
  start_le : byteSize before ≤ n
  le_stop : n ≤ byteSize before + byteSize line

/-- A text is one line, or a line, a newline and a text. -/
theorem firstLine (cs : List Char) :
    ∃ line after, cs = line ++ after ∧ '\n' ∉ line ∧
      (after = [] ∨ ∃ back, after = '\n' :: back) := by
  induction cs with
  | nil => exact ⟨[], [], rfl, List.not_mem_nil, .inl rfl⟩
  | cons c cs ih =>
    by_cases ends : c = '\n'
    · exact ⟨[], c :: cs, rfl, List.not_mem_nil, .inr ⟨cs, ends ▸ rfl⟩⟩
    · obtain ⟨line, after, rfl, oneLine, stops⟩ := ih
      refine ⟨c :: line, after, rfl, ?_, stops⟩
      rw [List.mem_cons, not_or]
      exact ⟨Ne.symm ends, oneLine⟩

/-- Every offset lies on a line. -/
theorem exists_onLine (cs : List Char) (n : Nat) (inside : n ≤ byteSize cs) :
    ∃ before line after, OnLine cs n before line after := by
  induction hlen : cs.length using Nat.strong_induction_on generalizing cs n with
  | _ len ih =>
    subst hlen
    obtain ⟨line, after, rfl, oneLine, stops⟩ := firstLine cs
    by_cases onFirst : n ≤ byteSize line
    · exact ⟨[], line, after, rfl, .inl rfl, oneLine, stops, Nat.zero_le n, by simpa using onFirst⟩
    rcases stops with rfl | ⟨back, rfl⟩
    · rw [List.append_nil] at inside
      omega
    have newline : byteSize (line ++ ['\n']) = byteSize line + 1 := by
      rw [byteSize_append, byteSize_cons, byteSize_nil]
      rfl
    have split : line ++ '\n' :: back = (line ++ ['\n']) ++ back := by simp
    have size : byteSize (line ++ '\n' :: back) = byteSize line + 1 + byteSize back := by
      rw [split, byteSize_append, newline]
    have shorter : back.length < (line ++ '\n' :: back).length := by
      rw [List.length_append, List.length_cons]
      omega
    obtain ⟨before, here, after, found⟩ :=
      ih _ shorter back (n - (byteSize line + 1)) (by omega) rfl
    have start := found.start_le
    have stop := found.le_stop
    refine ⟨(line ++ ['\n']) ++ before, here, after, ?_, ?_, found.oneLine, found.ends, ?_, ?_⟩
    · rw [split, List.append_assoc _ before]
      exact congrArg _ found.whole
    · rcases found.begins with rfl | ⟨front, rfl⟩
      · exact .inr ⟨line, List.append_nil _⟩
      · exact .inr ⟨line ++ ['\n'] ++ front, (List.append_assoc _ _ _).symm⟩
    · rw [byteSize_append, newline]
      omega
    · rw [byteSize_append, newline]
      omega

namespace OnLine

variable {cs before line after : List Char} {n : Nat}

/-- The line is the piece behind as many pieces as there are newlines before it. -/
theorem newlinePieces_eq (h : OnLine cs n before line after) :
    ∃ earlier later, newlinePieces cs = earlier ++ line :: later ∧
      earlier.length = before.count '\n' ∧ linesSize earlier = byteSize before := by
  have here : ∃ later, newlinePieces (line ++ after) = line :: later := by
    rcases h.ends with rfl | ⟨back, rfl⟩
    · exact ⟨[], by rw [List.append_nil, newlinePieces_line h.oneLine]⟩
    · exact ⟨_, by rw [newlinePieces_append, newlinePieces_line h.oneLine]; rfl⟩
  obtain ⟨later, here⟩ := here
  rcases h.begins with rfl | ⟨front, rfl⟩
  · exact ⟨[], later, by rw [h.whole, List.nil_append, here]; rfl, rfl, rfl⟩
  · refine ⟨newlinePieces front, later, ?_, ?_, ?_⟩
    · rw [h.whole, List.append_assoc, List.singleton_append, newlinePieces_append, here]
    · rw [length_newlinePieces, List.count_append]
      rfl
    · rw [linesSize_newlinePieces, byteSize_append, byteSize_cons, byteSize_nil]
      rfl

end OnLine

theorem placeIn_append {earlier later : List (List Char)} {line : List Char} {column : Nat}
    (first : Nat) (inside : column ≤ byteSize line) :
    placeIn first (earlier ++ line :: later) (linesSize earlier + column) =
      ⟨first + earlier.length, column + 1, line⟩ := by
  induction earlier generalizing first with
  | nil =>
    rw [List.nil_append, linesSize_nil, Nat.zero_add]
    cases later with
    | nil => rfl
    | cons next later => exact if_pos inside
  | cons piece earlier ih =>
    obtain ⟨next, rest, pieces⟩ : ∃ next rest, earlier ++ line :: later = next :: rest :=
      List.exists_cons_of_ne_nil (by simp)
    have beyond : ¬linesSize (piece :: earlier) + column ≤ byteSize piece := by
      rw [linesSize_cons]
      omega
    have offset : linesSize (piece :: earlier) + column - byteSize piece - 1 =
        linesSize earlier + column := by
      rw [linesSize_cons]
      omega
    rw [List.cons_append, pieces, placeIn, if_neg beyond, ← pieces, offset, ih, List.length_cons]
    exact congrArg (Place.mk · _ _) (by omega)

theorem OnLine.placeOf_eq {source : String} {offset : Nat} {before line after : List Char}
    (h : OnLine source.toList (min offset source.utf8ByteSize) before line after) :
    placeOf source offset =
      ⟨before.count '\n' + 1, min offset source.utf8ByteSize - byteSize before + 1, line⟩ := by
  obtain ⟨earlier, later, pieces, count, size⟩ := h.newlinePieces_eq
  have start := h.start_le
  have stop := h.le_stop
  have inside : min offset source.utf8ByteSize - byteSize before ≤ byteSize line := by
    omega
  have place : placeIn 1 (earlier ++ line :: later)
      (linesSize earlier + (min offset source.utf8ByteSize - byteSize before)) =
      ⟨1 + earlier.length, min offset source.utf8ByteSize - byteSize before + 1, line⟩ :=
    placeIn_append 1 inside
  have offset_eq : linesSize earlier + (min offset source.utf8ByteSize - byteSize before) =
      min offset source.utf8ByteSize := by
    omega
  rw [offset_eq, count, Nat.add_comm 1] at place
  unfold placeOf
  rw [pieces, place]

/-! ## Characters with their offsets -/

/-- The characters of a text with the bytes they start at, from byte `start` on. -/
def charOffsets (start : Nat) : List Char → List (Nat × Char)
  | [] => []
  | c :: cs => (start, c) :: charOffsets (start + c.utf8Size) cs

theorem charOffsets_append (start : Nat) (cs ds : List Char) :
    charOffsets start (cs ++ ds) =
      charOffsets start cs ++ charOffsets (start + byteSize cs) ds := by
  induction cs generalizing start with
  | nil => rfl
  | cons c cs ih =>
    rw [List.cons_append, charOffsets, ih, charOffsets, byteSize_cons, Nat.add_assoc,
      List.cons_append]

/-- A character of a text starts before the text ends. -/
theorem mem_charOffsets {start : Nat} {cs : List Char} {i : Nat} {c : Char}
    (mem : (i, c) ∈ charOffsets start cs) : c ∈ cs ∧ start ≤ i ∧ i < start + byteSize cs := by
  induction cs generalizing start with
  | nil => cases mem
  | cons d ds ih =>
    have size := d.utf8Size_pos
    rw [byteSize_cons]
    rcases List.mem_cons.mp mem with same | later
    · cases same
      exact ⟨List.mem_cons_self, Nat.le_refl _, by omega⟩
    · obtain ⟨inside, from_, to_⟩ := ih later
      exact ⟨List.mem_cons_of_mem d inside, by omega, by omega⟩

/-- The number of newlines that start before byte `n`. -/
def newlinesBefore (cs : List Char) (n : Nat) : Nat :=
  (charOffsets 0 cs).countP fun (i, c) => i < n && c == '\n'

/-- The number and the first byte of the line that is current behind a character. -/
def passChar (state : Nat × Nat) (passed : Nat × Char) : Nat × Nat :=
  if passed.2 = '\n' then (state.1 + 1, passed.1 + 1) else state

/-- The place of a byte offset, found by going over the characters before it and by cutting. There
is none if a cut fails or if the offset lies before the line it is found on. -/
def placeByCutting? (source : String) (offset : Nat) : Option Place :=
  let offset := min offset source.utf8ByteSize
  let (line, start) :=
    ((charOffsets 0 source.toList).takeWhile fun (i, _) => i < offset).foldl passChar (1, 0)
  (Span.slice? ⟨start, source.utf8ByteSize⟩ source).bind fun rest =>
    let stop :=
      match (charOffsets 0 rest.toList).find? fun (_, c) => c = '\n' with
      | some (i, _) => start + i
      | none => source.utf8ByteSize
    (Span.slice? ⟨start, stop⟩ source).bind fun text =>
      if start ≤ offset then some ⟨line, offset - start + 1, text.toList⟩ else none

namespace OnLine

variable {cs before line after : List Char} {n : Nat}

/-- Every newline before the offset stands before the line. -/
theorem not_newline (h : OnLine cs n before line after) {i : Nat} {c : Char}
    (mem : (i, c) ∈ charOffsets (byteSize before) (line ++ after)) (early : i < n) : c ≠ '\n' := by
  have stop := h.le_stop
  rw [charOffsets_append] at mem
  rcases List.mem_append.mp mem with onLine | behind
  · intro newline
    exact h.oneLine (newline ▸ (mem_charOffsets onLine).1)
  · have := (mem_charOffsets behind).2.1
    omega

theorem charOffsets_eq (h : OnLine cs n before line after) :
    charOffsets 0 cs = charOffsets 0 before ++ charOffsets (byteSize before) (line ++ after) := by
  rw [h.whole, charOffsets_append, Nat.zero_add]

theorem early_of_mem (h : OnLine cs n before line after) {i : Nat} {c : Char}
    (mem : (i, c) ∈ charOffsets 0 before) : i < n := by
  have start := h.start_le
  have := (mem_charOffsets mem).2.2
  omega

theorem newlinesBefore_eq (h : OnLine cs n before line after) :
    newlinesBefore cs n = before.count '\n' := by
  have none_behind : (charOffsets (byteSize before) (line ++ after)).countP
      (fun (i, c) => i < n && c == '\n') = 0 := by
    refine List.countP_eq_zero.mpr fun (i, c) mem counted => ?_
    simp only [Bool.and_eq_true, decide_eq_true_eq, beq_iff_eq] at counted
    exact h.not_newline mem counted.1 counted.2
  have all_before : (charOffsets 0 before).countP (fun (i, c) => i < n && c == '\n') =
      (charOffsets 0 before).countP fun (_, c) => c == '\n' := by
    refine List.countP_congr fun (i, c) mem => ?_
    simp [h.early_of_mem mem]
  have count (start : Nat) (ds : List Char) :
      (charOffsets start ds).countP (fun (_, c) => c == '\n') = ds.count '\n' := by
    induction ds generalizing start with
    | nil => rfl
    | cons d ds ih => rw [charOffsets, List.countP_cons, List.count_cons, ih]
  unfold newlinesBefore
  rw [h.charOffsets_eq, List.countP_append, none_behind, all_before, count, Nat.add_zero]

end OnLine

/-! ## Going over the characters -/

theorem passChar_newline (state : Nat × Nat) (i : Nat) :
    passChar state (i, '\n') = (state.1 + 1, i + 1) := if_pos rfl

theorem passChar_of_ne {p : Nat × Char} (other : p.2 ≠ '\n') (state : Nat × Nat) :
    passChar state p = state := if_neg other

theorem foldl_passChar_of_not_newline {passed : List (Nat × Char)}
    (others : ∀ p ∈ passed, p.2 ≠ '\n') (state : Nat × Nat) :
    passed.foldl passChar state = state := by
  induction passed with
  | nil => rfl
  | cons p passed ih =>
    rw [List.foldl_cons, passChar_of_ne (others p List.mem_cons_self),
      ih fun q mem => others q (List.mem_cons_of_mem p mem)]

/-- The line number counts the newlines that were passed. -/
theorem foldl_passChar_line (start : Nat) (cs : List Char) (state : Nat × Nat) :
    ((charOffsets start cs).foldl passChar state).1 = state.1 + cs.count '\n' := by
  induction cs generalizing start state with
  | nil => rfl
  | cons c cs ih =>
    rw [charOffsets, List.foldl_cons, ih]
    by_cases newline : c = '\n'
    · subst newline
      rw [passChar_newline, List.count_cons_self]
      omega
    · rw [passChar_of_ne newline, List.count_cons_of_ne newline]

namespace OnLine

variable {cs before line after : List Char} {n : Nat}

/-- The characters before the offset lead to the line. -/
theorem foldl_passChar (h : OnLine cs n before line after) :
    ((charOffsets 0 cs).takeWhile fun (i, _) => i < n).foldl passChar (1, 0) =
      (before.count '\n' + 1, byteSize before) := by
  have early : ∀ p ∈ charOffsets 0 before, (decide (p.1 < n)) = true :=
    fun p mem => decide_eq_true (h.early_of_mem mem)
  have rest (state : Nat × Nat) :
      ((charOffsets (byteSize before) (line ++ after)).takeWhile fun (i, _) => i < n).foldl
        passChar state = state := by
    refine foldl_passChar_of_not_newline (fun p mem => ?_) state
    have passed := List.mem_takeWhile_imp mem
    exact h.not_newline ((List.takeWhile_prefix _).subset mem) (of_decide_eq_true passed)
  rw [h.charOffsets_eq, List.takeWhile_append_of_pos early, List.foldl_append, rest]
  rcases h.begins with rfl | ⟨front, rfl⟩
  · rfl
  · rw [charOffsets_append, List.foldl_append, Nat.zero_add]
    show passChar ((charOffsets 0 front).foldl passChar (1, 0)) (byteSize front, '\n') = _
    rw [passChar_newline, foldl_passChar_line, List.count_append, byteSize_append, byteSize_cons,
      byteSize_nil, Nat.add_comm 1]
    rfl

/-- The first newline from the line on is the one that ends it. -/
theorem find?_newline (h : OnLine cs n before line after) :
    ((charOffsets 0 (line ++ after)).find? fun (_, c) => c = '\n') =
      after.head?.map (byteSize line, ·) := by
  have onLine : (charOffsets 0 line).find? (fun (_, c) => c = '\n') = none := by
    refine List.find?_eq_none.mpr fun (i, c) mem newline => ?_
    exact h.oneLine (of_decide_eq_true newline ▸ (mem_charOffsets mem).1)
  rw [charOffsets_append, List.find?_append, onLine, Option.none_or, Nat.zero_add]
  rcases h.ends with rfl | ⟨back, rfl⟩ <;> rfl

end OnLine

/-- No cut fails, and what is found is the place. -/
theorem OnLine.placeByCutting?_eq {source : String} {offset : Nat} {before line after : List Char}
    (h : OnLine source.toList (min offset source.utf8ByteSize) before line after) :
    placeByCutting? source offset = some (placeOf source offset) := by
  have size : source.utf8ByteSize = byteSize before + byteSize (line ++ after) := by
    rw [← byteSize_toList, ← byteSize_append, ← h.whole]
  have toEnd : source.toList = before ++ (line ++ after) ++ [] := by
    rw [List.append_nil]
    exact h.whole
  have toBreak : source.toList = before ++ line ++ after := by
    rw [List.append_assoc]
    exact h.whole
  have rest := Span.slice?_of_append before (line ++ after) [] toEnd
  have text := Span.slice?_of_append before line after toBreak
  rw [← size] at rest
  have stop : (match (charOffsets 0 (String.ofList (line ++ after)).toList).find?
        fun (_, c) => c = '\n' with
      | some (i, _) => byteSize before + i
      | none => source.utf8ByteSize) = byteSize before + byteSize line := by
    rw [String.toList_ofList, h.find?_newline]
    rcases h.ends with rfl | ⟨back, rfl⟩
    · exact size.trans (by rw [List.append_nil])
    · rfl
  unfold placeByCutting?
  simp only [h.foldl_passChar, rest, Option.bind_some]
  rw [stop, text, Option.bind_some, if_pos h.start_le, h.placeOf_eq, String.toList_ofList]

/-! ## Coordinates -/

/-- The place has the exact coordinates of byte `n` of a text. -/
structure Place.IsExact (cs : List Char) (n : Nat) (place : Place) : Prop where
  /-- Lines count from one. -/
  one_le_line : 1 ≤ place.line
  /-- The text is the line with that number. -/
  text : (cs.splitOn '\n')[place.line - 1]? = some place.text
  /-- The line number counts the newlines before the byte. -/
  newlines : place.line - 1 = newlinesBefore cs n
  /-- The lines before and the bytes before in the line are all there is before the byte. -/
  bytes : (((cs.splitOn '\n').take (place.line - 1)).map (byteSize · + 1)).sum +
    (place.column - 1) = n
  /-- Columns count from one. -/
  one_le_column : 1 ≤ place.column
  /-- The column is on the line or just behind its last byte. -/
  column_le : place.column ≤ byteSize place.text + 1

theorem OnLine.isExact {cs before line after : List Char} {n : Nat}
    (h : OnLine cs n before line after) :
    Place.IsExact cs n ⟨before.count '\n' + 1, n - byteSize before + 1, line⟩ := by
  obtain ⟨earlier, later, pieces, count, size⟩ := h.newlinePieces_eq
  have start := h.start_le
  have stop := h.le_stop
  rw [newlinePieces_eq_splitOn] at pieces
  constructor
  · exact Nat.le_add_left 1 _
  · show (cs.splitOn '\n')[before.count '\n' + 1 - 1]? = some line
    rw [Nat.add_sub_cancel, pieces, List.getElem?_append_right (by omega), count, Nat.sub_self]
    rfl
  · show before.count '\n' + 1 - 1 = _
    rw [Nat.add_sub_cancel, h.newlinesBefore_eq]
  · show linesSize ((cs.splitOn '\n').take (before.count '\n' + 1 - 1)) +
      (n - byteSize before + 1 - 1) = n
    rw [Nat.add_sub_cancel, Nat.add_sub_cancel, pieces, List.take_left' count, size]
    omega
  · exact Nat.le_add_left 1 _
  · show n - byteSize before + 1 ≤ byteSize line + 1
    omega

/-- Two bytes with the same coordinates are the same. -/
theorem Place.IsExact.eq_of_coordinates {cs : List Char} {m n : Nat} {p q : Place}
    (hp : p.IsExact cs m) (hq : q.IsExact cs n) (line : p.line = q.line)
    (column : p.column = q.column) : m = n := by
  rw [← hp.bytes, ← hq.bytes, line, column]

/-- The place of an offset is exact, it is found by cutting without a cut that fails, and no two
offsets of a text have the same. -/
theorem placeOf_isExact (source : String) :
    (∀ offset, (placeOf source offset).IsExact source.toList (min offset source.utf8ByteSize)) ∧
      (∀ offset, placeByCutting? source offset = some (placeOf source offset)) ∧
      Set.InjOn (fun n => ((placeOf source n).line, (placeOf source n).column))
        (Set.Iic source.utf8ByteSize) := by
  have onLine (offset : Nat) : ∃ before line after,
      OnLine source.toList (min offset source.utf8ByteSize) before line after := by
    refine exists_onLine _ _ ?_
    rw [byteSize_toList]
    exact Nat.min_le_right _ _
  have places (offset : Nat) :
      (placeOf source offset).IsExact source.toList (min offset source.utf8ByteSize) := by
    obtain ⟨before, line, after, h⟩ := onLine offset
    rw [h.placeOf_eq]
    exact h.isExact
  refine ⟨places, fun offset => ?_, fun m hm n hn same => ?_⟩
  · obtain ⟨before, line, after, h⟩ := onLine offset
    exact h.placeByCutting?_eq
  · have first := places m
    have second := places n
    rw [Nat.min_eq_left (Set.mem_Iic.mp hm)] at first
    rw [Nat.min_eq_left (Set.mem_Iic.mp hn)] at second
    exact first.eq_of_coordinates second (congrArg Prod.fst same) (congrArg Prod.snd same)

end Apex
