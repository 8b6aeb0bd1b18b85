import Apex.Proofs.Tiling.Queries

/-!
# Counting characters

The lexer finds how far a piece of a text reaches by counting its characters. Counts add up, and what
is counted does not depend on what stands behind.
-/

namespace Apex

/-! ## Rows of characters -/

theorem take_takeWhile_length (p : Char → Bool) (cs : List Char) :
    cs.take (cs.takeWhile p).length = cs.takeWhile p :=
  (List.prefix_iff_eq_take.mp (List.takeWhile_prefix p)).symm

theorem drop_takeWhile_length (p : Char → Bool) (cs : List Char) :
    cs.drop (cs.takeWhile p).length = cs.dropWhile p := by
  induction cs with
  | nil => rfl
  | cons c cs ih =>
    by_cases holds : p c
    · simp [holds, ih]
    · simp [holds]

namespace Numeral

/-- The digits of a numeral and its point are the numeral without its letter. -/
theorem read_digits (text : List Char) :
    let n := read text
    read (text.take (n.whole.length + if n.fraction.isEmpty then 0 else n.fraction.length + 1)) =
      ⟨n.whole, n.fraction, .none⟩ := by
  unfold read
  dsimp only
  rw [← List.take_takeWhile, dropWhile_take]
  generalize text.takeWhile Char.isDigit = whole
  generalize text.dropWhile Char.isDigit = after
  rw [List.take_of_length_le (by omega), Nat.add_sub_cancel_left, fractionAhead_take]
  by_cases empty : fractionAhead after = []
  · simp [empty, markAhead]
  · have point : (fractionAhead after).isEmpty = false := by simpa using empty
    simp only [point, Bool.false_eq_true, if_false]
    rw [List.take_of_length_le (by omega)]
    simp only [point, Bool.false_eq_true, if_false, Bool.not_false]
    rw [List.drop_take, Nat.sub_self, List.take_zero]
    rfl

end Numeral

/-! ## Dotted names -/

/-- Steps of a dotted name are counted one by one. -/
theorem pathLength_add (n k : Nat) (cs : List Char) :
    pathLength (n + k) cs = pathLength n cs + k := by
  fun_induction pathLength n cs with
  | case1 n c cs start ih =>
    rw [pathLength.eq_1, if_pos start, ← ih, Nat.add_right_comm]
  | case2 n c cs other => rw [pathLength.eq_1, if_neg other]
  | case3 n c cs point part ih => rw [pathLength.eq_2 _ _ _ point, if_pos part, ← ih, Nat.add_right_comm]
  | case4 n c cs point other => rw [pathLength.eq_2 _ _ _ point, if_neg other]
  | case5 => rfl

theorem pathLength_cons {c : Char} (part : isWordPart c) (cs : List Char) :
    pathLength 0 (c :: cs) = 1 + pathLength 0 cs := by
  have point : ∀ d ds, c = '.' → cs = d :: ds → False := by
    rintro d ds rfl
    exact absurd part (by decide)
  rw [pathLength.eq_2 _ _ _ point, if_pos part, pathLength_add, Nat.add_comm]

theorem le_pathLength (n : Nat) (cs : List Char) : n ≤ pathLength n cs := by
  have shifted := pathLength_add 0 n cs
  rw [Nat.zero_add] at shifted
  omega

/-- A dotted name is told by its own characters. -/
theorem pathLength_take {n m : Nat} {cs : List Char} (long : pathLength n cs ≤ n + m) :
    pathLength n (cs.take m) = pathLength n cs := by
  fun_induction pathLength n cs generalizing m with
  | case1 n c cs start ih =>
    have further := le_pathLength (n + 2) cs
    obtain ⟨k, rfl⟩ : ∃ k, m = k + 2 := ⟨m - 2, by omega⟩
    rw [List.take_succ_cons, List.take_succ_cons, pathLength.eq_1, if_pos start, ih (by omega)]
  | case2 n c cs other =>
    rcases m with _ | _ | m
    · rfl
    · rfl
    · rw [List.take_succ_cons, List.take_succ_cons, pathLength.eq_1, if_neg other]
  | case3 n c cs point part ih =>
    have further := le_pathLength (n + 1) cs
    obtain ⟨k, rfl⟩ : ∃ k, m = k + 1 := ⟨m - 1, by omega⟩
    have noPoint : ∀ d ds, c = '.' → cs.take k = d :: ds → False := by
      rintro d ds rfl
      exact absurd part (by decide)
    rw [List.take_succ_cons, pathLength.eq_2 _ _ _ noPoint, if_pos part, ih (by omega)]
  | case4 n c cs point other =>
    cases m with
    | zero => rfl
    | succ k =>
      have noPoint : ∀ d ds, c = '.' → cs.take k = d :: ds → False := by
        intro d ds same taken
        cases cs with
        | nil => simp at taken
        | cons e es => exact point e es same rfl
      rw [List.take_succ_cons, pathLength.eq_2 _ _ _ noPoint, if_neg other]
  | case5 => rw [List.take_nil]; rfl

/-! ## The bodies of queries -/

section

variable (depth n : Nat) {c : Char} (cs : List Char)

theorem queryLength_plain (plain : c ≠ '\\') :
    queryLength depth n true (c :: cs) = queryLength depth (n + 1) (c != '\'') cs := by
  rw [queryLength.eq_def]
  simp [plain]

theorem queryLength_open :
    queryLength depth n false ('[' :: cs) = queryLength (depth + 1) (n + 1) false cs := by
  rw [queryLength.eq_def]
  rfl

theorem queryLength_end : queryLength 0 n false (']' :: cs) = (n, .closed) := by
  rw [queryLength.eq_def]
  rfl

theorem queryLength_close :
    queryLength (depth + 1) n false (']' :: cs) = queryLength depth (n + 1) false cs := by
  rw [queryLength.eq_def]
  rfl

theorem queryLength_outside (opening : c ≠ '[') (closing : c ≠ ']') :
    queryLength depth n false (c :: cs) = queryLength depth (n + 1) (c == '\'') cs := by
  rw [queryLength.eq_def]
  simp [opening, closing]

end

/-- Characters of a query's text are counted one by one. -/
theorem queryLength_add (depth n k : Nat) (inString : Bool) (cs : List Char) :
    queryLength depth (n + k) inString cs =
      ((queryLength depth n inString cs).1 + k, (queryLength depth n inString cs).2) := by
  fun_induction queryLength depth n inString cs with
  | case1 => rw [queryLength.eq_1]
  | case2 => simp [queryLength, Nat.add_right_comm]
  | case3 depth n c cs ih => rw [← ih, Nat.add_right_comm]; rfl
  | case4 depth n c cs plain ih => rw [queryLength_plain _ _ _ plain, ← ih, Nat.add_right_comm]
  | case5 depth n inString cs outside ih =>
    rw [Bool.not_eq_true] at outside
    rw [outside, queryLength_open, ← ih, Nat.add_right_comm]
  | case6 n inString cs outside =>
    rw [Bool.not_eq_true] at outside
    rw [outside, queryLength_end]
  | case7 n inString cs outside depth _ ih =>
    rw [Bool.not_eq_true] at outside
    rw [outside, queryLength_close, ← ih, Nat.add_right_comm]
  | case8 depth n inString c cs outside opening closing ih =>
    rw [Bool.not_eq_true] at outside
    rw [outside, queryLength_outside _ _ _ opening closing, ← ih, Nat.add_right_comm]

section

variable (found : List (Spanned String)) (offset : Nat) {c : Char} (cs : List Char)

theorem bindsIn_plain (plain : c ≠ '\\') :
    bindsIn found offset true (c :: cs) = bindsIn found (offset + c.utf8Size) (c != '\'') cs := by
  rw [bindsIn.eq_def]
  simp [plain]

theorem bindsIn_outside (free : ¬(c = ':' ∧ (cs.head?.map isWordStart).getD false = true)) :
    bindsIn found offset false (c :: cs) = bindsIn found (offset + c.utf8Size) (c == '\'') cs := by
  rw [bindsIn.eq_def]
  simp only [Bool.false_eq_true, if_false, if_neg free]

/-- A character that may be part of a dotted name. -/
def IsPathPart (c : Char) : Prop := isWordPart c ∨ c = '.'

theorem IsPath.isPathPart {path : List Char} (isPath : IsPath path) : ∀ c ∈ path, IsPathPart c := by
  have word {c : Char} {cs : List Char} (start : isWordStart c) (parts : ∀ d ∈ cs, isWordPart d) :
      ∀ d ∈ c :: cs, IsPathPart d :=
    List.forall_mem_cons.mpr
      ⟨.inl (isWordPart_of_isWordStart start), fun d mem => .inl (parts d mem)⟩
  induction isPath with
  | name start parts => exact word start parts
  | dotted start parts path ih =>
    exact List.forall_mem_append.mpr
      ⟨word start parts, List.forall_mem_cons.mpr ⟨.inr rfl, ih⟩⟩

theorem IsPathPart.ne {c d : Char} (part : IsPathPart c) (word : isWordPart d = false)
    (point : d ≠ '.') : c ≠ d := by
  rintro rfl
  rcases part with part | part
  · rw [word] at part
    cases part
  · exact point part

/-- A dotted name means nothing to a query. -/
theorem queryLength_path (depth n : Nat) {path : List Char} (parts : ∀ c ∈ path, IsPathPart c)
    (cs : List Char) : queryLength depth n false (path ++ cs) =
      queryLength depth (n + path.length) false cs := by
  induction path generalizing n with
  | nil => rfl
  | cons c path ih =>
    obtain ⟨part, parts⟩ := List.forall_mem_cons.mp parts
    have unquoted : (c == '\'') = false := beq_false_of_ne (part.ne (by decide) (by decide))
    rw [List.cons_append, queryLength_outside _ _ _ (part.ne (by decide) (by decide))
      (part.ne (by decide) (by decide)), unquoted, ih _ parts, List.length_cons, Nat.add_assoc,
      Nat.add_comm 1]

theorem bindsIn_path {path : List Char} (parts : ∀ c ∈ path, IsPathPart c) :
    bindsIn found offset false (path ++ cs) = bindsIn found (offset + byteSize path) false cs := by
  induction path generalizing offset with
  | nil => rfl
  | cons c path ih =>
    obtain ⟨part, parts⟩ := List.forall_mem_cons.mp parts
    have unquoted : (c == '\'') = false := beq_false_of_ne (part.ne (by decide) (by decide))
    have free : c ≠ ':' := part.ne (by decide) (by decide)
    rw [List.cons_append, bindsIn_outside _ _ _ (fun bind => free bind.1), unquoted, ih _ parts,
      byteSize_cons, Nat.add_assoc]

/-- A bound variable is found and passed over, however much of the text stands behind it. -/
theorem bindsIn_bind {path behind : List Char} (isPath : IsPath path)
    (length : pathLength 0 (path ++ behind) = path.length) (n : Nat) :
    bindsIn found offset false (':' :: path ++ behind.take n) =
      bindsIn (⟨String.ofList (':' :: path), ⟨offset, offset + byteSize (':' :: path)⟩⟩ :: found)
        (offset + byteSize (':' :: path)) false (behind.take n) := by
  have start := (startsWord_iff _).mp (isPath.startsWord (behind.take n))
  have stays : pathLength 0 (path ++ behind.take n) = path.length := by
    rw [← List.take_length_add_append, pathLength_take (by rw [length]; omega), length]
  have one : ':'.utf8Size = 1 := rfl
  rw [List.cons_append, bindsIn.eq_def]
  simp only [Bool.false_eq_true, if_false, start, and_self, if_true, stays, List.take_left,
    bindsIn_path _ _ _ isPath.isPathPart, byteSize_cons, one, Nat.add_assoc]

end

end Apex
