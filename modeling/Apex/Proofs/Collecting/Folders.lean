import Apex.Proofs.Collecting.Sources

/-!
# Directories as trees

A directory whose entries have distinct proper names makes a tree of files: its paths are followed
piece by piece, and pieces that are empty or a dot lead nowhere else.
-/

namespace Apex

/-! ## Pieces of paths -/

/-- Names that an entry of a directory can have. -/
def IsEntryName (name : List UInt8) : Prop :=
  name ≠ [] ∧ name ≠ [dot] ∧ name ≠ [dot, dot] ∧ slash ∉ name

instance (name : List UInt8) : Decidable (IsEntryName name) :=
  inferInstanceAs (Decidable (_ ∧ _))

/-- Whether a piece of a path stays in the directory. -/
def staysHere (piece : List UInt8) : Bool := piece = [] || piece = [dot]

/-- How a component is written. -/
def Component.piece : Component → List UInt8
  | .root => [slash]
  | .here => [dot]
  | .parent => [dot, dot]
  | .name bytes => bytes

theorem pieceComponent?_of_stays {piece : List UInt8} (stays : staysHere piece = true) :
    pieceComponent? piece = none := if_pos stays

theorem pieceComponent?_of_leads {piece : List UInt8} (leads : staysHere piece = false) :
    ∃ c, pieceComponent? piece = some c ∧ c.piece = piece ∧ c ≠ .here ∧ c ≠ .root := by
  rw [pieceComponent?, ← staysHere, leads, if_neg (by decide)]
  split
  · next parent => exact ⟨.parent, rfl, parent.symm, nofun, nofun⟩
  · exact ⟨.name piece, rfl, rfl, nofun, nofun⟩

/-- The pieces that lead anywhere, told from the components. -/
theorem filter_eq_map_piece (pieces : List (List UInt8)) :
    pieces.filter (!staysHere ·) = (pieces.filterMap pieceComponent?).map Component.piece := by
  induction pieces with
  | nil => rfl
  | cons piece pieces ih =>
    cases stays : staysHere piece with
    | true =>
      rw [List.filterMap_cons_none (pieceComponent?_of_stays stays),
        List.filter_cons_of_neg (by rw [stays]; decide), ih]
    | false =>
      obtain ⟨c, found, written, -⟩ := pieceComponent?_of_leads stays
      rw [List.filterMap_cons_some found, List.filter_cons_of_pos (by rw [stays]; decide), ih,
        List.map_cons, written]

namespace Path

/-- What is no slash and no dot in front is told by the pieces that lead anywhere. -/
theorem filter_components (p : Path) :
    p.components.filter (fun c => c ≠ .here ∧ c ≠ .root) = p.pieces.filterMap pieceComponent? := by
  have front : p.front.filter (fun c => c ≠ .here ∧ c ≠ .root) = [] := by
    rw [Path.front]
    split
    · rfl
    · split <;> rfl
  rw [components, List.filter_append, front, List.nil_append, List.filter_eq_self]
  intro c mem
  obtain ⟨piece, -, found⟩ := List.mem_filterMap.mp mem
  cases stays : staysHere piece with
  | true =>
    rw [pieceComponent?_of_stays stays] at found
    cases found
  | false =>
    obtain ⟨c', found', -, other⟩ := pieceComponent?_of_leads stays
    obtain rfl := Option.some.inj (found'.symm.trans found)
    exact decide_eq_true other

/-- The same path has the same front and the same components behind it. -/
theorem isSame_iff_front {p q : Path} :
    p.isSame q = true ↔ p.front = q.front ∧
      p.pieces.filterMap pieceComponent? = q.pieces.filterMap pieceComponent? := by
  constructor
  · intro same
    have components_eq : p.components = q.components := beq_iff_eq.mp same
    have rest : p.pieces.filterMap pieceComponent? = q.pieces.filterMap pieceComponent? := by
      rw [← filter_components, ← filter_components, components_eq]
    refine ⟨?_, rest⟩
    rw [components, components, rest] at components_eq
    exact List.append_cancel_right components_eq
  · intro ⟨front, rest⟩
    exact beq_iff_eq.mpr (by rw [components, components, front, rest])

/-- The same path has the same pieces that lead anywhere. -/
theorem filter_pieces_of_isSame {p q : Path} (same : p.isSame q = true) :
    p.pieces.filter (!staysHere ·) = q.pieces.filter (!staysHere ·) := by
  rw [filter_eq_map_piece, filter_eq_map_piece, (isSame_iff_front.mp same).2]

theorem splitOn_append (front back : List UInt8) :
    (front ++ slash :: back).splitOn slash = front.splitOn slash ++ back.splitOn slash :=
  List.splitOnP_append_cons front back rfl

/-- The pieces of a path with an entry's name behind it. If the path ends in a slash, the name takes
the place of the empty piece behind it. -/
theorem pieces_join {p : Path} {name : RawText} (filled : p.raw.bytes ≠ [])
    (named : IsEntryName name.bytes) :
    (p.join name).pieces = p.pieces ++ [name.bytes] ∨
      ∃ pieces, p.pieces = pieces ++ [[]] ∧ (p.join name).pieces = pieces ++ [name.bytes] := by
  have one : name.bytes.splitOn slash = [name.bytes] := List.splitOn_eq_singleton named.2.2.2
  unfold join
  rw [List.isEmpty_eq_false_iff.mpr filled, Bool.false_or]
  split
  · next ends =>
    obtain ⟨front, text⟩ := List.getLast?_eq_some_iff.mp (of_decide_eq_true ends)
    refine .inr ⟨front.splitOn slash, ?_, ?_⟩
    · rw [pieces, text, splitOn_append]
      rfl
    · rw [pieces, text, List.append_assoc, List.singleton_append, splitOn_append, one]
  · refine .inl ?_
    rw [pieces, splitOn_append, one, pieces]

theorem head?_join {p : Path} {name : RawText} (filled : p.raw.bytes ≠ []) :
    (p.join name).raw.bytes.head? = p.raw.bytes.head? := by
  unfold join
  split <;> exact List.head?_append_of_ne_nil _ filled

theorem join_ne_empty {p : Path} {name : RawText} (filled : p.raw.bytes ≠ []) :
    (p.join name).raw.bytes ≠ [] := by
  intro none
  have first : (p.join name).raw.bytes.head? = _ := head?_join filled
  rw [none, eq_comm, List.head?_nil, List.head?_eq_none_iff] at first
  exact filled first

end Path

/-! ## Following paths -/

namespace Entry

/-- Directories have entries with distinct proper names. -/
inductive IsSound : Entry RawText → Prop where
  | file (content : FileContent) : IsSound (.file content)
  | directory {entries : List (RawText × Entry RawText)}
    (named : ∀ e ∈ entries, IsEntryName e.1.bytes)
    (distinct : (entries.map Prod.fst).Nodup) (inner : ∀ e ∈ entries, IsSound e.2) :
    IsSound (.directory entries)

/-- A directory is sound if the names in it are proper and distinct and its entries are sound. -/
theorem IsSound.of_names {entries : List (RawText × Entry RawText)} (names : List RawText)
    (same : entries.map Prod.fst = names) (named : ∀ name ∈ names, IsEntryName name.bytes)
    (distinct : names.Nodup) (inner : ∀ e ∈ entries, e.2.IsSound) :
    (Entry.directory entries).IsSound := by
  subst same
  exact .directory (fun e mem => named _ (List.mem_map_of_mem mem)) distinct inner

/-- Goes one piece further from an entry, with the directories around it. -/
def step? : List (Entry RawText) × Entry RawText → List UInt8 →
    Option (List (Entry RawText) × Entry RawText)
  | (_, .file _), _ => none
  | (above, .directory entries), piece =>
    if staysHere piece then some (above, .directory entries)
    else if piece = [dot, dot] then
      match above with
      | [] => some ([], .directory entries)
      | outer :: above => some (above, outer)
    else
      (entries.lookup ⟨piece⟩).map fun e => (.directory entries :: above, e)

variable {above : List (Entry RawText)} {entries : List (RawText × Entry RawText)}
  {piece : List UInt8}

theorem step?_of_stays (stays : staysHere piece = true) :
    step? (above, .directory entries) piece = some (above, .directory entries) := by
  rw [step?.eq_def]
  exact if_pos stays

theorem step?_of_name (leads : staysHere piece = false) (other : piece ≠ [dot, dot]) :
    step? (above, .directory entries) piece =
      (entries.lookup ⟨piece⟩).map fun e => (.directory entries :: above, e) := by
  rw [step?.eq_def]
  dsimp only
  rw [leads, if_neg (by decide), if_neg other]

/-- Paths are followed step by step. -/
theorem follow?_eq (above : List (Entry RawText)) (here : Entry RawText)
    (pieces : List (List UInt8)) :
    follow? above here pieces = (pieces.foldlM step? (above, here)).map Prod.snd := by
  induction above, here, pieces using follow?.induct with
  | case1 above here => rw [follow?]; rfl
  | case2 above piece pieces content => rw [follow?.eq_def]; rfl
  | case3 above piece pieces entries stays ih =>
    rw [follow?.eq_def, List.foldlM_cons, step?_of_stays stays]
    dsimp only
    rw [if_pos stays]
    exact ih
  | case4 pieces entries leads ih =>
    rw [follow?.eq_def, List.foldlM_cons]
    exact ih
  | case5 pieces entries outer above leads ih =>
    rw [follow?.eq_def, List.foldlM_cons]
    exact ih
  | case6 above piece pieces entries leads other e found ih =>
    rw [follow?.eq_def, List.foldlM_cons, step?_of_name (Bool.eq_false_iff.mpr leads) other, found]
    dsimp only
    rw [if_neg leads, if_neg other, found]
    exact ih
  | case7 above piece pieces entries leads other missing =>
    rw [follow?.eq_def, List.foldlM_cons, step?_of_name (Bool.eq_false_iff.mpr leads) other,
      missing]
    dsimp only
    rw [if_neg leads, if_neg other, missing]
    rfl

/-! ### What is reached -/

/-- An entry with the directories around it, all of them sound. -/
def AllIsSound (place : List (Entry RawText) × Entry RawText) : Prop :=
  ∀ e ∈ place.2 :: place.1, e.IsSound

theorem AllIsSound.step {place place' : List (Entry RawText) × Entry RawText}
    (sound : AllIsSound place) (reached : step? place piece = some place') : AllIsSound place' := by
  obtain ⟨above, here⟩ := place
  rw [step?.eq_def] at reached
  cases here with
  | file content => cases reached
  | directory entries =>
    dsimp only at reached
    split_ifs at reached
    · exact Option.some.inj reached ▸ sound
    · cases above with
      | nil => exact Option.some.inj reached ▸ sound
      | cons outer above =>
        rw [← Option.some.inj reached]
        exact (List.forall_mem_cons.mp sound).2
    · obtain ⟨e, found, rfl⟩ := Option.map_eq_some_iff.mp reached
      cases (List.forall_mem_cons.mp sound).1 with
      | directory named distinct inner =>
        have mem : (⟨piece⟩, e) ∈ entries := by
          obtain ⟨front, back, rfl, -⟩ := List.lookup_eq_some_iff.mp found
          exact List.mem_append_right _ (List.mem_cons_self ..)
        exact List.forall_mem_cons.mpr ⟨inner _ mem, sound⟩

theorem AllIsSound.steps {place place' : List (Entry RawText) × Entry RawText}
    (sound : AllIsSound place) {pieces : List (List UInt8)}
    (reached : pieces.foldlM step? place = some place') : AllIsSound place' := by
  induction pieces generalizing place with
  | nil => exact Option.some.inj reached ▸ sound
  | cons piece pieces ih =>
    rw [List.foldlM_cons] at reached
    obtain ⟨next, here, later⟩ := Option.bind_eq_some_iff.mp reached
    exact ih (sound.step here) later

/-- The pieces that stay in a directory can be left out. -/
theorem foldlM_step?_filter {place place' : List (Entry RawText) × Entry RawText}
    {pieces : List (List UInt8)} (reached : pieces.foldlM step? place = some place') :
    (pieces.filter (!staysHere ·)).foldlM step? place = some place' := by
  induction pieces generalizing place with
  | nil => exact reached
  | cons piece pieces ih =>
    rw [List.foldlM_cons] at reached
    obtain ⟨next, here, later⟩ := Option.bind_eq_some_iff.mp reached
    cases stays : staysHere piece with
    | true =>
      obtain ⟨above, here'⟩ := place
      have same : next = (above, here') := by
        cases here' with
        | file content => cases here
        | directory entries =>
          rw [step?_of_stays stays] at here
          exact (Option.some.inj here).symm
      rw [List.filter_cons_of_neg (by rw [stays]; decide), ← same]
      exact ih later
    | false =>
      rw [List.filter_cons_of_pos (by rw [stays]; decide), List.foldlM_cons, here]
      exact ih later

/-! ### Sound directories are trees -/

theorem lookup_eq_of_mem {entries : List (RawText × Entry RawText)} {name : RawText}
    {e : Entry RawText}
    (distinct : (entries.map Prod.fst).Nodup) (mem : (name, e) ∈ entries) :
    entries.lookup name = some e := by
  obtain ⟨front, back, rfl⟩ := List.append_of_mem mem
  refine List.lookup_eq_some_iff.mpr ⟨front, back, rfl, fun other found => bne_iff_ne.mpr ?_⟩
  rintro rfl
  rw [List.map_append, List.map_cons] at distinct
  refine List.disjoint_of_nodup_append distinct (List.mem_map_of_mem found) ?_
  exact List.mem_cons_self ..

theorem files_eq_some {root : Entry RawText} {p : Path} {e : Entry RawText}
    (stands : root.files p = some e) :
    p.raw.bytes ≠ [] ∧ p.raw.bytes.head? ≠ some slash ∧
      ∃ above, p.pieces.foldlM step? ([], root) = some (above, e) := by
  unfold files at stands
  split at stands
  · cases stands
  · next relative =>
    rw [Bool.or_eq_true, not_or, List.isEmpty_iff, decide_eq_true_iff] at relative
    rw [follow?_eq] at stands
    obtain ⟨⟨above, e'⟩, reached, rfl⟩ := Option.map_eq_some_iff.mp stands
    exact ⟨relative.1, relative.2, above, reached⟩

/-- An entry of the directory that a path leads to is reached by its name. -/
theorem foldlM_step?_join {start : List (Entry RawText) × Entry RawText} {e : Entry RawText}
    {p : Path} {name : RawText}
    (filled : p.raw.bytes ≠ []) (proper : IsEntryName name.bytes)
    (reached : p.pieces.foldlM step? start = some (above, .directory entries))
    (found : entries.lookup name = some e) :
    (p.join name).pieces.foldlM step? start = some (.directory entries :: above, e) := by
  have leads : staysHere name.bytes = false := by
    rw [staysHere, decide_eq_false proper.1, decide_eq_false proper.2.1]
    rfl
  have last : step? (above, .directory entries) name.bytes =
      some (.directory entries :: above, e) := by
    rw [step?_of_name leads proper.2.2.1, found]
    rfl
  rcases Path.pieces_join filled proper with pieces | ⟨front, pieces, pieces'⟩
  · rw [pieces, List.foldlM_append, reached]
    simpa using last
  · -- the empty piece behind the slash stays in the directory
    rw [pieces, List.foldlM_append] at reached
    obtain ⟨⟨above', here⟩, before, stayed⟩ := Option.bind_eq_some_iff.mp reached
    have same : (above', here) = (above, .directory entries) := by
      cases here with
      | file content => cases stayed
      | directory entries' => exact Option.some.inj stayed
    rw [pieces', List.foldlM_append, before, same]
    simpa using last

/-- Paths lead through a sound directory as through a tree. -/
theorem IsSound.isTree_files {root : Entry RawText} (sound : root.IsSound) : root.files.IsTree where
  entry := by
    intro p entries name e lists mem
    obtain ⟨filled, relative, above, reached⟩ := files_eq_some lists
    have here : (Entry.directory entries).IsSound := by
      have all : AllIsSound ([], root) := List.forall_mem_singleton.mpr sound
      exact all.steps reached _ (List.mem_cons_self ..)
    cases here with
    | directory named distinct inner =>
      have proper := named _ mem
      have joined := foldlM_step?_join filled proper reached (lookup_eq_of_mem distinct mem)
      have relative' : ¬((p.join name).raw.bytes.isEmpty ||
          decide ((p.join name).raw.bytes.head? = some slash)) = true := by
        rw [Path.head?_join filled, decide_eq_false relative, Bool.or_false, List.isEmpty_iff]
        exact Path.join_ne_empty filled
      rw [files, if_neg relative', follow?_eq, joined]
      rfl
  same := by
    intro p q c c' same stands stands'
    obtain ⟨-, -, above, reached⟩ := files_eq_some stands
    obtain ⟨-, -, above', reached'⟩ := files_eq_some stands'
    have first := foldlM_step?_filter reached
    have second := foldlM_step?_filter reached'
    rw [Path.filter_pieces_of_isSame same, second] at first
    exact (Entry.file.inj (Prod.mk.inj (Option.some.inj first)).2).symm

end Entry

end Apex
