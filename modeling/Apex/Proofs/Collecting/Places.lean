import Apex.Proofs.Collecting.Collections

/-!
# Where collected files lie

Two paths that are written differently may lead to the same file. What a collection leaves out is a
path that has already been collected, not a file: a file is collected twice if it is reached from a
directory that is written with a dot in front and from one that is not, from the root and from the
working directory, or by climbing out of a directory. Other ways to reach it twice there are none.
-/

namespace Apex

/-! ## Addresses -/

/-- The names from the root to a directory, after one more piece of a path. -/
def namesAfter (names : List RawText) (piece : List UInt8) : List RawText :=
  if staysHere piece then names
  else if piece = [dot, dot] then names.dropLast
  else names ++ [⟨piece⟩]

namespace Entry

/-- The names lead from the root through directories to an entry. The directories around it are
given innermost first. -/
inductive Leads (root : Entry RawText) :
    List RawText → List (Entry RawText) × Entry RawText → Prop where
  | root : Leads root [] ([], root)
  | entry {names : List RawText} {above : List (Entry RawText)}
    {entries : List (RawText × Entry RawText)} {name : RawText} {e : Entry RawText}
    (before : Leads root names (above, .directory entries))
    (found : entries.lookup name = some e) :
    Leads root (names ++ [name]) (.directory entries :: above, e)

variable {root : Entry RawText} {names : List RawText}
  {place place' : List (Entry RawText) × Entry RawText}

/-- The same names lead to the same place. -/
theorem Leads.unique (h : Leads root names place) (h' : Leads root names place') :
    place = place' := by
  induction h generalizing place' with
  | root =>
    generalize same : ([] : List RawText) = others at h'
    cases h' with
    | root => rfl
    | entry before found => simp at same
  | @entry names above entries name e before found ih =>
    generalize same : names ++ [name] = others at h'
    cases h' with
    | root => simp at same
    | entry before' found' =>
      obtain ⟨rfl, last⟩ := List.append_inj' same rfl
      obtain ⟨rfl, -⟩ := List.cons.inj last
      cases ih before'
      rw [found] at found'
      cases found'
      rfl

/-- A step along a path is a step along the names. -/
theorem Leads.step (h : Leads root names place) {piece : List UInt8}
    (reached : step? place piece = some place') : Leads root (namesAfter names piece) place' := by
  obtain ⟨above, here⟩ := place
  rw [step?.eq_def] at reached
  unfold namesAfter
  cases here with
  | file content => cases reached
  | directory entries =>
    dsimp only at reached
    split_ifs at reached ⊢
    · exact Option.some.inj reached ▸ h
    · cases h with
      | root => exact Option.some.inj reached ▸ .root
      | entry before found =>
        rw [List.dropLast_concat, ← Option.some.inj reached]
        exact before
    · obtain ⟨e, found, rfl⟩ := Option.map_eq_some_iff.mp reached
      exact h.entry found

theorem Leads.steps (h : Leads root names place) {pieces : List (List UInt8)}
    (reached : pieces.foldlM step? place = some place') :
    Leads root (pieces.foldl namesAfter names) place' := by
  induction pieces generalizing names place with
  | nil => exact Option.some.inj reached ▸ h
  | cons piece pieces ih =>
    rw [List.foldlM_cons] at reached
    obtain ⟨next, here, later⟩ := Option.bind_eq_some_iff.mp reached
    exact ih (h.step here) later

theorem Leads.allIsSound (h : Leads root names place) (sound : root.IsSound) :
    AllIsSound place := by
  induction h with
  | root => exact List.forall_mem_singleton.mpr sound
  | @entry names above entries name e before found ih =>
    cases ih _ (List.mem_cons_self ..) with
    | directory named distinct inner =>
      have mem : (name, e) ∈ entries := by
        obtain ⟨front, back, rfl, -⟩ := List.lookup_eq_some_iff.mp found
        exact List.mem_append_right _ (List.mem_cons_self ..)
      exact List.forall_mem_cons.mpr ⟨inner _ mem, ih⟩

end Entry

/-! ## Working directories -/

/-- A tree of files and the directory in it from which paths lead that do not begin at the root. -/
structure Workplace where
  /-- The whole tree. -/
  root : Entry RawText
  /-- Its directories have entries with distinct proper names. -/
  sound : root.IsSound
  /-- The names that lead to the working directory. -/
  names : List RawText
  /-- The working directory, with the directories around it. -/
  place : List (Entry RawText) × Entry RawText
  /-- The names lead there. -/
  leads : root.Leads names place

namespace Path

/-- Whether the path begins at the root. -/
def isAbsolute (p : Path) : Bool := p.raw.bytes.head? = some slash

/-- Whether the path climbs out of a directory. -/
def climbs (p : Path) : Bool := p.pieces.contains [dot, dot]

variable {p q : Path} {name : RawText}

theorem isAbsolute_eq (p : Path) : p.isAbsolute = (p.front == [.root]) := by
  unfold isAbsolute front
  by_cases slash : p.raw.bytes.head? = some slash
  · rw [if_pos slash, decide_eq_true slash]
    rfl
  · rw [if_neg slash, decide_eq_false slash]
    split <;> rfl

theorem isSame_of_pieces (front : p.front = q.front)
    (pieces : p.pieces.filter (!staysHere ·) = q.pieces.filter (!staysHere ·)) :
    p.isSame q = true := by
  have leads (pieces : List (List UInt8)) :
      (pieces.filter (!staysHere ·)).filterMap pieceComponent? =
        pieces.filterMap pieceComponent? := by
    rw [List.filterMap_filter]
    refine List.filterMap_congr fun piece _ => ?_
    cases stays : staysHere piece with
    | true => exact (pieceComponent?_of_stays stays).symm
    | false => rfl
  exact isSame_iff_front.mpr ⟨front, by rw [← leads p.pieces, pieces, leads]⟩

/-- What is found in a directory is written as the directory is. -/
theorem front_join (filled : p.raw.bytes ≠ []) (proper : IsEntryName name.bytes) :
    (p.join name).front = p.front := by
  have some : p.pieces ≠ [] := List.splitOnP_ne_nil _ _
  have first : (p.join name).pieces.head? = p.pieces.head? := by
    rcases pieces_join filled proper with pieces | ⟨front, pieces, pieces'⟩
    · rw [pieces, List.head?_append_of_ne_nil _ some]
    · cases front with
      | nil =>
        have empty : p.raw.bytes = [] := by
          have whole : [slash].intercalate (p.raw.bytes.splitOn slash) = p.raw.bytes :=
            List.intercalate_splitOn _
          rw [show p.raw.bytes.splitOn slash = [[]] from pieces] at whole
          exact whole.symm
        exact absurd empty filled
      | cons piece front => rw [pieces, pieces']; rfl
  unfold front
  rw [head?_join filled, first]

theorem climbs_join (filled : p.raw.bytes ≠ []) (proper : IsEntryName name.bytes) :
    (p.join name).climbs = p.climbs := by
  have other : [dot, dot] ≠ name.bytes := proper.2.2.1.symm
  unfold climbs
  rcases pieces_join filled proper with pieces | ⟨front, pieces, pieces'⟩
  · rw [pieces]
    simp [other]
  · rw [pieces, pieces']
    simp [other]

end Path

namespace Workplace

variable (w : Workplace)

/-- Where a path begins. -/
def start (p : Path) : List (Entry RawText) × Entry RawText :=
  if p.isAbsolute then ([], w.root) else w.place

/-- What each path stands for. -/
def files : Files := fun p =>
  if p.raw.bytes.isEmpty then none else (p.pieces.foldlM Entry.step? (w.start p)).map Prod.snd

/-- The names from the root to what a path stands for. Names and entries determine each other, so
two paths that stand for something stand for the same file if they have the same address. -/
def address (p : Path) : List RawText :=
  p.pieces.foldl namesAfter (if p.isAbsolute then [] else w.names)

variable {w} {p q : Path} {e : Entry RawText} {name : RawText}
  {entries : List (RawText × Entry RawText)}

theorem leads_start (p : Path) :
    w.root.Leads (if p.isAbsolute then [] else w.names) (w.start p) := by
  unfold start
  split
  · exact .root
  · exact w.leads

theorem files_eq_some (stands : w.files p = some e) :
    p.raw.bytes ≠ [] ∧ ∃ above, p.pieces.foldlM Entry.step? (w.start p) = some (above, e) := by
  unfold files at stands
  split at stands
  · cases stands
  · next filled =>
    obtain ⟨⟨above, e'⟩, reached, rfl⟩ := Option.map_eq_some_iff.mp stands
    exact ⟨fun empty => filled (List.isEmpty_iff.mpr empty), above, reached⟩

/-- The address of a path leads to what the path stands for. -/
theorem leads_address (stands : w.files p = some e) :
    ∃ above, w.root.Leads (w.address p) (above, e) := by
  obtain ⟨-, above, reached⟩ := files_eq_some stands
  exact ⟨above, (leads_start p).steps reached⟩

/-- In the root a path that does not begin there stands for what it stands for in the directory. -/
theorem files_eq_of_root (root : Entry RawText) (sound : root.IsSound)
    (relative : p.isAbsolute = false) :
    (⟨root, sound, [], _, .root⟩ : Workplace).files p = root.files p := by
  have beginning : (⟨root, sound, [], _, .root⟩ : Workplace).start p = ([], root) := by
    unfold start
    rw [relative]
    rfl
  have other : decide (p.raw.bytes.head? = some slash) = false := relative
  rw [files, beginning, Entry.files, other, Bool.or_false, Entry.follow?_eq]

/-! ### Entries of directories -/

/-- The entries of a directory that is reached have proper names and are found by them. -/
theorem sound_of_reached {above : List (Entry RawText)}
    (reached : p.pieces.foldlM Entry.step? (w.start p) = some (above, .directory entries))
    {e : Entry RawText} (mem : (name, e) ∈ entries) :
    IsEntryName name.bytes ∧ entries.lookup name = some e := by
  have all := ((leads_start p).allIsSound w.sound).steps reached
  cases all _ (List.mem_cons_self ..) with
  | directory named distinct inner =>
    exact ⟨named _ mem, Entry.lookup_eq_of_mem distinct mem⟩

theorem isAbsolute_join (filled : p.raw.bytes ≠ []) : (p.join name).isAbsolute = p.isAbsolute := by
  unfold Path.isAbsolute
  rw [Path.head?_join filled]

/-- Paths lead through the tree as through a tree. -/
theorem isTree_files (w : Workplace) : w.files.IsTree where
  entry := by
    intro p entries name e lists mem
    obtain ⟨filled, above, reached⟩ := files_eq_some lists
    obtain ⟨proper, found⟩ := sound_of_reached reached mem
    have start_eq : w.start (p.join name) = w.start p := by
      unfold start
      rw [isAbsolute_join filled]
    unfold files
    rw [if_neg fun empty => Path.join_ne_empty filled (List.isEmpty_iff.mp empty), start_eq,
      Entry.foldlM_step?_join filled proper reached found]
    rfl
  same := by
    intro p q c c' same stands stands'
    obtain ⟨-, above, reached⟩ := files_eq_some stands
    obtain ⟨-, above', reached'⟩ := files_eq_some stands'
    have start_eq : w.start p = w.start q := by
      unfold start
      rw [p.isAbsolute_eq, q.isAbsolute_eq, (Path.isSame_iff_front.mp same).1]
    have first := Entry.foldlM_step?_filter reached
    have second := Entry.foldlM_step?_filter reached'
    rw [Path.filter_pieces_of_isSame same, start_eq, second] at first
    exact (Entry.file.inj (Prod.mk.inj (Option.some.inj first)).2).symm

/-! ### Addresses of paths -/

/-- A path that does not climb has its names behind those of the directory it begins in. -/
theorem foldl_namesAfter {pieces : List (List UInt8)} (stays : [dot, dot] ∉ pieces)
    (names : List RawText) :
    pieces.foldl namesAfter names =
      names ++ (pieces.filter (!staysHere ·)).map RawText.mk := by
  induction pieces generalizing names with
  | nil => exact (List.append_nil names).symm
  | cons piece pieces ih =>
    rw [List.mem_cons, not_or] at stays
    rw [List.foldl_cons, ih stays.2]
    unfold namesAfter
    cases here : staysHere piece with
    | true => rw [if_pos rfl, List.filter_cons_of_neg (by rw [here]; decide)]
    | false =>
      rw [if_neg (by decide), if_neg (Ne.symm stays.1),
        List.filter_cons_of_pos (by rw [here]; decide), List.map_cons, List.append_assoc]
      rfl

theorem address_of_not_climbs (stays : p.climbs = false) :
    w.address p = (if p.isAbsolute then [] else w.names) ++
      (p.pieces.filter (!staysHere ·)).map RawText.mk :=
  foldl_namesAfter (by simpa [Path.climbs] using stays) _

/-- Two paths with the same front that do not climb have different addresses, unless they are the
same path. -/
theorem isSame_of_address (front : p.front = q.front) (hp : p.climbs = false)
    (hq : q.climbs = false) (same : w.address p = w.address q) : p.isSame q = true := by
  refine Path.isSame_of_pieces front ?_
  rw [address_of_not_climbs hp, address_of_not_climbs hq, p.isAbsolute_eq, q.isAbsolute_eq,
    front] at same
  exact List.map_injective_iff.mpr (fun _ _ => RawText.mk.inj)
    (List.append_cancel_left same)

/-- The same path has one address. -/
theorem address_eq_of_isSame (same : p.isSame q = true) : w.address p = w.address q := by
  have leads (pieces : List (List UInt8)) (names : List RawText) :
      pieces.foldl namesAfter names = (pieces.filter (!staysHere ·)).foldl namesAfter names := by
    induction pieces generalizing names with
    | nil => rfl
    | cons piece pieces ih =>
      cases here : staysHere piece with
      | true =>
        rw [List.filter_cons_of_neg (by rw [here]; decide), ← ih, List.foldl_cons, namesAfter,
          if_pos here]
      | false =>
        rw [List.filter_cons_of_pos (by rw [here]; decide), List.foldl_cons, List.foldl_cons, ih]
  unfold address
  rw [p.isAbsolute_eq, q.isAbsolute_eq, (Path.isSame_iff_front.mp same).1, leads p.pieces,
    leads q.pieces, Path.filter_pieces_of_isSame same]

/-! ## What is collected twice -/

variable {settings : ScanSettings} {listed : List Path}

/-- What is found below a directory is written as the directory is. -/
theorem written_of_below {Allowed : RawText → Prop} (below : Below w.files Allowed p q) :
    q.front = p.front ∧ q.climbs = p.climbs := by
  have joined {p : Path} {entries : List (RawText × Entry RawText)} {name : RawText}
      (lists : w.files p = some (.directory entries)) (named : name ∈ entries.map Prod.fst) :
      (p.join name).front = p.front ∧ (p.join name).climbs = p.climbs := by
    obtain ⟨filled, above, reached⟩ := files_eq_some lists
    obtain ⟨⟨name, e⟩, mem, rfl⟩ := List.mem_map.mp named
    have proper := (sound_of_reached reached mem).1
    exact ⟨Path.front_join filled proper, Path.climbs_join filled proper⟩
  induction below with
  | entry lists named => exact joined lists named
  | inner lists named searched below ih =>
    have here := joined lists named
    exact ⟨ih.1.trans here.1, ih.2.trans here.2⟩

end Workplace

/-- The path is this one, or leads below it. -/
def Stems (files : Files) (listed path : Path) : Prop :=
  path = listed ∨ Below files IsSearched listed path

/-- A file that is collected stems from a listed path and is written as this one is. -/
theorem exists_stems {w : Workplace} {settings : ScanSettings} {listed : List Path} {f : FoundFile}
    (mem : f ∈ collectSources w.files settings listed) :
    ∃ p ∈ listed, Stems w.files p f.path ∧
      f.path.front = p.front ∧ f.path.climbs = p.climbs := by
  have source := (isCollection_allSources w.isTree_files).sound f (collectSources_sublist.mem mem)
  rcases source.1.named with here | ⟨directory, here, below⟩
  · exact ⟨f.path, here, .inl rfl, rfl, rfl⟩
  · exact ⟨directory, here, .inr below, Workplace.written_of_below below⟩

/-- Two files that are collected lie at different addresses, unless they are written differently in
front or one of them by climbing. -/
theorem pairwise_written (w : Workplace) (settings : ScanSettings) (listed : List Path) :
    (collectSources w.files settings listed).Pairwise fun f g =>
      w.address f.path = w.address g.path →
        f.path.front ≠ g.path.front ∨ f.path.climbs = true ∨ g.path.climbs = true := by
  have ascending : Ascending (allSources w.files settings listed) :=
    (isCollection_allSources w.isTree_files).ascending
  refine (ascending.sublist collectSources_sublist).imp ?_
  intro f g before same
  by_contra alike
  simp only [not_or, not_not, Bool.not_eq_true] at alike
  obtain ⟨front, staysf, staysg⟩ := alike
  have isSame := Workplace.isSame_of_address front staysf staysg same
  have less := Path.isBefore_iff.mp before
  rw [Path.isSame_iff.mp isSame] at less
  exact lt_irrefl _ less

/-- Two files that are collected lie at different addresses, unless they stem from listed paths that
are written differently in front or one of which climbs. -/
theorem pairwise_address_collectSources (w : Workplace) (settings : ScanSettings)
    (listed : List Path) :
    (collectSources w.files settings listed).Pairwise fun f g =>
      w.address f.path = w.address g.path →
        ∃ p ∈ listed, ∃ q ∈ listed, Stems w.files p f.path ∧ Stems w.files q g.path ∧
          (p.front ≠ q.front ∨ p.climbs = true ∨ q.climbs = true) := by
  refine (pairwise_written w settings listed).imp_of_mem fun {f g} memf memg apart same => ?_
  obtain ⟨p, listedp, stemsp, frontp, climbsp⟩ := exists_stems memf
  obtain ⟨q, listedq, stemsq, frontq, climbsq⟩ := exists_stems memg
  have differ := apart same
  rw [frontp, frontq, climbsp, climbsq] at differ
  exact ⟨p, listedp, q, listedq, stemsp, stemsq, differ⟩

/-- No file is collected twice if the listed paths are written alike in front and none climbs. -/
theorem nodup_address_collectSources (w : Workplace) (settings : ScanSettings) {listed : List Path}
    (alike : ∀ p ∈ listed, ∀ q ∈ listed, p.front = q.front)
    (stays : ∀ p ∈ listed, p.climbs = false) :
    ((collectSources w.files settings listed).map fun f => w.address f.path).Nodup := by
  refine List.pairwise_map.mpr ((pairwise_written w settings listed).imp_of_mem ?_)
  intro f g memf memg apart same
  obtain ⟨p, listedp, -, frontp, climbsp⟩ := exists_stems memf
  obtain ⟨q, listedq, -, frontq, climbsq⟩ := exists_stems memg
  have differ := apart same
  rw [frontp, frontq, climbsp, climbsq, stays p listedp, stays q listedq] at differ
  simp [alike p listedp q listedq] at differ

/-- Two sources that are written differently but lie at the same address are both collected, if
there is no limit. -/
theorem not_nodup_address_of_isSource {w : Workplace} {settings : ScanSettings}
    {listed : List Path} (unlimited : settings.maxFiles = none) {p q : Path}
    (hp : IsSource w.files IsSearched settings listed p)
    (hq : IsSource w.files IsSearched settings listed q)
    (same : w.address p = w.address q) (other : p.isSame q = false) :
    ¬((collectSources w.files settings listed).map fun f => w.address f.path).Nodup := by
  have all : IsCollection w.files IsSearched IsSearched settings listed _ :=
    isCollection_allSources w.isTree_files
  rw [collectSources_eq, unlimited]
  intro distinct
  obtain ⟨f, memf, samef⟩ := all.complete p hp
  obtain ⟨g, memg, sameg⟩ := all.complete q hq
  have address : w.address f.path = w.address g.path := by
    rw [Workplace.address_eq_of_isSame samef, same, Workplace.address_eq_of_isSame sameg]
  obtain rfl := List.inj_on_of_nodup_map distinct memf memg address
  have : p.isSame q = true := by
    rw [Path.isSame_iff] at samef sameg ⊢
    exact samef.symm.trans sameg
  rw [other] at this
  cases this

/-- A directory with one source, which is the working directory. -/
def singleClass : Workplace where
  root := .directory [("a.cls", .file ⟨10, .ok "class A \x7b\x7d"⟩)]
  sound := .directory (by decide) (by decide) (List.forall_mem_singleton.mpr (.file _))
  names := []
  place := _
  leads := .root

/-- A class that is listed together with its directory is collected twice. -/
theorem not_nodup_address_collectSources :
    ¬∀ (w : Workplace) (settings : ScanSettings) (listed : List Path),
      ((collectSources w.files settings listed).map fun f => w.address f.path).Nodup := by
  intro distinct
  have dot : singleClass.files ⟨"."⟩ = some singleClass.root := rfl
  have found : IsSource singleClass.files IsSearched {} [⟨"."⟩, ⟨"a.cls"⟩] ⟨"./a.cls"⟩ :=
    ⟨by decide +kernel, ⟨_, rfl⟩,
      .inr ⟨⟨"."⟩, List.mem_cons_self .., .entry dot (List.mem_cons_self ..)⟩⟩
  have named : IsSource singleClass.files IsSearched {} [⟨"."⟩, ⟨"a.cls"⟩] ⟨"a.cls"⟩ :=
    ⟨by decide +kernel, ⟨_, rfl⟩, .inl (by simp)⟩
  exact not_nodup_address_of_isSource rfl found named rfl (by decide)
    (distinct singleClass {} [⟨"."⟩, ⟨"a.cls"⟩])

end Apex
