import Apex.Proofs.Collecting.Folders
import Apex.Scan.Report
import Mathlib

/-!
# Collections and scans

The files that are collected are the sources in the order of paths, or as many of the first of them
as are asked for. A scan parses these files and no others, and what becomes of a file is decided by
what is in it.
-/

namespace Apex

variable {files files' : Files} {Allowed : RawText → Prop} {settings : ScanSettings}
  {listed listed' : List Path}

/-! ## Collecting -/

/-- The files that are found, before they are sorted. -/
def foundFiles (files : Files) (settings : ScanSettings) (listed : List Path) : List FoundFile :=
  listed.flatMap fun p => sourcesAt settings p (files p)

theorem isSource_of_mem_foundFiles (tree : files.IsTree) {f : FoundFile}
    (mem : f ∈ foundFiles files settings listed) :
    IsSource files IsSearched settings listed f.path ∧
      files f.path = some (.file f.content) := by
  obtain ⟨p, here, found⟩ := List.mem_flatMap.mp mem
  cases stands : files p with
  | none =>
    rw [stands, sourcesAt] at found
    cases found
  | some e =>
    rw [stands] at found
    cases e with
    | file content =>
      rw [sourcesAt] at found
      split at found
      · next accepted =>
        obtain rfl := List.mem_singleton.mp found
        exact ⟨⟨accepted, ⟨content, stands⟩, .inl here⟩, stands⟩
      · cases found
    | directory entries =>
      obtain ⟨below, accepted, stands'⟩ :=
        below_of_mem_sourcesIn tree stands (List.Subset.refl _) found
      exact ⟨⟨accepted, ⟨_, stands'⟩, .inr ⟨p, here, below⟩⟩, stands'⟩

theorem exists_mem_foundFiles (tree : files.IsTree) {p : Path}
    (source : IsSource files IsSearched settings listed p) :
    ∃ f ∈ foundFiles files settings listed, f.path = p := by
  obtain ⟨accepted, ⟨content, stands⟩, named⟩ := source
  refine ⟨⟨p, content⟩, ?_, rfl⟩
  rcases named with here | ⟨directory, here, below⟩
  · refine List.mem_flatMap.mpr ⟨p, here, ?_⟩
    rw [stands, sourcesAt, if_pos accepted]
    exact List.mem_singleton_self _
  · obtain ⟨entries, lists⟩ := below.lists
    refine List.mem_flatMap.mpr ⟨directory, here, ?_⟩
    rw [lists]
    exact mem_sourcesIn_of_below tree below accepted stands lists

/-- All sources, however many there are. -/
def allSources (files : Files) (settings : ScanSettings) (listed : List Path) : List FoundFile :=
  dropRepeats ((foundFiles files settings listed).mergeSort fun f g => f.path.precedes g.path)

/-- With a limit, the first of the sources are collected. -/
theorem collectSources_eq (files : Files) (settings : ScanSettings) (listed : List Path) :
    collectSources files settings listed =
      match settings.maxFiles with
      | some limit => (allSources files settings listed).take limit
      | none => allSources files settings listed := rfl

/-- What is collected are some of the sources in their order. -/
theorem collectSources_sublist :
    (collectSources files settings listed).Sublist (allSources files settings listed) := by
  rw [collectSources_eq]
  cases settings.maxFiles with
  | none => exact .refl _
  | some limit => exact List.take_sublist _ _

/-- Exactly the directories through which a search goes are those it may and must go through. -/
theorem isCollection_allSources (tree : files.IsTree) :
    IsCollection files IsSearched IsSearched settings listed
      (allSources files settings listed) where
  ascending := (inOrder_mergeSort _).ascending
  sound := fun f mem =>
    isSource_of_mem_foundFiles tree (List.mem_mergeSort.mp (mem_of_mem_dropRepeats mem))
  complete := by
    intro p source
    obtain ⟨f, found, rfl⟩ := exists_mem_foundFiles tree source
    exact exists_mem_dropRepeats (List.mem_mergeSort.mpr found)

/-! ## Other orders -/

namespace Files.Reordered

theorem symm (h : files.Reordered files') : files'.Reordered files := by
  intro p
  have here := h p
  generalize files p = e, files' p = e' at here ⊢
  cases here with
  | nothing => exact .nothing
  | file content => exact .file content
  | directory names => exact .directory names.symm

theorem file (h : files.Reordered files') {p : Path} {content : FileContent}
    (stands : files p = some (.file content)) : files' p = some (.file content) := by
  have here := h p
  rw [stands] at here
  generalize files' p = e at here
  cases here
  rfl

theorem directory (h : files.Reordered files') {p : Path} {entries : List (RawText × Entry RawText)}
    (lists : files p = some (.directory entries)) :
    ∃ entries', files' p = some (.directory entries') ∧
      (entries.map Prod.fst).Perm (entries'.map Prod.fst) := by
  have here := h p
  rw [lists] at here
  generalize files' p = e at here
  cases here with
  | directory names => exact ⟨_, rfl, names⟩

theorem below (h : files.Reordered files') {directory path : Path}
    (below : Below files Allowed directory path) : Below files' Allowed directory path := by
  induction below with
  | entry lists named =>
    obtain ⟨entries', lists', same⟩ := h.directory lists
    exact .entry lists' (same.mem_iff.mp named)
  | inner lists named allowed below ih =>
    obtain ⟨entries', lists', same⟩ := h.directory lists
    exact .inner lists' (same.mem_iff.mp named) allowed ih

theorem isSource (h : files.Reordered files') (members : ∀ p, p ∈ listed → p ∈ listed') {p : Path}
    (source : IsSource files Allowed settings listed p) :
    IsSource files' Allowed settings listed' p := by
  obtain ⟨accepted, ⟨content, stands⟩, named⟩ := source
  refine ⟨accepted, ⟨content, h.file stands⟩, ?_⟩
  rcases named with here | ⟨directory, here, below⟩
  · exact .inl (members p here)
  · exact .inr ⟨directory, members directory here, h.below below⟩

end Files.Reordered

/-- Found files with the same path and the same content. -/
def FoundFile.IsSame (f g : FoundFile) : Prop :=
  f.path.isSame g.path = true ∧ f.content = g.content

/-- Neither the order nor the number of times in which paths are listed counts, nor the order of the
entries of directories. -/
theorem IsCollection.forall₂ {found found' : List FoundFile}
    (h : IsCollection files Allowed Allowed settings listed found)
    (h' : IsCollection files' Allowed Allowed settings listed' found') (tree : files.IsTree)
    (reordered : files.Reordered files') (members : ∀ p, p ∈ listed ↔ p ∈ listed') :
    List.Forall₂ FoundFile.IsSame found found' := by
  have paths : List.Forall₂ (fun f g => f.path.isSame g.path = true) found found' := by
    refine h.ascending.forall₂ h'.ascending (fun f mem => ?_) fun g mem => ?_
    · have source := reordered.isSource (fun p => (members p).mp) (h.sound f mem).1
      obtain ⟨g, found, same⟩ := h'.complete f.path source
      exact ⟨g, found, Path.isSame_iff.mpr (Path.isSame_iff.mp same).symm⟩
    · have source := reordered.symm.isSource (fun p => (members p).mpr) (h'.sound g mem).1
      exact h.complete g.path source
  rw [List.forall₂_iff_zip] at paths ⊢
  refine ⟨paths.1, fun {f g} mem => ⟨paths.2 mem, ?_⟩⟩
  obtain ⟨left, right⟩ := List.of_mem_zip mem
  have stands := reordered.symm.file (h'.sound g right).2
  exact tree.same (paths.2 mem) (h.sound f left).2 stands

/-! ## Scanning -/

/-- What becomes of a file, told from what is in it. -/
def FileContent.read (c : FileContent) : Except ScanError (String × CompilationUnit) :=
  if maxSourceSize < c.size then .error (.tooLarge c.size)
  else
    match c.text with
    | .error fault => .error (.unreadable fault)
    | .ok source =>
      match parseSource source with
      | .ok unit => .ok (source, unit)
      | .error error => .error (.noProgram source error)

theorem FoundFile.parse_eq (f : FoundFile) :
    f.parse = f.content.read.map fun (source, unit) => ⟨f.path, source, unit⟩ := by
  unfold parse FileContent.read
  split
  · rfl
  · cases f.content.text with
    | error fault => rfl
    | ok source =>
      dsimp only
      cases parseSource source <;> rfl

/-- A file that parsed, if this one does. -/
def FoundFile.parsed? (f : FoundFile) : Option ParsedFile :=
  match f.content.read with
  | .ok (source, unit) => some ⟨f.path, source, unit⟩
  | .error _ => none

/-- The reason why a file is skipped, if it is. -/
def FoundFile.skipped? (f : FoundFile) : Option SkippedFile :=
  match f.content.read with
  | .ok _ => none
  | .error error => some ⟨f.path, error⟩

/-- A scan parses the files in their order and puts each where its content says. -/
theorem scanFiles_eq (found : List FoundFile) :
    scanFiles found = ⟨found.filterMap FoundFile.parsed?, found.filterMap FoundFile.skipped?⟩ := by
  unfold scanFiles
  induction found with
  | nil => rfl
  | cons f found ih =>
    rw [List.foldr_cons, ih, ScanReport.addFront, f.parse_eq]
    unfold FoundFile.parsed? FoundFile.skipped?
    cases read : f.content.read <;> simp [Except.map, read]

/-- What a scan collects and what becomes of it. The paths of what is collected are strictly
increasing. Without a limit all sources are collected that are listed or lie below a listed
directory, where the names of the directories between them have no dot in front and are not that of
installed packages. Nothing else is collected but what lies in directories whose names have a dot in
front and are no text. With a limit there are as many of the first of these files. Neither the order
of the listed paths and their repetitions nor the order of the entries of directories counts. Each
file that is collected has parsed or is skipped, as its content says. -/
theorem scan_isCollection (tree : files.IsTree) (settings : ScanSettings) (listed : List Path) :
    Ascending (collectSources files settings listed) ∧
      IsCollection files IsSearched IsOpen settings listed (allSources files settings listed) ∧
      collectSources files settings listed =
        (match settings.maxFiles with
        | some limit => (allSources files settings listed).take limit
        | none => allSources files settings listed) ∧
      (∀ (files' : Files) (listed' : List Path), files'.IsTree → files.Reordered files' →
        (∀ p, p ∈ listed ↔ p ∈ listed') →
        List.Forall₂ FoundFile.IsSame (collectSources files settings listed)
          (collectSources files' settings listed')) ∧
      scan files settings listed =
        ⟨(collectSources files settings listed).filterMap FoundFile.parsed?,
          (collectSources files settings listed).filterMap FoundFile.skipped?⟩ := by
  have all : IsCollection files IsSearched IsSearched settings listed _ :=
    isCollection_allSources tree
  refine ⟨?_, all.mono fun _ => IsOpen.isSearched, rfl,
    fun files' listed' tree' reordered members => ?_, scanFiles_eq _⟩
  · exact all.ascending.sublist collectSources_sublist
  · have same := all.forall₂ (isCollection_allSources tree') tree reordered members
    rw [collectSources_eq, collectSources_eq]
    cases settings.maxFiles with
    | none => exact same
    | some limit => exact List.forall₂_take limit same

/-- Sources in a directory and in one below it, next to a hidden directory with another source. -/
def hiddenNeighbour (a b c : FileContent) : Entry RawText :=
  .directory [("src", .directory [("z.cls", .file a), (".old", .directory [("A.cls", .file a)]),
    ("lib", .directory [("C.trigger", .file c), ("C.txt", .file c)]), ("B.cls", .file b)])]

section

variable (a b c : FileContent)

theorem isSound_hiddenNeighbour : (hiddenNeighbour a b c).IsSound := by
  refine .of_names ["src"] rfl (by decide) (by decide) (List.forall_mem_singleton.mpr ?_)
  refine .of_names ["z.cls", ".old", "lib", "B.cls"] rfl (by decide) (by decide) ?_
  simp only [List.forall_mem_cons]
  refine ⟨.file a, ?old, ?lib, .file b, fun _ mem => absurd mem List.not_mem_nil⟩
  case old => exact .of_names ["A.cls"] rfl (by decide) (by decide) (by simp [Entry.IsSound.file])
  case lib =>
    exact .of_names ["C.trigger", "C.txt"] rfl (by decide) (by decide)
      (by simp [Entry.IsSound.file])

/-- Which files are sources does not depend on what is in them. -/
theorem allSources_hiddenNeighbour :
    allSources (hiddenNeighbour a b c).files { maxFiles := some 2 }
        [⟨"src//B.cls"⟩, ⟨"src"⟩] =
      [⟨⟨"src//B.cls"⟩, b⟩, ⟨⟨"src/lib/C.trigger"⟩, c⟩, ⟨⟨"src/z.cls"⟩, a⟩] := by
  cbv

end

/-- A directory is listed together with a source in it, which is written with two slashes. At most
two files are to be taken, and the second one is no program. -/
theorem scan_isCollection_hiddenNeighbour :
    let a : FileContent := ⟨10, .ok "class A \x7b\x7d"⟩
    let b : FileContent := ⟨10, .ok "class B \x7b\x7d"⟩
    let c : FileContent := ⟨7, .ok "trigger"⟩
    let files := (hiddenNeighbour a b c).files
    let settings : ScanSettings := { maxFiles := some 2 }
    let listed : List Path := [⟨"src//B.cls"⟩, ⟨"src"⟩]
    files.IsTree ∧
      collectSources files settings listed =
        [⟨⟨"src//B.cls"⟩, b⟩, ⟨⟨"src/lib/C.trigger"⟩, c⟩] ∧
      IsCollection files IsSearched IsOpen settings listed
        [⟨⟨"src//B.cls"⟩, b⟩, ⟨⟨"src/lib/C.trigger"⟩, c⟩, ⟨⟨"src/z.cls"⟩, a⟩] ∧
      (scan files settings listed).files.map ParsedFile.path = [⟨"src//B.cls"⟩] ∧
      (scan files settings listed).skipped.map SkippedFile.path = [⟨"src/lib/C.trigger"⟩] := by
  intro a b c files settings listed
  have tree : files.IsTree := (isSound_hiddenNeighbour a b c).isTree_files
  obtain ⟨-, all, -, -, scanned⟩ := scan_isCollection tree settings listed
  have sources : allSources files settings listed = _ := allSources_hiddenNeighbour a b c
  have collected : collectSources files settings listed =
      [⟨⟨"src//B.cls"⟩, b⟩, ⟨⟨"src/lib/C.trigger"⟩, c⟩] := by
    rw [collectSources_eq, sources]
    rfl
  rw [sources] at all
  rw [collected] at scanned
  refine ⟨tree, collected, all, ?_, ?_⟩
  · rw [scanned]
    decide +kernel
  · rw [scanned]
    decide +kernel

/-! ## Sources that are found or missed -/

/-- A source in a directory whose name is a dot and a byte that begins no character. -/
def hiddenByBytes : Entry RawText :=
  .directory [(⟨[dot, 0xFF]⟩, .directory [("A.cls", .file ⟨10, .ok "class A \x7b\x7d"⟩)])]

theorem isSound_hiddenByBytes : hiddenByBytes.IsSound :=
  .of_names [⟨[dot, 0xFF]⟩] rfl (by decide) (by decide) (List.forall_mem_singleton.mpr
    (.of_names ["A.cls"] rfl (by decide) (by decide) (List.forall_mem_singleton.mpr (.file _))))

/-- The source is found: the dot is not seen because the name is no text. -/
theorem isSource_hiddenByBytes :
    IsSource hiddenByBytes.files IsSearched {} [⟨"."⟩]
      (((⟨"."⟩ : Path).join ⟨[dot, 0xFF]⟩).join "A.cls") := by
  have lists : hiddenByBytes.files ⟨"."⟩ = some hiddenByBytes := rfl
  have searched : IsSearched ⟨[dot, 0xFF]⟩ := ⟨fun _ => by decide +kernel, by decide +kernel⟩
  refine ⟨by decide +kernel, ⟨_, rfl⟩, .inr ⟨⟨"."⟩, List.mem_singleton_self _, ?_⟩⟩
  exact .inner lists (List.mem_cons_self ..) searched (.entry rfl (List.mem_cons_self ..))

/-- It would not be if every directory with a dot in front were passed over. -/
theorem not_isSource_hiddenByBytes (p : Path) :
    ¬IsSource hiddenByBytes.files IsOpen {} [⟨"."⟩] p := by
  have only {entries : List (RawText × Entry RawText)} {name : RawText}
      (lists : hiddenByBytes.files ⟨"."⟩ = some (.directory entries))
      (named : name ∈ entries.map Prod.fst) : name = ⟨[dot, 0xFF]⟩ := by
    obtain rfl := Entry.directory.inj (Option.some.inj lists)
    exact List.mem_singleton.mp named
  rintro ⟨accepted, ⟨content, stands⟩, here | ⟨directory, here, below⟩⟩
  · obtain rfl := List.mem_singleton.mp here
    cases stands
  · obtain rfl := List.mem_singleton.mp here
    cases below with
    | entry lists named =>
      obtain rfl := only lists named
      cases stands
    | inner lists named allowed below =>
      obtain rfl := only lists named
      exact allowed.1 rfl

/-- A directory with one source. -/
def singleSource : Entry RawText :=
  .directory [("A.cls", .file ⟨10, .ok "class A \x7b\x7d"⟩)]

theorem isSound_singleSource : singleSource.IsSound :=
  .of_names ["A.cls"] rfl (by decide) (by decide) (List.forall_mem_singleton.mpr (.file _))

/-- Not everything that is collected is found without hidden directories: one whose name is no text
is searched. And not every source with the path of a listed one is collected: with a slash behind
its name a file is not found. -/
theorem not_isCollection_open_named :
    (¬∀ (files : Files) (settings : ScanSettings) (listed : List Path), files.IsTree →
      ∀ f ∈ collectSources files settings listed, IsSource files IsOpen settings listed f.path) ∧
    ¬∀ (files : Files) (settings : ScanSettings) (listed : List Path), files.IsTree →
      ∀ p ∈ listed, ∀ q, p.isSame q = true → settings.accepts q = true →
        (∃ content, files q = some (.file content)) →
        ∃ f ∈ allSources files settings listed, f.path.isSame q = true := by
  constructor
  · intro sound
    have tree := isSound_hiddenByBytes.isTree_files
    obtain ⟨f, found, -⟩ := (isCollection_allSources tree).complete _ isSource_hiddenByBytes
    exact not_isSource_hiddenByBytes f.path (sound _ {} [⟨"."⟩] tree f found)
  · intro complete
    have tree := isSound_singleSource.isTree_files
    have nothing : allSources singleSource.files {} [⟨"A.cls/"⟩] = [] := by cbv
    obtain ⟨f, found, -⟩ := complete singleSource.files {} [⟨"A.cls/"⟩] tree ⟨"A.cls/"⟩
      (List.mem_singleton_self _) ⟨"A.cls"⟩ (by decide +kernel) (by decide +kernel) ⟨_, rfl⟩
    rw [nothing] at found
    cases found

end Apex
