import Apex.Proofs.Collecting.Names
import Apex.Proofs.Collecting.Order

/-!
# What is collected

Which paths are sources is said of the files alone, without a search: a listed file, or what lies
below a listed directory, where the directories between them have names through which a search goes.
A collection has these paths in their order. So it does not depend on how often and in which order
paths are listed, nor on the order in which a directory lists its entries.
-/

namespace Apex

/-! ## Trees of files -/

/-- Paths lead through directories as in a tree: an entry of a directory is what its name behind the
path of the directory stands for, and two texts that are the same path are not different files. -/
structure Files.IsTree (files : Files) : Prop where
  /-- An entry of a directory is reached by its name. -/
  entry : ∀ {p : Path} {entries : List (RawText × Entry RawText)} {name : RawText}
    {e : Entry RawText},
    files p = some (.directory entries) → (name, e) ∈ entries → files (p.join name) = some e
  /-- One path is one file. -/
  same : ∀ {p q : Path} {c c' : FileContent}, p.isSame q = true →
    files p = some (.file c) → files q = some (.file c') → c = c'

/-- A path that lies below a directory. Each directory between them has a name that is allowed. -/
inductive Below (files : Files) (Allowed : RawText → Prop) : (directory path : Path) → Prop where
  | entry {directory : Path} {entries : List (RawText × Entry RawText)} {name : RawText}
    (lists : files directory = some (.directory entries)) (named : name ∈ entries.map Prod.fst) :
    Below files Allowed directory (directory.join name)
  | inner {directory path : Path} {entries : List (RawText × Entry RawText)} {name : RawText}
    (lists : files directory = some (.directory entries)) (named : name ∈ entries.map Prod.fst)
    (allowed : Allowed name) (below : Below files Allowed (directory.join name) path) :
    Below files Allowed directory path

/-- A path that is to be collected: an accepted file that is listed, or lies below a listed
directory. -/
structure IsSource (files : Files) (Allowed : RawText → Prop) (settings : ScanSettings)
    (listed : List Path) (path : Path) : Prop where
  /-- It has an accepted extension. -/
  accepted : settings.accepts path = true
  /-- It is a file. -/
  stands : ∃ content, files path = some (.file content)
  /-- It is listed, or a directory is listed in which it is found. -/
  named : path ∈ listed ∨ ∃ directory ∈ listed, Below files Allowed directory path

/-- The files are sources in the order of paths, each path once. A search may go through directories
with some names, and must go through those with others. -/
structure IsCollection (files : Files) (May Must : RawText → Prop) (settings : ScanSettings)
    (listed : List Path) (found : List FoundFile) : Prop where
  /-- The paths are strictly increasing. -/
  ascending : Ascending found
  /-- Each is a source that may be found, with what its path stands for. -/
  sound : ∀ f ∈ found, IsSource files May settings listed f.path ∧
    files f.path = some (.file f.content)
  /-- No source that must be found is missing. -/
  complete : ∀ p, IsSource files Must settings listed p → ∃ f ∈ found, f.path.isSame p = true

/-- The same file, or directories with the same names, which may be listed in another order. -/
inductive Alike : Option (Entry RawText) → Option (Entry RawText) → Prop where
  | nothing : Alike none none
  | file (content : FileContent) : Alike (some (.file content)) (some (.file content))
  | directory {entries entries' : List (RawText × Entry RawText)}
    (names : (entries.map Prod.fst).Perm (entries'.map Prod.fst)) :
    Alike (some (.directory entries)) (some (.directory entries'))

/-- The same paths stand for the same files, and for directories that may list their entries in
another order. -/
def Files.Reordered (files files' : Files) : Prop := ∀ p, Alike (files p) (files' p)

/-! ## Searching a directory -/

variable {files files' : Files} {Allowed Other May Must : RawText → Prop}
  {settings : ScanSettings} {listed listed' : List Path}

theorem Below.lists {directory path : Path} (h : Below files Allowed directory path) :
    ∃ entries, files directory = some (.directory entries) := by
  cases h with
  | entry lists named => exact ⟨_, lists⟩
  | inner lists named allowed below => exact ⟨_, lists⟩

/-- More lies below a directory if more names are allowed. -/
theorem Below.mono (more : ∀ name, Allowed name → Other name) {directory path : Path}
    (h : Below files Allowed directory path) : Below files Other directory path := by
  induction h with
  | entry lists named => exact .entry lists named
  | inner lists named allowed below ih => exact .inner lists named (more _ allowed) ih

theorem IsSource.mono (more : ∀ name, Allowed name → Other name) {path : Path}
    (h : IsSource files Allowed settings listed path) :
    IsSource files Other settings listed path where
  accepted := h.accepted
  stands := h.stands
  named := by
    rcases h.named with here | ⟨directory, here, below⟩
    · exact .inl here
    · exact .inr ⟨directory, here, below.mono more⟩

/-- Nothing is missing either if a search must go through fewer directories. -/
theorem IsCollection.mono (fewer : ∀ name, Other name → Must name) {found : List FoundFile}
    (h : IsCollection files May Must settings listed found) :
    IsCollection files May Other settings listed found where
  ascending := h.ascending
  sound := h.sound
  complete := fun p source => h.complete p (source.mono fewer)

section

variable (directory : Path) (name : RawText) (entries : List (RawText × Entry RawText))

theorem sourcesIn_nil : sourcesIn settings directory [] = [] := by
  rw [sourcesIn.eq_def]

theorem sourcesIn_file (content : FileContent) :
    sourcesIn settings directory ((name, .file content) :: entries) =
      (if settings.accepts (directory.join name) then [⟨directory.join name, content⟩] else []) ++
        sourcesIn settings directory entries := by
  rw [sourcesIn.eq_def]

theorem sourcesIn_directory (inner : List (RawText × Entry RawText)) :
    sourcesIn settings directory ((name, .directory inner) :: entries) =
      (if isPassedOver name then [] else sourcesIn settings (directory.join name) inner) ++
        sourcesIn settings directory entries := by
  rw [sourcesIn.eq_def]

end

section

variable {directory : Path} {entries : List (RawText × Entry RawText)} {name : RawText}

/-- What is found among the later entries is found. -/
theorem sourcesIn_subset_cons (e : RawText × Entry RawText) :
    sourcesIn settings directory entries ⊆ sourcesIn settings directory (e :: entries) := by
  obtain ⟨name, e⟩ := e
  cases e with
  | file content =>
    rw [sourcesIn_file]
    exact List.subset_append_right _ _
  | directory inner =>
    rw [sourcesIn_directory]
    exact List.subset_append_right _ _

theorem mem_sourcesIn_of_file {content : FileContent} (mem : (name, .file content) ∈ entries)
    (accepted : settings.accepts (directory.join name) = true) :
    ⟨directory.join name, content⟩ ∈ sourcesIn settings directory entries := by
  induction entries with
  | nil => cases mem
  | cons e entries ih =>
    rcases List.mem_cons.mp mem with rfl | later
    · rw [sourcesIn_file, if_pos accepted]
      exact List.mem_cons_self ..
    · exact sourcesIn_subset_cons e (ih later)

theorem mem_sourcesIn_of_directory {inner : List (RawText × Entry RawText)} {f : FoundFile}
    (mem : (name, .directory inner) ∈ entries) (searched : IsSearched name)
    (found : f ∈ sourcesIn settings (directory.join name) inner) :
    f ∈ sourcesIn settings directory entries := by
  induction entries with
  | nil => cases mem
  | cons e entries ih =>
    rcases List.mem_cons.mp mem with rfl | later
    · rw [sourcesIn_directory, isPassedOver_eq_false_iff.mpr searched, if_neg (by decide)]
      exact List.mem_append_left _ found
    · exact sourcesIn_subset_cons e (ih later)

/-- What is found in a directory lies below it, is accepted, and is the file that its path stands
for. -/
theorem below_of_mem_sourcesIn (tree : files.IsTree) {part : List (RawText × Entry RawText)}
    (lists : files directory = some (.directory entries)) (sub : part ⊆ entries) {f : FoundFile}
    (mem : f ∈ sourcesIn settings directory part) :
    Below files IsSearched directory f.path ∧ settings.accepts f.path = true ∧
      files f.path = some (.file f.content) := by
  induction directory, part using sourcesIn.induct generalizing entries with
  | case1 directory =>
    rw [sourcesIn_nil] at mem
    cases mem
  | case2 directory name content part ih =>
    obtain ⟨here, later⟩ := List.cons_subset.mp sub
    rw [sourcesIn_file, List.mem_append] at mem
    rcases mem with mem | mem
    · split at mem
      · next accepted =>
        obtain rfl := List.mem_singleton.mp mem
        exact ⟨.entry lists (List.mem_map_of_mem here), accepted, tree.entry lists here⟩
      · cases mem
    · exact ih lists later mem
  | case3 directory name inner part ihInner ih =>
    obtain ⟨here, later⟩ := List.cons_subset.mp sub
    rw [sourcesIn_directory, List.mem_append] at mem
    rcases mem with mem | mem
    · split at mem
      · cases mem
      · next searched =>
        obtain ⟨below, found⟩ := ihInner (tree.entry lists here) (List.Subset.refl _) mem
        have name := isPassedOver_eq_false_iff.mp (Bool.eq_false_iff.mpr searched)
        exact ⟨.inner lists (List.mem_map_of_mem here) name below, found⟩
    · exact ih lists later mem

/-- What lies below a directory is found in it if it is an accepted file. -/
theorem mem_sourcesIn_of_below (tree : files.IsTree) {path : Path} {content : FileContent}
    (below : Below files IsSearched directory path) (accepted : settings.accepts path = true)
    (stands : files path = some (.file content))
    (lists : files directory = some (.directory entries)) :
    ⟨path, content⟩ ∈ sourcesIn settings directory entries := by
  induction below generalizing entries with
  | @entry directory entries' name lists' named =>
    obtain rfl : entries' = entries := by
      rw [lists] at lists'
      exact (Entry.directory.inj (Option.some.inj lists')).symm
    obtain ⟨⟨name, e⟩, here, rfl⟩ := List.mem_map.mp named
    have same := tree.entry lists here
    rw [stands] at same
    obtain rfl := Option.some.inj same
    exact mem_sourcesIn_of_file here accepted
  | @inner directory path entries' name lists' named searched below ih =>
    obtain rfl : entries' = entries := by
      rw [lists] at lists'
      exact (Entry.directory.inj (Option.some.inj lists')).symm
    obtain ⟨⟨name, e⟩, here, rfl⟩ := List.mem_map.mp named
    obtain ⟨inner, lists''⟩ := below.lists
    have same := tree.entry lists here
    rw [lists''] at same
    obtain rfl := Option.some.inj same
    exact mem_sourcesIn_of_directory here searched (ih accepted stands lists'')

end

end Apex
