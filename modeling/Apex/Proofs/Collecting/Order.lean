import Apex.Scan.Collect
import Mathlib.Data.List.Forall2
import Mathlib.Data.List.Lex
import Mathlib.Data.List.Sort
import Mathlib.Data.List.TakeWhile

/-!
# The order of paths

Paths are ordered by their keys, and two texts are the same path exactly if they have the same key.
So when the files that were found are sorted and those side by side with the same path are dropped,
the paths that are left are strictly increasing, and no path is lost.
-/

namespace Apex

/-! ## Keys -/

theorem Component.key_injective : Function.Injective Component.key := by
  intro a b same
  cases a <;> cases b <;> simp only [key, List.cons.injEq] at same <;> try omega
  · rfl
  · rfl
  · rfl
  · rw [List.map_injective_iff.mpr (fun a b => UInt8.toNat_inj.mp) same.2]

namespace Path

variable {p q r : Path}

theorem isSame_iff : p.isSame q = true ↔ p.key = q.key := by
  rw [isSame, beq_iff_eq, key, key]
  exact (List.map_injective_iff.mpr Component.key_injective).eq_iff.symm

theorem isBefore_iff : p.isBefore q = true ↔ p.key < q.key := by
  have names : (fun a b : List Nat => (a.lex b fun m n => decide (m < n)) = true) = (· < ·) := by
    funext a b
    rw [List.lex_eq_true_iff_lex]
    simp only [decide_eq_true_eq]
    rfl
  rw [isBefore, List.lex_eq_true_iff_lex, names]
  rfl

theorem precedes_iff : p.precedes q = true ↔ p.key ≤ q.key := by
  rw [precedes, Bool.not_eq_true', Bool.eq_false_iff, Ne, isBefore_iff, not_lt]

end Path

/-! ## Sorting -/

/-- Files in the order of their paths, the paths all different. -/
def Ascending (found : List FoundFile) : Prop :=
  found.Pairwise fun f g => f.path.isBefore g.path = true

/-- Files in the order of their paths. -/
def InOrder (found : List FoundFile) : Prop :=
  found.Pairwise fun f g => f.path.precedes g.path = true

theorem inOrder_mergeSort (found : List FoundFile) :
    InOrder (found.mergeSort fun f g => f.path.precedes g.path) := by
  refine List.pairwise_mergeSort (fun f g h before later => ?_) (fun f g => ?_) found
  · rw [Path.precedes_iff] at before later ⊢
    exact before.trans later
  · rw [Bool.or_eq_true, Path.precedes_iff, Path.precedes_iff]
    exact le_total _ _

theorem mem_of_mem_dropRepeats {found : List FoundFile} {f : FoundFile}
    (mem : f ∈ dropRepeats found) : f ∈ found := by
  induction found with
  | nil => exact mem
  | cons g found ih =>
    rcases List.mem_cons.mp mem with rfl | later
    · exact List.mem_cons_self ..
    · exact List.mem_cons_of_mem _ (ih ((List.dropWhile_sublist _).subset later))

/-- Dropping repetitions loses no path. -/
theorem exists_mem_dropRepeats {found : List FoundFile} {f : FoundFile} (mem : f ∈ found) :
    ∃ g ∈ dropRepeats found, g.path.isSame f.path = true := by
  induction found with
  | nil => cases mem
  | cons h found ih =>
    rcases List.mem_cons.mp mem with rfl | later
    · exact ⟨f, List.mem_cons_self .., Path.isSame_iff.mpr rfl⟩
    · obtain ⟨g, left, same⟩ := ih later
      rw [← List.takeWhile_append_dropWhile (p := fun g => h.path.isSame g.path)
        (l := dropRepeats found), List.mem_append] at left
      rcases left with dropped | left
      · -- what is dropped has the path of the file that is kept
        have repeated := List.mem_takeWhile_imp dropped
        rw [Path.isSame_iff] at repeated same
        exact ⟨h, List.mem_cons_self .., Path.isSame_iff.mpr (repeated.trans same)⟩
      · exact ⟨g, List.mem_cons_of_mem _ left, same⟩

/-- What is left behind a file when repetitions of it are dropped. -/
theorem Ascending.isBefore_of_mem_dropWhile {f : FoundFile} {found : List FoundFile}
    (h : Ascending found) (first : ∀ g ∈ found, f.path.precedes g.path = true) :
    ∀ g ∈ found.dropWhile fun g => f.path.isSame g.path, f.path.isBefore g.path = true := by
  induction found with
  | nil => exact List.forall_mem_nil _
  | cons second found ih =>
    obtain ⟨before, later⟩ := List.pairwise_cons.mp h
    rw [List.forall_mem_cons] at first
    rw [List.dropWhile_cons]
    split
    · exact ih later first.2
    · next same =>
      rw [Path.isSame_iff] at same
      have here : f.path.key < second.path.key :=
        lt_of_le_of_ne (Path.precedes_iff.mp first.1) same
      refine List.forall_mem_cons.mpr ⟨Path.isBefore_iff.mpr here, fun g mem => ?_⟩
      exact Path.isBefore_iff.mpr (here.trans (Path.isBefore_iff.mp (before g mem)))

/-- Files in order have different paths when repetitions side by side are dropped. -/
theorem InOrder.ascending {found : List FoundFile} (h : InOrder found) :
    Ascending (dropRepeats found) := by
  induction found with
  | nil => exact .nil
  | cons f found ih =>
    obtain ⟨first, later⟩ := List.pairwise_cons.mp h
    have rest := ih later
    refine List.pairwise_cons.mpr ⟨?_, rest.sublist (List.dropWhile_sublist _)⟩
    exact rest.isBefore_of_mem_dropWhile fun g mem => first g (mem_of_mem_dropRepeats mem)

/-- Two rows of files in order have the same paths side by side if they have the same paths. -/
theorem Ascending.forall₂ {found found' : List FoundFile} (h : Ascending found)
    (h' : Ascending found')
    (covers : ∀ f ∈ found, ∃ g ∈ found', f.path.isSame g.path = true)
    (covers' : ∀ g ∈ found', ∃ f ∈ found, f.path.isSame g.path = true) :
    List.Forall₂ (fun f g => f.path.isSame g.path = true) found found' := by
  have increasing {found : List FoundFile} (h : Ascending found) :
      (found.map (·.path.key)).Pairwise (· < ·) :=
    List.pairwise_map.mpr (h.imp Path.isBefore_iff.mp)
  have same : found.map (·.path.key) = found'.map (·.path.key) := by
    refine (increasing h).eq_of_mem_iff (increasing h') fun k => ?_
    simp only [List.mem_map]
    constructor
    · rintro ⟨f, mem, rfl⟩
      obtain ⟨g, found, path⟩ := covers f mem
      exact ⟨g, found, (Path.isSame_iff.mp path).symm⟩
    · rintro ⟨g, mem, rfl⟩
      obtain ⟨f, found, path⟩ := covers' g mem
      exact ⟨f, found, Path.isSame_iff.mp path⟩
  rw [← List.forall₂_eq_eq_eq, List.forall₂_map_left_iff, List.forall₂_map_right_iff] at same
  exact same.imp fun f g => Path.isSame_iff.mpr

end Apex
