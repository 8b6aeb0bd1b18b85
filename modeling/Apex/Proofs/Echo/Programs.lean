import Apex.Proofs.Echo.Declarations
import Apex.Proofs.Shape.Declarations
import Apex.Proofs.Spans.Programs

/-!
# Reading programs again

The grammar is tied together level by level, and whatever it reads at any depth it reads again. So a
row of tokens that consists of the forms of a program's tree is read as that tree.
-/

namespace Apex

open Grammar Apex.Parser

namespace Grammar

variable {D : Deeper} {c d c' d' : Cursor}

theorem isOk_of_mirrors {α : Type} {p : Parser Unit} {view : Unit → α} (h : Mirrors p p view)
    (meets : Edge.value.Meets c d) (found : (p c).isOk = true) : (p d).isOk = true := by
  cases run : p c with
  | error e =>
    rw [run] at found
    cases found
  | ok r =>
    obtain ⟨_, _, _, run', _⟩ := h meets run
    rw [run']
    rfl

/-- Looking ahead finds the same on both rows. -/
theorem matchesAhead_agree {α : Type} {p : Parser Unit} {view : Unit → α} (h : Mirrors p p view)
    (meets : Edge.value.Meets c d) :
    ∃ found, matchesAhead p c = .ok (found, c) ∧ matchesAhead p d = .ok (found, d) := by
  have same : (p d).isOk = (p c).isOk :=
    Bool.eq_iff_iff.mpr ⟨isOk_of_mirrors h meets.symm, isOk_of_mirrors h meets⟩
  exact ⟨_, matchesAhead_ok.mpr rfl, matchesAhead_ok.mpr (by rw [same])⟩

theorem echoes_bottom : Deeper.bottom.Echoes where
  typeRef _ := .fail
  annotationMark _ := .fail
  annotationValue _ := .fail
  assignment _ := .fail
  ternary _ := .fail
  unary _ := .fail
  statement _ := .fail
  typeDeclaration _ := .fail
  mirrors := .fail
  ahead looks _ _ meets := matchesAhead_agree (looks .fail) meets

theorem echoes_above (hD : D.Echoes) (hS : D.Sits) (hF : D.Sound) : (above D).Echoes where
  typeRef := typeRef_echoes hD.typeRef
  annotationMark := annotation_echoes hD
  annotationValue := annotationValue_echoes hD
  assignment := assignment_echoes hD
  ternary := ternary_echoes hD
  unary := unary_echoes hD
  statement := statement_echoes hD
  typeDeclaration := typeDeclaration_echoes hD hS hF
  mirrors := typeRef_mirrors hD.mirrors
  ahead looks _ _ meets := matchesAhead_agree (looks (typeRef_mirrors hD.mirrors)) meets

/-- Whatever the grammar reads at any depth it reads again. -/
theorem echoes_levels (depth : Nat) : (levels depth).Echoes := by
  induction depth with
  | zero => exact echoes_bottom
  | succ depth ih => exact echoes_above ih (sits_levels depth) (sound_levels depth)

end Grammar

/-- A program is read again from any row of tokens that consists of the forms of its tree, and what
is read again is written as the program. -/
theorem parse_echoes {tokens : List Token} {u : CompilationUnit} (accepted : parse tokens = .ok u)
    (sound : (Cursor.ofTokens tokens).Sound) :
    (∃ c', Stands .source u.forms (Cursor.ofTokens tokens) c') ∧
      ∀ {others : List Token} {d' : Cursor}, (Cursor.ofTokens others).strayAfterEnd? = none →
        (Cursor.ofTokens others).Sorted → Stands .text u.forms (Cursor.ofTokens others) d' →
        d'.atEnd = true → ∃ v, parse others = .ok v ∧ u.view = v.view := by
  unfold parse parseWithin parseWith at accepted
  dsimp only at accepted
  split at accepted
  · cases accepted
  · cases run : compilationUnit (levels maxNesting) (Cursor.ofTokens tokens) with
    | error e =>
      rw [run] at accepted
      cases accepted
    | ok r =>
      rw [run] at accepted
      cases accepted
      obtain ⟨stands, again⟩ := compilationUnit_echoes (echoes_levels _) (sits_levels _)
        (sound_levels _) sound run
      refine ⟨⟨_, stands⟩, fun {others d'} stray sorted standsD ends => ?_⟩
      obtain ⟨v, run', same⟩ := again sorted standsD ends
      refine ⟨v, ?_, same⟩
      unfold parse parseWithin parseWith
      dsimp only
      rw [stray, run']
      rfl

end Apex
