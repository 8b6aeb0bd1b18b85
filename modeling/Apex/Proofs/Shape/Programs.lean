import Apex.Proofs.Shape.Declarations
import Apex.Proofs.Shape.Ranks
import Mathlib.Data.List.Perm.Subperm

/-!
# The shape of accepted programs

What consumers of a tree may rely on, put together: everything that is reached in an accepted
program keeps what the grammar promises of it, properties have one accessor or one of each kind, the
forms of array creation exclude each other, and a trigger is found nowhere but as what the file
declares.
-/

namespace Apex

/-- The size in brackets of a new array. -/
def Expr.arraySize? : Expr → Option Expr
  | .newArray _ _ size => some size
  | _ => none

/-- The elements in braces of a new array. -/
def Expr.arrayElements? : Expr → Option (List Expr)
  | .newArrayOf _ _ elements => some elements
  | _ => none

/-- An array is created with a size or with elements, and not with both. -/
theorem Expr.arraySize?_xor_arrayElements? {e : Expr} (array : e.kind = .newArray) :
    e.arraySize?.isSome = !e.arrayElements?.isSome := by
  cases e with
  | newArray | newArrayOf => rfl
  | literal _ value => cases value <;> cases array
  | unary _ op _ => cases op <;> cases array
  | binary _ _ op _ => cases op <;> cases array
  | _ => cases array

/-- Accessors of distinct kinds are at most two. -/
theorem length_le_two_of_distinct {accessors : List Accessor}
    (h : (accessors.map (·.kind)).Nodup) : accessors.length ≤ 2 := by
  have kinds : accessors.map (·.kind) ⊆ [AccessorKind.get, AccessorKind.set] := by
    intro kind _
    cases kind <;> simp
  simpa using (List.Nodup.subperm h kinds).length_le

/-- A trigger is what the file declares. -/
theorem path_of_trigger {u : CompilationUnit} {path : List Nat} {n : Node} {t : Trigger}
    (reached : u.node.descend? path = some n) (trigger : n.element = .trigger t) : path = [0] := by
  have rank : n.kind.rank = 3 := by rw [Node.kind, trigger]; rfl
  have below {m : Node} {path : List Nat} (within : m.IsWithin 2)
      (reached : m.descend? path = some n) : False := by
    have := within.descend reached
    omega
  match path with
  | [] =>
    cases reached
    cases trigger
  | (i + 1) :: path => cases reached
  | 0 :: path =>
    have reached : u.declaration.node.descend? path = some n := reached
    cases declared : u.declaration with
    | type d =>
      rw [declared] at reached
      exact (below (d.isWithin (Nat.le_refl 2)) reached).elim
    | nothing span =>
      rw [declared] at reached
      have leaf : (Declaration.nothing span).node.IsWithin 2 :=
        Node.isWithin_leaf.mpr (Nat.le_refl 2)
      exact (below leaf reached).elim
    | trigger span declaration =>
      rw [declared] at reached
      cases path with
      | nil => rfl
      | cons i path =>
        have children : ∀ m ∈ (declaration.node span).children, m.IsWithin 2 := by
          refine List.forall_mem_append.mpr ⟨?_, List.forall_mem_singleton.mpr ?_⟩
          · refine List.forall_mem_cons.mpr ⟨isWithin_identifier _, ?_⟩
            refine List.forall_mem_cons.mpr ⟨isWithin_identifier _, ?_⟩
            exact List.forall_mem_map.mpr fun e _ => Node.isWithin_leaf.mpr (Nat.zero_le 2)
          · exact declaration.body.isWithin (by decide)
        simp only [Declaration.node, Node.descend?] at reached
        split at reached
        · next child found =>
          exact (below (children child (List.mem_of_getElem? found)) reached).elim
        · cases reached

/-- Whatever is reached from the root of an accepted program keeps what the grammar promises of it;
a property has one accessor or two, a new array has a size or elements, and a trigger is what the
file declares. -/
theorem isSound_of_reached {tokens : List Token} {unit : CompilationUnit} {path : List Nat}
    {n : Node} (accepted : parse tokens = .ok unit) (reached : unit.node.descend? path = some n) :
    n.element.IsSound ∧
      (∀ p, n.element = .property p → p.accessors.length = 1 ∨ p.accessors.length = 2) ∧
      (∀ e, n.element = .expr e → e.kind = .newArray →
        e.arraySize?.isSome = !e.arrayElements?.isSome) ∧
      ∀ t, n.element = .trigger t → path = [0] := by
  have sound := ((isSound_of_parse accepted).descend reached).element
  refine ⟨sound, fun p property => ?_, fun e _ array => Expr.arraySize?_xor_arrayElements? array,
    fun t trigger => path_of_trigger reached trigger⟩
  rw [property] at sound
  obtain ⟨_, some, distinct⟩ := sound
  have := List.length_pos_iff.mpr some
  have := length_le_two_of_distinct distinct
  omega

/-- A property with both accessors, one of them private, in a class that also has an annotation. -/
theorem isSound_property :
    ∃ tokens unit n p,
      lex "@A(x = 1) public class C { static Integer p { get; private set; } }" = .ok tokens ∧
      parse tokens = .ok unit ∧ unit.node.descend? [0, 3] = some n ∧ n.element = .property p ∧
      n.element.IsSound ∧ (p.accessors.length = 1 ∨ p.accessors.length = 2) := by
  have found : ((lex
      "@A(x = 1) public class C { static Integer p { get; private set; } }").toOption.bind
      fun tokens => (parse tokens).toOption.bind fun unit =>
        (unit.node.descend? [0, 3]).map fun n =>
          match n.element with
          | .property _ => true
          | _ => false) = some true := by decide +kernel
  cases lexed : lex
      "@A(x = 1) public class C { static Integer p { get; private set; } }" with
  | error e => simp [lexed, Except.toOption] at found
  | ok tokens =>
    cases accepted : parse tokens with
    | error e => simp [lexed, accepted, Except.toOption] at found
    | ok unit =>
      cases reached : unit.node.descend? [0, 3] with
      | none => simp [lexed, accepted, reached, Except.toOption] at found
      | some n =>
        simp only [lexed, accepted, reached, Except.toOption, Option.bind_some, Option.map_some,
          Option.some.injEq] at found
        split at found
        · next p property =>
          obtain ⟨sound, accessors, _⟩ := isSound_of_reached accepted reached
          exact ⟨tokens, unit, n, p, rfl, accepted, reached, property, sound, accessors p property⟩
        · cases found

end Apex
