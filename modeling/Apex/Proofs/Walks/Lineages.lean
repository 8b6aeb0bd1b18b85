import Apex.Proofs.Walks.Visits
import Mathlib.Data.List.Chain

/-!
# Walks and the nodes around a node

Most listeners keep of a walk what they report and where the walk is. What such a listener reports
of a tree is said node by node: of every node, given the nodes it lies in. When the walk leaves the
tree the listener is where it was before, so programs are reported one behind the other and none
has a part in what is reported of the next.
-/

namespace Apex

variable {σ α : Type}

/-! ## Where a node stands -/

namespace Node

/-- The nodes on the way to the end of a path, the last one first and without the end itself. -/
def ancestors (n : Node) : (path : List Nat) → List Node
  | [] => []
  | i :: path =>
    match n.children[i]? with
    | some child => child.ancestors path ++ [n]
    | none => []

/-- The nodes on the way to the end of a path are reached by its proper beginnings. -/
theorem mem_ancestors_iff {n m a : Node} {path : List Nat} (reached : n.descend? path = some m) :
    a ∈ n.ancestors path ↔ ∃ k < path.length, n.descend? (path.take k) = some a := by
  induction path generalizing n with
  | nil => simp [ancestors]
  | cons i path ih =>
    simp only [descend?, ancestors] at reached ⊢
    cases found : n.children[i]? with
    | none => simp [found] at reached
    | some child =>
      simp only [found] at reached ⊢
      rw [List.mem_append, List.mem_singleton, ih reached]
      constructor
      · rintro (⟨k, inside, on⟩ | rfl)
        · refine ⟨k + 1, Nat.succ_lt_succ inside, ?_⟩
          rw [List.take_succ_cons, descend?, found]
          exact on
        · exact ⟨0, Nat.succ_pos _, rfl⟩
      · rintro ⟨k, inside, on⟩
        cases k with
        | zero =>
          cases on
          exact .inr rfl
        | succ k =>
          rw [List.take_succ_cons, descend?, found] at on
          exact .inl ⟨k, Nat.lt_of_succ_lt_succ inside, on⟩

theorem getLast?_cons_ancestors {child m : Node} {path : List Nat}
    (reached : child.descend? path = some m) :
    (m :: child.ancestors path).getLast? = some child := by
  cases path with
  | nil =>
    cases reached
    rfl
  | cons i path =>
    rw [descend?] at reached
    rw [ancestors]
    cases found : child.children[i]? with
    | none => simp [found] at reached
    | some next => rw [← List.cons_append, List.getLast?_concat]

/-- What holds between a node and the next one on the way back from the end of a path holds at every
step of the path. -/
theorem isChain_cons_ancestors_iff {R : Node → Node → Prop} {n m : Node} {path : List Nat}
    (reached : n.descend? path = some m) :
    (m :: n.ancestors path).IsChain R ↔ ∀ k < path.length, ∀ outer inner,
      n.descend? (path.take k) = some outer → n.descend? (path.take (k + 1)) = some inner →
        R inner outer := by
  induction path generalizing n with
  | nil => simp [ancestors]
  | cons i path ih =>
    simp only [descend?, ancestors] at reached ⊢
    cases found : n.children[i]? with
    | none => simp [found] at reached
    | some child =>
      simp only [found] at reached ⊢
      rw [← List.cons_append, List.isChain_append, ih reached, getLast?_cons_ancestors reached]
      constructor
      · rintro ⟨later, -, here⟩ k inside outer inner before behind
        rw [List.take_succ_cons, descend?, found] at behind
        cases k with
        | zero =>
          cases before
          cases behind
          exact here child rfl n rfl
        | succ k =>
          rw [List.take_succ_cons, descend?, found] at before
          exact later k (Nat.lt_of_succ_lt_succ inside) outer inner before behind
      · refine fun all => ⟨fun k inside outer inner before behind => ?_, .singleton n, ?_⟩
        · refine all (k + 1) (Nat.succ_lt_succ inside) outer inner ?_ ?_ <;>
            rw [List.take_succ_cons, descend?, found]
          · exact before
          · exact behind
        · rintro _ ⟨⟩ _ ⟨⟩
          refine all 0 (Nat.succ_pos _) n child rfl ?_
          rw [List.take_succ_cons, descend?, found]
          rfl

mutual

/-- The nodes of a tree are those that paths reach, each with the nodes on the way to it. -/
theorem mem_lineage_iff {base above : List Node} {m : Node} : (n : Node) →
    ((above, m) ∈ n.lineage base ↔
      ∃ path, n.descend? path = some m ∧ above = n.ancestors path ++ base)
  | .mk element span children => by
    rw [lineage, List.mem_cons, mem_lineageOf_iff children]
    constructor
    · rintro (same | ⟨i, child, path, found, reached, rfl⟩)
      · cases same
        exact ⟨[], rfl, rfl⟩
      · refine ⟨i :: path, ?_, ?_⟩
        · rw [descend?, Node.children, found]
          exact reached
        · rw [ancestors, Node.children, found, List.append_assoc]
          rfl
    · rintro ⟨path, reached, rfl⟩
      cases path with
      | nil =>
        cases reached
        exact .inl rfl
      | cons i path =>
        rw [descend?, Node.children] at reached
        cases found : children[i]? with
        | none => simp [found] at reached
        | some child =>
          rw [found] at reached
          refine .inr ⟨i, child, path, found, reached, ?_⟩
          rw [ancestors, Node.children, found, List.append_assoc]
          rfl

theorem mem_lineageOf_iff {base above : List Node} {m : Node} : (ns : List Node) →
    ((above, m) ∈ lineageOf base ns ↔
      ∃ (i : Nat) (child : Node) (path : List Nat), ns[i]? = some child ∧
        child.descend? path = some m ∧
        above = child.ancestors path ++ base)
  | [] => by simp [lineageOf]
  | n :: ns => by
    rw [lineageOf, List.mem_append, mem_lineage_iff n, mem_lineageOf_iff ns]
    constructor
    · rintro (⟨path, reached, rfl⟩ | ⟨i, child, path, found, rest⟩)
      · exact ⟨0, n, path, rfl, reached, rfl⟩
      · exact ⟨i + 1, child, path, found, rest⟩
    · rintro ⟨i, child, path, found, reached, rfl⟩
      cases i with
      | zero =>
        cases found
        exact .inl ⟨path, reached, rfl⟩
      | succ i => exact .inr ⟨i, child, path, found, reached, rfl⟩

end

end Node

/-! ## Listeners that follow a walk -/

/-- The listener reports `tells` of every node, with the nodes that it lies in. In the nodes `above`
its state is `state above reported` once `reported` has been reported. -/
structure Listener.Follows (l : Listener σ Empty) (state : List Node → List α → σ)
    (tells : List Node × Node → List α) : Prop where
  /-- Coming to a node it reports the node and is in it. -/
  arrive (above : List Node) (reported : List α) (n : Node) :
    l.arrive n (state above reported) = .ok () (state (n :: above) (reported ++ tells (above, n)))
  /-- Leaving a node it reports nothing and is where the node lies. -/
  leave (above : List Node) (reported : List α) (n : Node) :
    l.leave n (state (n :: above) reported) = .ok () (state above reported)

namespace Listener.Follows

variable {l : Listener σ Empty} {state : List Node → List α → σ}
  {tells : List Node × Node → List α}

mutual

theorem traverse (h : l.Follows state tells) (above : List Node) (reported : List α) : (n : Node) →
    Node.traverse l n (state above reported) =
      .ok () (state above (reported ++ (n.lineage above).flatMap tells))
  | .mk element span children => by
    have below := h.traverseAll (.mk element span children :: above)
      (reported ++ tells (above, .mk element span children)) children
    rw [Node.traverse, Node.lineage]
    simp only [bind, EStateM.bind, h.arrive, below, h.leave]
    rw [List.flatMap_cons, List.append_assoc]

theorem traverseAll (h : l.Follows state tells) (above : List Node) (reported : List α) :
    (ns : List Node) → Node.traverseAll l ns (state above reported) =
      .ok () (state above (reported ++ (Node.lineageOf above ns).flatMap tells))
  | [] => by
    rw [Node.traverseAll, Node.lineageOf, List.flatMap_nil, List.append_nil]
    rfl
  | n :: ns => by
    have first := h.traverse above reported n
    have others := h.traverseAll above (reported ++ (n.lineage above).flatMap tells) ns
    rw [Node.traverseAll, Node.lineageOf]
    simp only [bind, EStateM.bind, first, others]
    rw [List.flatMap_append, List.append_assoc]

end

/-- Of a whole tree the listener reports what it tells of the nodes in the order of the walk, and
then it is in no node any more. -/
theorem observe (h : l.Follows state tells) (reported : List α) (n : Node) :
    n.observe l (state [] reported) = state [] (reported ++ n.lineages.flatMap tells) := by
  rw [Node.observe, Node.walk_eq_traverse, Node.lineages_eq_lineage]
  simp only [h.traverse]

/-- Programs are reported one behind the other. -/
theorem run (h : l.Follows state tells) (reported : List α) (units : List CompilationUnit) :
    units.foldl (fun s u => u.node.observe l s) (state [] reported) =
      state [] (reported ++ units.flatMap fun u => u.node.lineages.flatMap tells) := by
  induction units generalizing reported with
  | nil => rw [List.foldl_nil, List.flatMap_nil, List.append_nil]
  | cons u units ih =>
    rw [List.foldl_cons, h.observe, ih, List.flatMap_cons, List.append_assoc]

end Listener.Follows

/-- What is computed from a tree shows that there is one. -/
theorem exists_ok_of_map {ε τ : Type} {outcome : Except ε τ} {f : τ → α} {seen : α}
    (h : outcome.toOption.map f = some seen) : ∃ tree, outcome = .ok tree ∧ f tree = seen := by
  cases outcome with
  | error e => cases h
  | ok tree => exact ⟨tree, rfl, Option.some.inj h⟩

end Apex
