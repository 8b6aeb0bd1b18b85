import Apex.Node.Visit
import Apex.Proofs.Walks.Recursion

/-!
# Visits and walks

A visit goes where its visitor sends it, a walk goes everywhere. A visitor that counts nodes, leaves
out what lies below nodes of some kinds and stops at a node of a kind it refuses is shown the nodes
of the walk that lie below no node left out, in the order of the walk, up to the first one refused.
-/

namespace Apex

variable {ε : Type}

/-! ## What nodes lie in -/

/-- A listener that writes down every node it is shown, each with those it has been shown and has
not left, the innermost first. -/
def Listener.tracker : Listener (List Node × List (List Node × Node)) Empty where
  enterEvery n := modify fun (above, shown) => (n :: above, shown ++ [(above, n)])
  exitEvery _ := modify fun (above, shown) => (above.tail, shown)

/-- The nodes of a tree in the order in which a walk comes to them, each with the nodes it lies in,
the innermost first. -/
def Node.lineages (n : Node) : List (List Node × Node) := (n.observe .tracker ([], [])).2

/-- The nodes that a walk comes to, in its order, without those that lie in a node of a kind to be
skipped. -/
def Node.unskipped (skip : NodeKind → Bool) (n : Node) : List Node :=
  (n.lineages.filter fun (above, _) => above.all (!skip ·.kind)).map Prod.snd

namespace Node

mutual

/-- The nodes of a tree that lies in given nodes, each with those it lies in. -/
def lineage (above : List Node) : Node → List (List Node × Node)
  | .mk element span children =>
    (above, .mk element span children) :: lineageOf (.mk element span children :: above) children

/-- The nodes of trees that lie in given nodes, each with those it lies in. -/
def lineageOf (above : List Node) : List Node → List (List Node × Node)
  | [] => []
  | n :: ns => n.lineage above ++ lineageOf above ns

end

mutual

theorem traverse_tracker (above : List Node) (shown : List (List Node × Node)) : (n : Node) →
    traverse .tracker n (above, shown) = .ok () (above, shown ++ n.lineage above)
  | .mk element span children => by
    have arrives : Listener.tracker.arrive (.mk element span children) (above, shown) =
        .ok () (.mk element span children :: above,
          shown ++ [(above, .mk element span children)]) := rfl
    have below := traverseAll_tracker (.mk element span children :: above)
      (shown ++ [(above, .mk element span children)]) children
    rw [traverse, lineage]
    simp only [bind, EStateM.bind, arrives, below]
    rw [List.append_assoc]
    rfl

theorem traverseAll_tracker (above : List Node) (shown : List (List Node × Node)) :
    (ns : List Node) →
    traverseAll .tracker ns (above, shown) = .ok () (above, shown ++ lineageOf above ns)
  | [] => by
    rw [traverseAll, lineageOf, List.append_nil]
    rfl
  | n :: ns => by
    rw [traverseAll, lineageOf, ← List.append_assoc]
    simp only [bind, EStateM.bind, traverse_tracker above shown n]
    exact traverseAll_tracker above (shown ++ n.lineage above) ns

end

theorem lineages_eq_lineage (n : Node) : n.lineages = n.lineage [] := by
  rw [lineages, observe, walk_eq_traverse]
  simp only [traverse_tracker, List.nil_append]

mutual

theorem lineage_snd (above : List Node) : (n : Node) → (n.lineage above).map Prod.snd = n.preorder
  | .mk element span children => by
    rw [lineage, preorder, List.map_cons, lineageOf_snd]

theorem lineageOf_snd (above : List Node) : (ns : List Node) →
    (lineageOf above ns).map Prod.snd = preorders ns
  | [] => rfl
  | n :: ns => by
    rw [lineageOf, preorders, List.map_append, lineage_snd above n, lineageOf_snd above ns]

end

/-- With the nodes they lie in or without, the nodes are those that a walk comes to. -/
theorem lineages_snd (n : Node) : n.lineages.map Prod.snd = n.entered := by
  rw [lineages_eq_lineage, lineage_snd, entered_eq_preorder]

/-! ## Trees with parts left out -/

variable (skip : NodeKind → Bool)

mutual

/-- The nodes of a tree, without what lies below nodes of a kind to be skipped. -/
def pruned : Node → List Node
  | .mk element span children =>
    .mk element span children :: if skip element.kind then [] else prunedOf children

/-- The nodes of trees, without what lies below nodes of a kind to be skipped. -/
def prunedOf : List Node → List Node
  | [] => []
  | n :: ns => n.pruned ++ prunedOf ns

end

mutual

theorem filter_lineage (above : List Node) : (n : Node) →
    ((n.lineage above).filter fun (above, _) => above.all (!skip ·.kind)).map Prod.snd =
      if above.all (!skip ·.kind) then n.pruned skip else []
  | .mk element span children => by
    have below := filter_lineageOf (.mk element span children :: above) children
    have kind : (Node.mk element span children).kind = element.kind := rfl
    rw [List.all_cons, kind] at below
    rw [lineage, pruned]
    by_cases shown : above.all (!skip ·.kind) = true
    · rw [shown, Bool.and_true] at below
      rw [List.filter_cons_of_pos (by exact shown), List.map_cons, below, if_pos shown]
      cases skip element.kind <;> rfl
    · rw [Bool.not_eq_true] at shown
      rw [shown, Bool.and_false, if_neg Bool.false_ne_true] at below
      rw [List.filter_cons_of_neg (by simp only [shown, Bool.false_eq_true, not_false_eq_true]),
        below, shown, if_neg Bool.false_ne_true]

theorem filter_lineageOf (above : List Node) : (ns : List Node) →
    ((lineageOf above ns).filter fun (above, _) => above.all (!skip ·.kind)).map Prod.snd =
      if above.all (!skip ·.kind) then prunedOf skip ns else []
  | [] => by cases h : above.all (!skip ·.kind) <;> rfl
  | n :: ns => by
    rw [lineageOf, List.filter_append, List.map_append, filter_lineage above n,
      filter_lineageOf above ns, prunedOf]
    split <;> rfl

end

theorem unskipped_eq_pruned (n : Node) : n.unskipped skip = n.pruned skip := by
  rw [unskipped, lineages_eq_lineage, filter_lineage]
  rfl

end Node

/-! ## A visitor that counts -/

/-- A visitor that writes down the nodes it is handed and counts them. It refuses nodes of one kind,
if there is one, with an error, and does not visit what lies below nodes of a kind to be skipped. -/
def Visitor.counter (skip : NodeKind → Bool) (refused : Option NodeKind) (error : Node → ε) :
    Visitor (List Node) ε Nat where
  visit kind n below := do
    modify (· ++ [n])
    if refused = some kind then throw (error n)
    else if skip kind then return 1
    else return 1 + (← below)
  start := pure 0
  combine total next := pure (total + next)

namespace Visitor

/-- How counting some nodes ends: behind all of them, or at the first one refused. -/
def countOf (refused : Option NodeKind) (error : Node → ε) (total : Nat) (seen ns : List Node) :
    EStateM.Result ε (List Node) Nat :=
  match ns.find? (refused = some ·.kind) with
  | none => .ok (total + ns.length) (seen ++ ns)
  | some n => .error (error n) (seen ++ ns.takeWhile (refused ≠ some ·.kind) ++ [n])

variable {skip : NodeKind → Bool} {refused : Option NodeKind} {error : Node → ε}

theorem countOf_nil (total : Nat) (seen : List Node) :
    countOf refused error total seen [] = .ok total seen := by
  rw [countOf, List.find?_nil, List.append_nil]
  rfl

theorem countOf_cons (total : Nat) (seen : List Node) (n : Node) (ns : List Node) :
    countOf refused error total seen (n :: ns) =
      if refused = some n.kind then .error (error n) (seen ++ [n])
      else countOf refused error (total + 1) (seen ++ [n]) ns := by
  unfold countOf
  by_cases h : refused = some n.kind
  · simp [h]
  · rw [if_neg h, List.find?_cons_of_neg (by simpa using h),
      List.takeWhile_cons_of_pos (by simpa using h)]
    cases ns.find? (refused = some ·.kind) with
    | none =>
      simp only [List.length_cons, List.append_assoc, List.singleton_append]
      rw [Nat.add_assoc, Nat.add_comm 1]
    | some m => simp only [List.append_assoc, List.cons_append, List.nil_append]

theorem visit_counter (kind : NodeKind) (n : Node) (below : EStateM ε (List Node) Nat)
    (seen : List Node) :
    (counter skip refused error).visit kind n below seen =
      if refused = some kind then .error (error n) (seen ++ [n])
      else if skip kind then .ok 1 (seen ++ [n])
      else
        match below (seen ++ [n]) with
        | .ok more seen => .ok (1 + more) seen
        | .error e seen => .error e seen := by
  unfold counter
  by_cases h : refused = some kind
  · simp only [if_pos h]
    rfl
  · cases skipped : skip kind with
    | true =>
      simp only [if_neg h, skipped]
      rfl
    | false =>
      have noted : (modify (· ++ [n]) : EStateM ε (List Node) PUnit) seen =
          .ok ⟨⟩ (seen ++ [n]) := rfl
      simp only [if_neg h, skipped, Bool.false_eq_true, if_false, bind, EStateM.bind, noted]
      cases below (seen ++ [n]) <;> rfl

/-- Nodes are counted one row after another, until one is refused. -/
theorem countOf_append (refused : Option NodeKind) (error : Node → ε) (total base : Nat)
    (seen ns ms : List Node) :
    countOf refused error (total + base) seen (ns ++ ms) =
      match countOf refused error base seen ns with
      | .ok more seen => countOf refused error (total + more) seen ms
      | .error e seen => .error e seen := by
  induction ns generalizing base seen with
  | nil => rw [List.nil_append, countOf_nil]
  | cons n ns ih =>
    rw [List.cons_append, countOf_cons, countOf_cons]
    split
    · rfl
    · rw [Nat.add_assoc, ih]

/-- What has been counted before is added at the end as well. -/
theorem countOf_add (total base : Nat) (seen ns : List Node) :
    countOf refused error (total + base) seen ns =
      match countOf refused error base seen ns with
      | .ok more seen => .ok (total + more) seen
      | .error e seen => .error e seen := by
  have whole := countOf_append refused error total base seen ns []
  rw [List.append_nil] at whole
  simp only [whole, countOf_nil]

mutual

/-- The visitor counts the nodes of the tree without the parts left out. -/
theorem accept_counter (seen : List Node) : (n : Node) →
    n.accept (counter skip refused error) seen = countOf refused error 0 seen (n.pruned skip)
  | .mk element span children => by
    have below := acceptAll_counter (.mk element span children) 0
      (seen ++ [.mk element span children]) children
    have kind : (Node.mk element span children).kind = element.kind := rfl
    rw [Node.accept, Node.pruned, countOf_cons, kind]
    refine (visit_counter _ _ _ seen).trans ?_
    split
    · rfl
    · split
      · rw [countOf_nil]
      · rw [Nat.add_comm, countOf_add, ← below]
        rfl

theorem acceptAll_counter (parent : Node) (total : Nat) (seen : List Node) : (ns : List Node) →
    Node.acceptAll (counter skip refused error) parent total ns seen =
      countOf refused error total seen (Node.prunedOf skip ns)
  | [] => by
    rw [Node.acceptAll, Node.prunedOf, countOf_nil]
    rfl
  | n :: ns => by
    have first := accept_counter seen n
    have others (more : Nat) (seen : List Node) := acceptAll_counter parent (total + more) seen ns
    have whole := countOf_append refused error total 0 seen (n.pruned skip)
      (Node.prunedOf skip ns)
    rw [Nat.add_zero, ← first] at whole
    rw [Node.acceptAll, Node.prunedOf, whole]
    simp only [counter, pure, EStateM.pure] at others ⊢
    cases Node.accept _ n seen with
    | ok more seen => exact others more seen
    | error e seen => rfl

end

end Visitor

/-- A visitor that counts nodes goes through those that a walk comes to and that lie in no node of a
kind to be skipped, in the order of the walk. If it refuses none of them its result is their number
and all of them are written down; otherwise it goes up to the first one refused, and the result is
the error for it. -/
theorem Node.accept_counter_eq (skip : NodeKind → Bool) (refused : Option NodeKind)
    (error : Node → ε) (n : Node) :
    n.lineages.map Prod.snd = n.entered ∧
      n.accept (.counter skip refused error) [] =
        match (n.unskipped skip).find? (refused = some ·.kind) with
        | none => .ok (n.unskipped skip).length (n.unskipped skip)
        | some m =>
          .error (error m) ((n.unskipped skip).takeWhile (refused ≠ some ·.kind) ++ [m]) := by
  refine ⟨n.lineages_snd, ?_⟩
  rw [Visitor.accept_counter, unskipped_eq_pruned, Visitor.countOf]
  simp only [Nat.zero_add, List.nil_append]

end Apex
