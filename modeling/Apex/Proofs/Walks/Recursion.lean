import Apex.Node.Walk

/-!
# Walks and recursion

A walk keeps what is still to be shown on a stack. It makes the same calls as the recursion that
shows a node, the trees of its children and the node once more, and it ends at the same call if one
of them fails. A listener that writes down every node it is shown therefore lists a node before
everything below it.
-/

namespace Apex

variable {σ ε : Type}

mutual

/-- Shows a tree to a listener by recursion. -/
def Node.traverse (l : Listener σ ε) : Node → EStateM ε σ Unit
  | .mk element span children => do
    l.arrive (.mk element span children)
    Node.traverseAll l children
    l.leave (.mk element span children)

/-- Shows trees to a listener, one after another. -/
def Node.traverseAll (l : Listener σ ε) : List Node → EStateM ε σ Unit
  | [] => pure ()
  | n :: ns => do
    Node.traverse l n
    Node.traverseAll l ns

end

/-- The steps of a stack as an action. -/
def walkAll (l : Listener σ ε) (steps : List WalkStep) : EStateM ε σ Unit := fun state =>
  walkSteps l state steps

namespace Walk

variable (l : Listener σ ε)

theorem walkAll_nil : walkAll l [] = pure () := by
  funext state
  rw [walkAll, walkSteps]
  rfl

theorem walkAll_enter (n : Node) (steps : List WalkStep) :
    walkAll l (.enter n :: steps) =
      (do l.arrive n; walkAll l (n.children.map .enter ++ .exit n :: steps)) := by
  funext state
  rw [walkAll, walkSteps]
  simp only [bind, EStateM.bind]
  cases l.arrive n state <;> rfl

theorem walkAll_exit (n : Node) (steps : List WalkStep) :
    walkAll l (.exit n :: steps) = (do l.leave n; walkAll l steps) := by
  funext state
  rw [walkAll, walkSteps]
  simp only [bind, EStateM.bind]
  cases l.leave n state <;> rfl

mutual

/-- A node on the stack is shown as the recursion shows it, before the rest of the stack. -/
theorem walkAll_tree (n : Node) (steps : List WalkStep) :
    walkAll l (.enter n :: steps) = (do Node.traverse l n; walkAll l steps) := by
  obtain ⟨element, span, children⟩ := n
  rw [walkAll_enter, Node.children, walkAll_trees children, walkAll_exit, Node.traverse]
  simp only [bind_assoc]

theorem walkAll_trees (ns : List Node) (steps : List WalkStep) :
    walkAll l (ns.map .enter ++ steps) = (do Node.traverseAll l ns; walkAll l steps) := by
  cases ns with
  | nil =>
    rw [Node.traverseAll, pure_bind]
    rfl
  | cons n ns =>
    rw [List.map_cons, List.cons_append, walkAll_tree n, walkAll_trees ns, Node.traverseAll]
    simp only [bind_assoc]

end

end Walk

/-- A walk makes the calls of the recursion. -/
theorem Node.walk_eq_traverse (n : Node) (l : Listener σ ε) : n.walk l = Node.traverse l n := by
  have h := Walk.walkAll_tree l n []
  rw [Walk.walkAll_nil, bind_pure_unit] at h
  exact h

/-! ## The nodes that are shown -/

/-- A listener that writes down every node it is shown. -/
def Listener.recorder : Listener (List Node) Empty where
  enterEvery n := modify (· ++ [n])

/-- The nodes of a tree in the order in which a walk comes to them. -/
def Node.entered (n : Node) : List Node := n.observe .recorder []

mutual

/-- The nodes of a tree, each before those below it. -/
def Node.preorder : Node → List Node
  | .mk element span children => .mk element span children :: Node.preorders children

/-- The nodes of several trees. -/
def Node.preorders : List Node → List Node
  | [] => []
  | n :: ns => n.preorder ++ Node.preorders ns

end

namespace Node

theorem preorders_eq_flatMap (ns : List Node) : preorders ns = ns.flatMap preorder := by
  induction ns with
  | nil => rfl
  | cons n ns ih => rw [preorders, ih, List.flatMap_cons]

theorem preorder_eq (n : Node) : n.preorder = n :: n.children.flatMap preorder := by
  obtain ⟨element, span, children⟩ := n
  rw [preorder, preorders_eq_flatMap]
  rfl

mutual

theorem traverse_recorder (n : Node) (seen : List Node) :
    traverse .recorder n seen = .ok () (seen ++ n.preorder) := by
  obtain ⟨element, span, children⟩ := n
  have arrives : Listener.recorder.arrive (.mk element span children) seen =
      .ok () (seen ++ [.mk element span children]) := rfl
  have below := traverseAll_recorder children (seen ++ [.mk element span children])
  rw [traverse, preorder]
  simp only [bind, EStateM.bind, arrives, below]
  rw [List.append_assoc]
  rfl

theorem traverseAll_recorder (ns : List Node) (seen : List Node) :
    traverseAll .recorder ns seen = .ok () (seen ++ preorders ns) := by
  cases ns with
  | nil =>
    rw [traverseAll, preorders, List.append_nil]
    rfl
  | cons n ns =>
    rw [traverseAll, preorders, ← List.append_assoc]
    simp only [bind, EStateM.bind, traverse_recorder n seen]
    exact traverseAll_recorder ns (seen ++ n.preorder)

end

/-- A walk comes to a node before everything below it, and to its children in their order. -/
theorem entered_eq_preorder (n : Node) : n.entered = n.preorder := by
  rw [entered, observe, walk_eq_traverse]
  simp only [traverse_recorder, List.nil_append]

/-- A property of trees that every tree has whose children have it. -/
theorem induction {motive : Node → Prop} (n : Node)
    (step : ∀ n : Node, (∀ m ∈ n.children, motive m) → motive n) : motive n := by
  refine step n fun m hm => ?_
  have smaller : sizeOf m < sizeOf n := by
    obtain ⟨element, span, children⟩ := n
    have := List.sizeOf_lt_of_mem (show m ∈ children from hm)
    rw [mk.sizeOf_spec]
    omega
  exact induction m step
termination_by sizeOf n

end Node

end Apex
