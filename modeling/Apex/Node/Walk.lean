import Apex.Node.View
import Apex.Source.Diagnostic

/-!
# Walks

A walk shows a tree to a listener, node by node in source order: first the node itself, then
everything below it, then the node once more. The walk keeps what is still to be shown on a stack
of its own, so the depth of a tree does not matter to it.
-/

namespace Apex

/-- An error by which a listener or a visitor ends its work on a tree. -/
structure ConsumerError where
  /-- What is wrong. -/
  message : String
  /-- The node it happened at. -/
  span : Span
deriving DecidableEq, Repr

/-- The data of a report on the error. -/
def ConsumerError.diagnostic (e : ConsumerError) : Diagnostic :=
  ⟨"apex::walk", none, [⟨"while handling this node", e.span⟩]⟩

/-- What a walk calls. Every call may change the listener's state, and may end the walk with an
error; a call that is not given does nothing. -/
structure Listener (σ ε : Type) where
  /-- Called first when the walk comes to a node. -/
  enterEvery : Node → EStateM ε σ Unit := fun _ => pure ()
  /-- Called next, with the node's kind. -/
  enter : NodeKind → Node → EStateM ε σ Unit := fun _ _ => pure ()
  /-- Called with the node's kind when everything below the node has been shown. -/
  exit : NodeKind → Node → EStateM ε σ Unit := fun _ _ => pure ()
  /-- Called last for a node. -/
  exitEvery : Node → EStateM ε σ Unit := fun _ => pure ()

namespace Listener

variable {σ ε : Type}

/-- All that is called when the walk comes to a node. -/
def arrive (l : Listener σ ε) (n : Node) : EStateM ε σ Unit := do
  l.enterEvery n
  l.enter n.kind n

/-- All that is called when the walk leaves a node. -/
def leave (l : Listener σ ε) (n : Node) : EStateM ε σ Unit := do
  l.exit n.kind n
  l.exitEvery n

end Listener

mutual

/-- The number of nodes of a tree. -/
def Node.size : Node → Nat
  | .mk _ _ children => Node.sizes children + 1

/-- The number of nodes of several trees. -/
def Node.sizes : List Node → Nat
  | [] => 0
  | n :: ns => n.size + Node.sizes ns

end

/-- Something a walk has still to do. -/
inductive WalkStep where
  /-- Come to a node and show all of its tree. -/
  | enter (n : Node)
  /-- Leave a node. -/
  | exit (n : Node)

/-- How many calls on a listener a step leads to, arriving and leaving counted as one each. -/
def WalkStep.weight : WalkStep → Nat
  | .enter n => 2 * n.size
  | .exit _ => 1

/-- The weight of all steps together. -/
def walkWeight : List WalkStep → Nat
  | [] => 0
  | step :: steps => step.weight + walkWeight steps

theorem Node.size_eq (n : Node) : n.size = Node.sizes n.children + 1 := by
  cases n; simp [Node.size, Node.children]

theorem walkWeight_enter_append (children : List Node) (steps : List WalkStep) :
    walkWeight (children.map .enter ++ steps) = 2 * Node.sizes children + walkWeight steps := by
  induction children with
  | nil => simp [Node.sizes]
  | cons n ns ih => simp [walkWeight, WalkStep.weight, Node.sizes, ih]; omega

/-- Does all steps of a stack, the top one first. -/
def walkSteps {σ ε : Type} (l : Listener σ ε) (state : σ) :
    List WalkStep → EStateM.Result ε σ Unit
  | [] => .ok () state
  | .enter n :: steps =>
    match l.arrive n state with
    | .ok _ state => walkSteps l state (n.children.map .enter ++ .exit n :: steps)
    | .error e state => .error e state
  | .exit n :: steps =>
    match l.leave n state with
    | .ok _ state => walkSteps l state steps
    | .error e state => .error e state
termination_by steps => walkWeight steps
decreasing_by
  · rw [walkWeight_enter_append]
    simp [walkWeight, WalkStep.weight, Node.size_eq]
    omega
  · simp [walkWeight, WalkStep.weight]

/-- Shows the tree below a node, the node included, to a listener. -/
def Node.walk {σ ε : Type} (n : Node) (l : Listener σ ε) : EStateM ε σ Unit := fun state =>
  walkSteps l state [.enter n]

/-- The state in which a tree leaves a listener that never fails. -/
def Node.observe {σ : Type} (n : Node) (l : Listener σ Empty) (state : σ) : σ :=
  match n.walk l state with
  | .ok _ state => state
  | .error e _ => nomatch e

end Apex
