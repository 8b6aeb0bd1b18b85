import Apex.Node.Walk

/-!
# Counting nodes

A census counts the nodes of programs by kind. On request it leaves out the bodies of methods,
constructors, accessors and initializers, so that only declarations are counted.
-/

namespace Apex

/-- How many nodes of each kind have been counted; kinds of which there was none may be missing. -/
abbrev KindCounts := List (NodeKind × Nat)

namespace KindCounts

/-- The number of nodes of a kind. -/
def get (kind : NodeKind) : KindCounts → Nat
  | [] => 0
  | (k, n) :: counts => if k = kind then n else get kind counts

/-- Counts one more node of a kind. -/
def add (kind : NodeKind) : KindCounts → KindCounts
  | [] => [(kind, 1)]
  | (k, n) :: counts => if k = kind then (k, n + 1) :: counts else (k, n) :: add kind counts

/-- The number of all nodes. -/
def total (counts : KindCounts) : Nat := counts.foldr (fun row sum => row.2 + sum) 0

/-- The kinds of which there are nodes, in the order of kinds, with their numbers. -/
def rows (counts : KindCounts) : List (NodeKind × Nat) :=
  (NodeKind.all.map fun kind => (kind, get kind counts)).filter fun row => row.2 != 0

end KindCounts

/-- A census that has been taken so far. -/
structure Census where
  /-- Whether bodies are left out. -/
  skipsBodies : Bool := false
  /-- The nodes counted. -/
  counts : KindCounts := []
  /-- The kinds of the nodes around the current one, innermost first. -/
  around : List NodeKind := []
  /-- How many nodes that are not counted the walk is inside of. -/
  skipDepth : Nat := 0
deriving DecidableEq, Repr

/-- Whether a block that is a child of such a node is a body. -/
def NodeKind.ownsBody : NodeKind → Bool
  | .classMethod | .classConstructor | .propertyGet | .propertySet | .initializerBlock => true
  | _ => false

namespace Census

/-- Whether a node of the kind at the current place is a body to be left out. -/
def skipsHere (c : Census) (kind : NodeKind) : Bool :=
  c.skipsBodies && kind == .block && c.around.head?.any NodeKind.ownsBody

/-- What coming to a node changes. -/
def enter (c : Census) (n : Node) : Census :=
  let c :=
    if 0 < c.skipDepth then { c with skipDepth := c.skipDepth + 1 }
    else if c.skipsHere n.kind then { c with skipDepth := 1 }
    else { c with counts := c.counts.add n.kind }
  { c with around := n.kind :: c.around }

/-- What leaving a node changes. -/
def leave (c : Census) : Census :=
  { c with around := c.around.tail, skipDepth := c.skipDepth - 1 }

end Census

/-- The listener that takes a census. -/
def censusListener : Listener Census Empty where
  enterEvery n := modify (·.enter n)
  exitEvery _ := modify Census.leave

/-- The census with the nodes of one more program. -/
def Census.add (c : Census) (u : CompilationUnit) : Census := u.node.observe censusListener c

end Apex
