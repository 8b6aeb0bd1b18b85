import Apex.Node.Walk

/-!
# Operations on records inside loops

A statement that inserts, updates or otherwise changes stored records is expensive and counted, so
it should not run once for every turn of a loop. This check finds those that do.
-/

namespace Apex

/-- An operation on records that runs on every turn of a loop. -/
structure LoopDml where
  /-- The operation's word. -/
  operation : String
  /-- Where the statement stands. -/
  span : Span
deriving DecidableEq, Repr

/-- What the user is told. -/
def LoopDml.message (f : LoopDml) : String := "'" ++ f.operation ++ "' statement inside a loop"

/-- The data of a report on it. -/
def LoopDml.diagnostic (f : LoopDml) : Diagnostic :=
  ⟨"apexscan::dml_in_loop",
    some "collect the records in a list and issue one DML statement after the loop",
    [⟨"runs on every iteration", f.span⟩]⟩

/-- What has been found so far. -/
structure LoopCheck where
  /-- How many loops there are around the current node. -/
  depth : Nat := 0
  /-- What has been found, in source order. -/
  findings : Array LoopDml := #[]
deriving DecidableEq, Repr

/-- Whether nodes of the kind are loops. -/
def NodeKind.isLoop : NodeKind → Bool
  | .forStmt | .forEachStmt | .whileStmt | .doWhileStmt => true
  | _ => false

/-- The word of the operation on records that a statement is, if it is one. -/
def Element.dmlWord? : Element → Option String
  | .statement (.dml _ op _) => some op.word
  | .statement (.upsert ..) => some "upsert"
  | .statement (.merge ..) => some "merge"
  | _ => none

namespace LoopCheck

/-- What coming to a node changes. -/
def enter (c : LoopCheck) (n : Node) : LoopCheck :=
  if n.kind.isLoop then { c with depth := c.depth + 1 }
  else
    match n.element.dmlWord? with
    | some word =>
      if 0 < c.depth then { c with findings := c.findings.push ⟨word, n.span⟩ } else c
    | none => c

/-- What leaving a node changes. -/
def leave (c : LoopCheck) (n : Node) : LoopCheck :=
  if n.kind.isLoop then { c with depth := c.depth - 1 } else c

end LoopCheck

/-- The listener that runs the check. -/
def loopListener : Listener LoopCheck Empty where
  enter _ n := modify (·.enter n)
  exit _ n := modify (·.leave n)

/-- The check with one more program run through it. -/
def LoopCheck.add (c : LoopCheck) (u : CompilationUnit) : LoopCheck := u.node.observe loopListener c

end Apex
