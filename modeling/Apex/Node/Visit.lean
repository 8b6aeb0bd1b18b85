import Apex.Node.View

/-!
# Visits

A visit computes a result from a tree. The visitor is handed a node together with the means to
visit its children, and decides itself whether to use it.
-/

namespace Apex

/-- How a result is computed from a tree. -/
structure Visitor (σ ε ρ : Type) where
  /-- The result of a node, given its kind, the node, and the action that visits its children and
  puts their results together. -/
  visit : NodeKind → Node → EStateM ε σ ρ → EStateM ε σ ρ
  /-- What the results of children are added to. -/
  start : EStateM ε σ ρ
  /-- Adds the result of one more child; unless said otherwise, the last one counts. -/
  combine : ρ → ρ → EStateM ε σ ρ := fun _ next => pure next
  /-- Asked before each child, with the parent and the results so far: whether to go on. -/
  wantsMore : Node → ρ → EStateM ε σ Bool := fun _ _ => pure true

mutual

/-- The result of a visitor for a node. -/
def Node.accept {σ ε ρ : Type} (v : Visitor σ ε ρ) : Node → EStateM ε σ ρ
  | .mk element span children =>
    let node := .mk element span children
    v.visit element.kind node fun state =>
      match v.start state with
      | .ok result state => Node.acceptAll v node result children state
      | .error e state => .error e state

/-- The results of a visitor for the remaining children of a node, added to those so far. -/
def Node.acceptAll {σ ε ρ : Type} (v : Visitor σ ε ρ) (parent : Node) (result : ρ) :
    List Node → EStateM ε σ ρ
  | [] => pure result
  | child :: children => fun state =>
    match v.wantsMore parent result state with
    | .ok true state =>
      match child.accept v state with
      | .ok next state =>
        match v.combine result next state with
        | .ok result state => Node.acceptAll v parent result children state
        | .error e state => .error e state
      | .error e state => .error e state
    | .ok false state => .ok result state
    | .error e state => .error e state

end

/-- The result for a tree of a visitor that never fails, and the state it ends in. -/
def Node.evaluate {σ ρ : Type} (n : Node) (v : Visitor σ Empty ρ) (state : σ) : ρ × σ :=
  match n.accept v state with
  | .ok result state => (result, state)
  | .error e _ => nomatch e

end Apex
