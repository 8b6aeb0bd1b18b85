import Apex.Proofs.Spans.Programs
import Apex.Proofs.Walks.Lineages

/-!
# The order of nodes

Nodes of an accepted program none of which lies in another come in the order in which a walk comes
to them: one stops before the next one starts.
-/

namespace Apex

namespace Node

variable {n : Node} {ns : List Node} {free : Token → Bool} {p : Node → Bool}
  {c c₁ c' : Cursor}

/-- A node of a row sits between the ends of the row. -/
theorem Spread.mem (h : Spread free ns c c') {m : Node} (hm : m ∈ ns) :
    ∃ d d', c.Upto d ∧ m.Sits d d' ∧ d'.Upto c' := by
  induction ns generalizing c with
  | nil => cases hm
  | cons n ns ih =>
    obtain _ | ⟨gap, first, rest⟩ := h
    rcases List.mem_cons.mp hm with rfl | later
    · exact ⟨_, _, gap.upto, first, rest.upto⟩
    · obtain ⟨d, d', before, sits, behind⟩ := ih rest later
      exact ⟨d, d', gap.upto.trans (first.before.upto.trans before), sits, behind⟩

/-- Whatever is below a node sits between the ends of the node. -/
theorem Sits.mem_preorder {m : Node} (h : n.Sits c c') (hm : m ∈ n.preorder) :
    ∃ d d', c.Upto d ∧ m.Sits d d' ∧ d'.Upto c' := by
  induction n using Node.induction generalizing c c' with
  | step n ih =>
    rw [preorder_eq] at hm
    rcases List.mem_cons.mp hm with rfl | below
    · exact ⟨c, c', .refl _, h, .refl _⟩
    · obtain ⟨child, hc, hm⟩ := List.mem_flatMap.mp below
      obtain ⟨d, d', before, sits, behind⟩ := h.children_spread.mem hc
      obtain ⟨e, e', before', sits', behind'⟩ := ih child hc sits hm
      exact ⟨e, e', before.trans before', sits', behind'.trans behind⟩

/-- The one node is read before the other. -/
def Precedes (a b : Node) : Prop :=
  a.span.start < b.span.start ∧ a.span.stop ≤ b.span.start

theorem Sits.precedes {a b : Node} {d d' : Cursor} (ha : a.Sits c c') (hb : b.Sits d d')
    (between : c'.Upto d) (s : c.Sorted) : Precedes a b := by
  have s' := ha.before.sorted s
  have proper := ha.before.start_lt_stop s
  have gap := Cursor.stop_le_start s'
  have onward := between.start_le s'
  rw [Precedes, ha.span_eq, hb.span_eq]
  show c.start < d.start ∧ c'.stop ≤ d.start
  omega

/-- Nodes of a sort below different nodes of a row come in the order of the nodes of the row. -/
theorem Spread.filter_pairwise (h : Spread free ns c c') (s : c.Sorted)
    (each : ∀ m ∈ ns, (m.preorder.filter p).Pairwise Precedes) :
    ((ns.flatMap preorder).filter p).Pairwise Precedes := by
  induction ns generalizing c with
  | nil => exact .nil
  | cons n ns ih =>
    obtain _ | ⟨gap, first, rest⟩ := h
    have s₁ := gap.upto.sorted s
    have s₂ := first.before.sorted s₁
    rw [List.flatMap_cons, List.filter_append, List.pairwise_append]
    refine ⟨each n (List.mem_cons_self ..),
      ih rest s₂ fun m hm => each m (List.mem_cons_of_mem _ hm), ?_⟩
    intro a ha b hb
    obtain ⟨m, hm, hb⟩ := List.mem_flatMap.mp (List.mem_filter.mp hb).1
    obtain ⟨d, d', before_a, sits_a, behind_a⟩ := first.mem_preorder (List.mem_filter.mp ha).1
    obtain ⟨e, e', before_m, sits_m, _⟩ := rest.mem hm
    obtain ⟨f, f', before_b, sits_b, _⟩ := sits_m.mem_preorder hb
    have between := behind_a.trans (before_m.trans before_b)
    exact sits_a.precedes sits_b between (before_a.sorted s₁)

/-- No node of a sort lies in another one of the sort. -/
def Apart (p : Node → Bool) (n : Node) : Prop :=
  ∀ m ∈ n.preorder, p m = true → ∀ k ∈ m.children.flatMap preorder, p k = false

theorem Apart.child {m : Node} (h : n.Apart p) (hm : m ∈ n.children) : m.Apart p := by
  intro k hk
  refine h k ?_
  rw [preorder_eq]
  exact List.mem_cons_of_mem _ (List.mem_flatMap.mpr ⟨m, hm, hk⟩)

/-- Nodes of a sort none of which lies in another come one behind the other. -/
theorem Sits.filter_pairwise (h : n.Sits c c') (s : c.Sorted) (apart : n.Apart p) :
    (n.preorder.filter p).Pairwise Precedes := by
  induction n using Node.induction generalizing c c' with
  | step n ih =>
    rw [preorder_eq, List.filter_cons]
    by_cases here : p n = true
    · have none : (n.children.flatMap preorder).filter p = [] := by
        rw [List.filter_eq_nil_iff]
        intro k hk
        have self : n ∈ n.preorder := by
          rw [preorder_eq]
          exact List.mem_cons_self
        rw [apart n self here k hk]
        exact Bool.false_ne_true
      rw [if_pos here, none]
      exact List.pairwise_singleton ..
    · rw [if_neg here]
      refine h.children_spread.filter_pairwise s fun m hm => ?_
      obtain ⟨d, d', before, sits, _⟩ := h.children_spread.mem hm
      exact ih m hm sits (before.sorted s) (apart.child hm)

end Node

/-! ## Accepted texts -/

/-- The tree of an accepted text sits on the tokens of the text, unless the text holds nothing. -/
theorem sits_of_parseSource {source : String} {unit : CompilationUnit}
    (accepted : parseSource source = .ok unit) :
    (∃ c c', unit.node.Sits c c' ∧ c.Sorted) ∨ unit.declaration = .nothing unit.span := by
  unfold parseSource at accepted
  split at accepted
  · next tokens lexed =>
    have s := sorted_of_lex lexed
    unfold parse parseWithin parseWith at accepted
    dsimp only at accepted
    split at accepted
    · cases accepted
    · cases run : Grammar.compilationUnit (Grammar.levels maxNesting) (Cursor.ofTokens tokens) with
      | error e =>
        rw [run] at accepted
        cases accepted
      | ok r =>
        rw [run] at accepted
        cases accepted
        rcases Grammar.compilationUnit_sits (Grammar.sits_levels maxNesting) s run with
          sits | nothing
        · exact .inl ⟨_, _, sits, s⟩
        · exact .inr nothing
  · cases accepted
  · cases accepted

/-- In an accepted text, nodes of a sort none of which lies in another come one behind the other. -/
theorem filter_pairwise_of_parseSource {source : String} {unit : CompilationUnit} {p : Node → Bool}
    (accepted : parseSource source = .ok unit) (apart : unit.node.Apart p) :
    (unit.node.preorder.filter p).Pairwise Node.Precedes := by
  rcases sits_of_parseSource accepted with ⟨c, c', sits, s⟩ | nothing
  · exact sits.filter_pairwise s apart
  · -- The tree is a root with one leaf.
    have nodes : unit.node.preorder = [unit.node, .leaf .nothing unit.span] := by
      rw [CompilationUnit.node, nothing, Declaration.node]
      rfl
    rw [nodes, List.filter_cons]
    by_cases root : p unit.node = true
    · have child := apart unit.node (by rw [nodes]; exact List.mem_cons_self) root
        (.leaf .nothing unit.span) (by
          rw [CompilationUnit.node, nothing, Declaration.node]
          simp [Node.children, Node.leaf, Node.preorder, Node.preorders])
      rw [if_pos root, List.filter_cons, child]
      exact List.pairwise_singleton ..
    · rw [if_neg root, List.filter_cons]
      split
      · exact List.pairwise_singleton ..
      · exact .nil

/-- What is reported of nodes of such a sort, in the order of a walk and at the places of the nodes,
comes one behind the other. -/
theorem reports_pairwise_of_parseSource {α : Type} {source : String} {unit : CompilationUnit}
    {p : Node → Bool} {report : List Node → Node → Option α} {span : α → Span}
    (accepted : parseSource source = .ok unit) (apart : unit.node.Apart p)
    (placed : ∀ {above n a}, report above n = some a → p n = true ∧ span a = n.span) :
    (unit.node.lineages.filterMap fun (above, n) => report above n).Pairwise fun a b =>
      (span a).stop ≤ (span b).start := by
  have order := filter_pairwise_of_parseSource accepted apart
  rw [← Node.entered_eq_preorder, ← Node.lineages_snd, List.pairwise_filter,
    List.pairwise_map] at order
  rw [List.pairwise_filterMap]
  refine order.imp fun {m k} precedes a ha b hb => ?_
  obtain ⟨first, at_m⟩ := placed ha
  obtain ⟨second, at_k⟩ := placed hb
  rw [at_m, at_k]
  exact (precedes first second).2

end Apex
