import Apex.Grammar.Unit
import Apex.Proofs.Walks.Lineages
import Apex.Report.Census
import Mathlib

/-!
# What a census counts

A census remembers the kinds of the nodes around the walk and how deep the walk is in a body that is
left out. Both are as they were when a node is left, so what is counted of a program depends on its
tree alone: all nodes, or those of the tree with its bodies cut off.
-/

namespace Apex

/-- The kinds of nodes whose blocks are bodies: methods, constructors, accessors, initializers. -/
def bodyOwnerKinds : List NodeKind :=
  [.classMethod, .classConstructor, .propertyGet, .propertySet, .initializerBlock]

/-- Whether nodes of the kind are bodies in a node of the other kind, if they are in one. -/
def NodeKind.isBodyIn (parent : Option NodeKind) (kind : NodeKind) : Bool :=
  kind == .block && parent.any bodyOwnerKinds.contains

theorem NodeKind.contains_bodyOwnerKinds : bodyOwnerKinds.contains = NodeKind.ownsBody := by
  funext kind
  cases kind <;> rfl

namespace Node

mutual

/-- The nodes of a tree that are counted, given the kind of the node that the tree is in: all of
them, or, if bodies are to be left out, those that are no body and lie in none. -/
def counted (skips : Bool) (parent : Option NodeKind) : Node → List Node
  | .mk element span children =>
    if skips && element.kind.isBodyIn parent then []
    else .mk element span children :: countedOf skips (some element.kind) children

/-- The nodes of several trees in one node that are counted. -/
def countedOf (skips : Bool) (parent : Option NodeKind) : List Node → List Node
  | [] => []
  | n :: ns => n.counted skips parent ++ countedOf skips parent ns

end

mutual

/-- If bodies are not to be left out, every node is counted. -/
theorem counted_false (parent : Option NodeKind) : (n : Node) →
    n.counted false parent = n.preorder
  | .mk element span children => by
    rw [counted, preorder, countedOf_false, Bool.false_and, if_neg Bool.false_ne_true]

theorem countedOf_false (parent : Option NodeKind) : (ns : List Node) →
    countedOf false parent ns = preorders ns
  | [] => by rw [countedOf, preorders]
  | n :: ns => by rw [countedOf, preorders, counted_false parent n, countedOf_false parent ns]

end

end Node

/-! ## Numbers by kind -/

namespace KindCounts

/-- One more node of a kind is one more of that kind and of no other. -/
theorem get_add (kind k : NodeKind) (counts : KindCounts) :
    get kind (add k counts) = get kind counts + if k = kind then 1 else 0 := by
  induction counts with
  | nil =>
    show (if k = kind then 1 else 0) = 0 + _
    rw [Nat.zero_add]
  | cons row counts ih =>
    obtain ⟨k', n⟩ := row
    unfold add
    by_cases here : k' = k
    · subst here
      rw [if_pos rfl]
      unfold get
      by_cases same : k' = kind
      · rw [if_pos same, if_pos same, if_pos same]
      · rw [if_neg same, if_neg same, if_neg same, Nat.add_zero]
    · rw [if_neg here]
      unfold get
      by_cases same : k' = kind
      · have other : ¬k = kind := fun h => here (same.trans h.symm)
        rw [if_pos same, if_pos same, if_neg other, Nat.add_zero]
      · rw [if_neg same, if_neg same, ih]

/-- One more node is one more. -/
theorem total_add (k : NodeKind) (counts : KindCounts) :
    total (add k counts) = total counts + 1 := by
  induction counts with
  | nil => rfl
  | cons row counts ih =>
    obtain ⟨k', n⟩ := row
    unfold total at ih ⊢
    unfold add
    by_cases here : k' = k
    · rw [if_pos here, List.foldr_cons, List.foldr_cons]
      omega
    · rw [if_neg here, List.foldr_cons, List.foldr_cons, ih]
      omega

/-- The numbers of some nodes. -/
def ofNodes (ns : List Node) : KindCounts := ns.foldl (fun counts n => counts.add n.kind) []

theorem ofNodes_append (ns : List Node) (n : Node) :
    ofNodes (ns ++ [n]) = (ofNodes ns).add n.kind := by
  unfold ofNodes
  rw [List.foldl_append, List.foldl_cons, List.foldl_nil]

theorem get_ofNodes (kind : NodeKind) (ns : List Node) :
    get kind (ofNodes ns) = ns.countP (·.kind == kind) := by
  induction ns using List.reverseRecOn with
  | nil => rfl
  | append_singleton ns n ih =>
    rw [ofNodes_append, get_add, ih, List.countP_append, List.countP_singleton]
    simp only [beq_iff_eq]

theorem total_ofNodes (ns : List Node) : total (ofNodes ns) = ns.length := by
  induction ns using List.reverseRecOn with
  | nil => rfl
  | append_singleton ns n ih =>
    rw [ofNodes_append, total_add, ih, List.length_append, List.length_singleton]

end KindCounts

/-- The list of kinds has every kind once. -/
theorem NodeKind.sum_all (k : NodeKind) :
    (all.map fun kind => if k == kind then 1 else 0).sum = 1 := by
  cases k <;> rfl

/-- Every node is of one kind, so the numbers of all kinds make up that of the nodes. -/
theorem NodeKind.sum_countP (ns : List Node) :
    (all.map fun kind => ns.countP (·.kind == kind)).sum = ns.length := by
  induction ns with
  | nil => rfl
  | cons n ns ih => simp only [List.countP_cons, List.sum_map_add, ih, sum_all, List.length_cons]

/-! ## The census in a walk -/

namespace Census

/-- How deep the innermost of some nodes, each of which lies in the next, is in a body that is left
out; a body is in itself. -/
def depthIn (skips : Bool) : List Node → Nat
  | [] => 0
  | n :: above =>
    if 0 < depthIn skips above then depthIn skips above + 1
    else if skips && n.kind.isBodyIn (above.head?.map (·.kind)) then 1
    else 0

theorem depthIn_inside {skips : Bool} {above : List Node} (n : Node)
    (inside : depthIn skips above ≠ 0) :
    depthIn skips (n :: above) = depthIn skips above + 1 := by
  rw [depthIn, if_pos (by omega)]

theorem depthIn_outside {skips : Bool} {above : List Node} (n : Node)
    (outside : depthIn skips above = 0) :
    depthIn skips (n :: above) =
      if skips && n.kind.isBodyIn (above.head?.map (·.kind)) then 1 else 0 := by
  rw [depthIn, if_neg (by omega)]

/-- What is counted at a node, given the nodes that it lies in: the node, unless it is in a body that
is left out. -/
def said (skips : Bool) (place : List Node × Node) : List Node :=
  if depthIn skips (place.2 :: place.1) = 0 then [place.2] else []

/-- The census in the given nodes, when it has counted others. -/
def within (skips : Bool) (above counted : List Node) : Census :=
  ⟨skips, .ofNodes counted, above.map (·.kind), depthIn skips above⟩

theorem skipsHere_within (skips : Bool) (above counted : List Node) (kind : NodeKind) :
    (within skips above counted).skipsHere kind =
      (skips && kind.isBodyIn (above.head?.map (·.kind))) := by
  unfold skipsHere within NodeKind.isBodyIn
  rw [List.head?_map, Bool.and_assoc, NodeKind.contains_bodyOwnerKinds]

/-- The depth that the census has counted is that of the node, which is counted at depth 0. -/
theorem enter_within (skips : Bool) (above counted : List Node) (n : Node) :
    (within skips above counted).enter n =
      within skips (n :: above) (counted ++ said skips (above, n)) := by
  unfold enter
  rw [skipsHere_within]
  by_cases outside : depthIn skips above = 0
  · have here : ¬0 < (within skips above counted).skipDepth := Nat.not_lt.mpr (Nat.le_of_eq outside)
    rw [if_neg here]
    by_cases body : (skips && n.kind.isBodyIn (above.head?.map (·.kind))) = true
    · have depth : depthIn skips (n :: above) = 1 := by rw [depthIn_outside n outside, if_pos body]
      have silent : said skips (above, n) = [] := if_neg (by rw [depth]; exact Nat.one_ne_zero)
      rw [if_pos body, silent, List.append_nil]
      unfold within
      rw [depth]
      rfl
    · have depth : depthIn skips (n :: above) = 0 := by rw [depthIn_outside n outside, if_neg body]
      have heard : said skips (above, n) = [n] := if_pos depth
      rw [if_neg body, heard]
      unfold within
      rw [depth, outside, KindCounts.ofNodes_append]
      rfl
  · have depth := depthIn_inside n outside
    have here : 0 < (within skips above counted).skipDepth := Nat.pos_of_ne_zero outside
    have silent : said skips (above, n) = [] := if_neg (by rw [depth]; exact Nat.succ_ne_zero _)
    rw [if_pos here, silent, List.append_nil]
    unfold within
    rw [depth]
    rfl

theorem leave_within (skips : Bool) (above counted : List Node) (n : Node) :
    (within skips (n :: above) counted).leave = within skips above counted := by
  have depth : depthIn skips (n :: above) - 1 = depthIn skips above := by
    rw [depthIn]
    split
    · omega
    · split <;> omega
  unfold leave within
  rw [depth]
  rfl

theorem follows (skips : Bool) : censusListener.Follows (within skips) (said skips) where
  arrive above counted n := by
    show EStateM.Result.ok () ((within skips above counted).enter n) = _
    rw [enter_within]
  leave above counted n := by
    show EStateM.Result.ok () (within skips (n :: above) counted).leave = _
    rw [leave_within]

mutual

/-- In a walk the nodes of a tree that are counted are those counted without one, unless the tree
lies in a body that is left out. -/
theorem flatMap_lineage (skips : Bool) (above : List Node) : (n : Node) →
    (n.lineage above).flatMap (said skips) =
      if depthIn skips above = 0 then n.counted skips (above.head?.map (·.kind)) else []
  | .mk element span children => by
    have below := flatMap_lineageOf skips (.mk element span children :: above) children
    rw [Node.lineage, List.flatMap_cons, below, said]
    by_cases outside : depthIn skips above = 0
    · have depth := depthIn_outside (.mk element span children) outside
      rw [if_pos outside, Node.counted]
      by_cases body : (skips && element.kind.isBodyIn (above.head?.map (·.kind))) = true
      · rw [if_pos (by exact body)] at depth
        rw [depth, if_pos body]
        rfl
      · rw [if_neg (by exact body)] at depth
        rw [depth, if_neg body]
        rfl
    · have depth := depthIn_inside (.mk element span children) outside
      rw [if_neg outside, depth]
      rfl

theorem flatMap_lineageOf (skips : Bool) (above : List Node) : (ns : List Node) →
    (Node.lineageOf above ns).flatMap (said skips) =
      if depthIn skips above = 0 then Node.countedOf skips (above.head?.map (·.kind)) ns else []
  | [] => by
    rw [Node.lineageOf, Node.countedOf, ite_self]
    rfl
  | n :: ns => by
    rw [Node.lineageOf, Node.countedOf, List.flatMap_append, flatMap_lineage skips above n,
      flatMap_lineageOf skips above ns]
    split <;> rfl

end

/-- Outside of all bodies no step on the way is one into a body. -/
theorem depthIn_eq_zero_iff (ns : List Node) :
    depthIn true ns = 0 ↔
      ns.IsChain fun inner outer => ¬(inner.kind = .block ∧ outer.kind ∈ bodyOwnerKinds) := by
  induction ns with
  | nil => simp [depthIn]
  | cons n ns ih =>
    cases ns with
    | nil => simp [depthIn, NodeKind.isBodyIn]
    | cons outer ns =>
      rw [List.isChain_cons_cons, ← ih]
      by_cases outside : depthIn true (outer :: ns) = 0
      · rw [depthIn_outside n outside]
        simp [NodeKind.isBodyIn, outside]
      · rw [depthIn_inside n outside]
        simp [outside]

/-- Behind some programs the census is in no node, and it has counted what is to be counted. -/
theorem foldl_add (skips : Bool) (units : List CompilationUnit) :
    units.foldl add { skipsBodies := skips } =
      within skips [] (units.flatMap fun u => u.node.counted skips none) := by
  have run := (follows skips).run [] units
  have tree (n : Node) : n.lineages.flatMap (said skips) = n.counted skips none := by
    rw [Node.lineages_eq_lineage, flatMap_lineage]
    rfl
  simp only [tree, List.nil_append] at run
  exact run

end Census

/-- Without bodies, the nodes that are counted are those that are reached by no step into a body. -/
theorem Node.mem_counted_iff {n m : Node} :
    m ∈ n.counted true none ↔ ∃ path, n.descend? path = some m ∧
      ∀ k < path.length, ∀ outer inner, n.descend? (path.take k) = some outer →
        n.descend? (path.take (k + 1)) = some inner →
          ¬(inner.kind = .block ∧ outer.kind ∈ bodyOwnerKinds) := by
  have counted : (n.lineage []).flatMap (Census.said true) = n.counted true none :=
    Census.flatMap_lineage true [] n
  rw [← counted, List.mem_flatMap]
  constructor
  · rintro ⟨⟨above, m'⟩, place, here⟩
    obtain ⟨path, reached, rfl⟩ := (Node.mem_lineage_iff n).mp place
    unfold Census.said at here
    split at here
    · next outside =>
      obtain rfl := List.mem_singleton.mp here
      rw [List.append_nil, Census.depthIn_eq_zero_iff,
        isChain_cons_ancestors_iff reached] at outside
      exact ⟨path, reached, outside⟩
    · cases here
  · rintro ⟨path, reached, outside⟩
    rw [← isChain_cons_ancestors_iff reached, ← Census.depthIn_eq_zero_iff] at outside
    refine ⟨(n.ancestors path, m), (Node.mem_lineage_iff n).mpr ⟨path, reached, ?_⟩, ?_⟩
    · exact (List.append_nil _).symm
    · rw [Census.said, if_pos outside]
      exact List.mem_singleton_self m

/-- Whatever programs a census is taken of, the number of a kind is that of their nodes of the kind,
all of them or, if bodies are left out, those that are no body and lie in none. Bodies are the
blocks right in a method, a constructor, an accessor or an initializer, and nothing else. The
numbers of all kinds make up the total, and after the programs the census is in no node and in no
body. -/
theorem counts_of_run (skips : Bool) (units : List CompilationUnit) :
    let census := units.foldl Census.add { skipsBodies := skips }
    (∀ kind, census.counts.get kind =
      (units.map fun u => (u.node.counted skips none).countP (·.kind == kind)).sum) ∧
    census.counts.total = (NodeKind.all.map census.counts.get).sum ∧
    (∀ kind, kind ∈ NodeKind.all) ∧ NodeKind.all.Nodup ∧
    (∀ n : Node, n.counted false none = n.entered) ∧
    (∀ n m : Node, m ∈ n.counted true none ↔ ∃ path, n.descend? path = some m ∧
      ∀ k < path.length, ∀ outer inner, n.descend? (path.take k) = some outer →
        n.descend? (path.take (k + 1)) = some inner →
          ¬(inner.kind = .block ∧ outer.kind ∈ [.classMethod, .classConstructor, .propertyGet,
            .propertySet, .initializerBlock])) ∧
    census.skipsBodies = skips ∧ census.around = [] ∧ census.skipDepth = 0 := by
  intro census
  have run : census = _ := Census.foldl_add skips units
  have each (kind : NodeKind) : census.counts.get kind =
      (units.flatMap fun u => u.node.counted skips none).countP (·.kind == kind) := by
    rw [run]
    exact KindCounts.get_ofNodes kind _
  refine ⟨?_, ?_, ?_, ?_, ?_, fun n m => Node.mem_counted_iff, ?_, ?_, ?_⟩
  · intro kind
    rw [each, List.countP_flatMap]
    rfl
  · have all : census.counts.get = _ := funext each
    rw [all, NodeKind.sum_countP, run]
    exact KindCounts.total_ofNodes _
  · intro kind
    cases kind <;> decide
  · decide
  · intro n
    rw [Node.counted_false, Node.entered_eq_preorder]
  all_goals
    rw [run]
    rfl

/-- A class with blocks that are bodies and one inside a body. One of its methods has no body. -/
def manyBodies : String :=
  "class A \x7b A a \x7b get \x7b return a; \x7d \x7d void f() \x7b \x7b \x7d \x7d " ++
    "A() \x7b \x7d void g(); \x7b \x7d \x7d"

/-- A trigger, whose block is no body. -/
def blockOfTrigger : String :=
  "trigger T on A (before insert) \x7b if (a) \x7b return; \x7d \x7d"

/-- The bodies of an accessor, of methods, of a constructor and of an initializer are left out on
request with the block and the statement in them. The blocks of a trigger are no bodies. -/
theorem counts_of_run_triggerBlocks :
    ∃ u u',
      parseSource manyBodies = .ok u ∧ parseSource blockOfTrigger = .ok u' ∧
      [NodeKind.block, .returnStmt, .classMethod].map
        ([u, u'].foldl Census.add { skipsBodies := true }).counts.get = [2, 1, 2] ∧
      [NodeKind.block, .returnStmt, .classMethod].map
        ([u, u'].foldl Census.add { skipsBodies := false }).counts.get = [7, 2, 2] := by
  let numbers (skips : Bool) (u : CompilationUnit) : List Nat :=
    [NodeKind.block, .returnStmt, .classMethod].map fun kind =>
      (u.node.counted skips none).countP (·.kind == kind)
  have first : (parseSource manyBodies).toOption.map (fun u => (numbers true u, numbers false u)) =
      some ([0, 0, 2], [5, 1, 2]) := by
    decide +kernel
  have second :
      (parseSource blockOfTrigger).toOption.map (fun u => (numbers true u, numbers false u)) =
        some ([2, 1, 0], [2, 1, 0]) := by
    decide +kernel
  obtain ⟨u, accepted, found⟩ := exists_ok_of_map first
  obtain ⟨u', accepted', found'⟩ := exists_ok_of_map second
  simp only [numbers, Prod.mk.injEq, List.map_cons, List.map_nil, List.cons.injEq] at found found'
  have each (skips : Bool) := (counts_of_run skips [u, u']).1
  refine ⟨u, u', accepted, accepted', ?_, ?_⟩ <;>
    simp only [List.map_cons, List.map_nil, each, List.sum_cons, List.sum_nil, found, found',
      Nat.add_zero, Nat.zero_add]

end Apex
