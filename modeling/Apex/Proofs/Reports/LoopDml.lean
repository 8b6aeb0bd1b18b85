import Apex.Proofs.Shape.Syntax
import Apex.Proofs.Spans.Order
import Apex.Proofs.Walks.Lineages
import Apex.Report.LoopDml
import Mathlib.Data.List.Basic

/-!
# What is found in loops

The check counts the loops that the walk is in. So it finds an operation on records exactly if the
operation lies in a loop of its own program, and it finds the operations of a program in the order
of the text, whatever it has been shown before.
-/

namespace Apex

/-! ## What is to be found -/

/-- The kinds of loops. -/
def loopKinds : List NodeKind := [.forStmt, .forEachStmt, .whileStmt, .doWhileStmt]

/-- The operations on records, with the words that they are called by. -/
inductive Element.IsDml : Element → String → Prop where
  | insert (s : Span) (target : Expr) : IsDml (.statement (.dml s .insert target)) "insert"
  | update (s : Span) (target : Expr) : IsDml (.statement (.dml s .update target)) "update"
  | delete (s : Span) (target : Expr) : IsDml (.statement (.dml s .delete target)) "delete"
  | undelete (s : Span) (target : Expr) : IsDml (.statement (.dml s .undelete target)) "undelete"
  | upsert (s : Span) (target : Expr) (key : Option QualifiedName) :
    IsDml (.statement (.upsert s target key)) "upsert"
  | merge (s : Span) (master duplicate : Expr) :
    IsDml (.statement (.merge s master duplicate)) "merge"

/-- What is to be found at a node, given the nodes that it lies in. -/
def LoopDml.at? (above : List Node) (n : Node) : Option LoopDml :=
  if above.any (loopKinds.contains ·.kind) then
    match n.element with
    | .statement (.dml _ .insert _) => some ⟨"insert", n.span⟩
    | .statement (.dml _ .update _) => some ⟨"update", n.span⟩
    | .statement (.dml _ .delete _) => some ⟨"delete", n.span⟩
    | .statement (.dml _ .undelete _) => some ⟨"undelete", n.span⟩
    | .statement (.upsert ..) => some ⟨"upsert", n.span⟩
    | .statement (.merge ..) => some ⟨"merge", n.span⟩
    | _ => none
  else none

/-- What is to be found in a program, in the order of a walk. -/
def CompilationUnit.loopDml (u : CompilationUnit) : List LoopDml :=
  u.node.lineages.filterMap fun (above, n) => LoopDml.at? above n

/-! ## What the check knows -/

theorem NodeKind.contains_loopKinds (kind : NodeKind) : loopKinds.contains kind = kind.isLoop := by
  cases kind <;> rfl

theorem Element.dmlWord?_eq_some_iff {e : Element} {word : String} :
    e.dmlWord? = some word ↔ e.IsDml word := by
  constructor
  · intro found
    cases e with
    | statement s =>
      cases s with
      | dml s op target =>
        cases op <;> cases found
        · exact .insert s target
        · exact .update s target
        · exact .delete s target
        · exact .undelete s target
      | upsert s target key =>
        cases found
        exact .upsert s target key
      | merge s master duplicate =>
        cases found
        exact .merge s master duplicate
      | _ => cases found
    | _ => cases found
  · intro h
    cases h <;> rfl

theorem LoopDml.at?_eq (above : List Node) (n : Node) :
    LoopDml.at? above n =
      if above.any (·.kind.isLoop) then n.element.dmlWord?.map fun word => ⟨word, n.span⟩
      else none := by
  unfold LoopDml.at?
  simp only [NodeKind.contains_loopKinds]
  refine if_congr Iff.rfl ?_ rfl
  cases n.element with
  | statement s =>
    cases s with
    | dml s op target => cases op <;> rfl
    | _ => rfl
  | _ => rfl

/-- Whether nodes of the kind are operations on records. -/
def NodeKind.isDml : NodeKind → Bool
  | .dmlOperation | .dmlUpsert | .dmlMerge => true
  | _ => false

/-- Exactly the operations on records have a word. -/
theorem Element.isSome_dmlWord? (e : Element) : e.dmlWord?.isSome = e.kind.isDml := by
  cases e with
  | statement s => cases s <;> rfl
  | typeDeclaration d => cases d <;> rfl
  | accessor a =>
    show false = a.kind.kind.isDml
    cases a.kind <;> rfl
  | literal v => cases v <;> rfl
  | expr e =>
    cases e with
    | literal _ v => cases v <;> rfl
    | unary _ op _ => cases op <;> rfl
    | binary _ _ op _ => cases op <;> rfl
    | _ => rfl
  | _ => rfl

theorem Element.exists_isDml_iff (e : Element) :
    (∃ word, e.IsDml word) ↔
      e.kind = .dmlOperation ∨ e.kind = .dmlUpsert ∨ e.kind = .dmlMerge := by
  simp only [← dmlWord?_eq_some_iff, ← Option.isSome_iff_exists, isSome_dmlWord?]
  cases e.kind <;> decide

namespace LoopCheck

/-- The check in the given nodes, with what it has found so far. -/
def within (above : List Node) (found : List LoopDml) : LoopCheck :=
  ⟨above.countP (·.kind.isLoop), found.toArray⟩

theorem dmlWord?_of_isLoop {e : Element} (loop : e.kind.isLoop = true) : e.dmlWord? = none := by
  have none : e.dmlWord?.isSome = false := by
    rw [e.isSome_dmlWord?]
    cases kind : e.kind <;> rw [kind] at loop <;> first | rfl | cases loop
  exact Option.not_isSome_iff_eq_none.mp (by rw [none]; exact Bool.false_ne_true)

/-- The number of loops that the check has counted is that of the loops around the node. -/
theorem enter_within (above : List Node) (found : List LoopDml) (n : Node) :
    (within above found).enter n =
      within (n :: above) (found ++ (LoopDml.at? above n).toList) := by
  unfold enter
  by_cases loop : n.kind.isLoop = true
  · have silent : LoopDml.at? above n = none := by
      rw [LoopDml.at?_eq, dmlWord?_of_isLoop loop]
      exact ite_self none
    rw [if_pos loop, silent, Option.toList_none, List.append_nil]
    have count : (n :: above).countP (·.kind.isLoop) = above.countP (·.kind.isLoop) + 1 :=
      List.countP_cons_of_pos loop
    unfold within
    rw [count]
  · have same : (n :: above).countP (·.kind.isLoop) = above.countP (·.kind.isLoop) :=
      List.countP_cons_of_neg loop
    have inLoop : 0 < (within above found).depth ↔ above.any (·.kind.isLoop) = true := by
      show 0 < above.countP (·.kind.isLoop) ↔ _
      rw [List.countP_pos_iff, List.any_eq_true]
    rw [if_neg loop]
    cases word : n.element.dmlWord? with
    | none =>
      have silent : LoopDml.at? above n = none := by
        rw [LoopDml.at?_eq, word]
        exact ite_self none
      rw [silent, Option.toList_none, List.append_nil]
      simp only [within, same]
    | some word' =>
      by_cases inside : above.any (·.kind.isLoop) = true
      · have said : LoopDml.at? above n = some ⟨word', n.span⟩ := by
          rw [LoopDml.at?_eq, if_pos inside, word]
          rfl
        dsimp only
        rw [if_pos (inLoop.mpr inside), said]
        simp only [within, same, Option.toList_some, List.push_toArray]
      · have silent : LoopDml.at? above n = none := by
          rw [LoopDml.at?_eq, if_neg inside]
        dsimp only
        rw [if_neg (fun h => inside (inLoop.mp h)), silent, Option.toList_none, List.append_nil]
        simp only [within, same]

theorem leave_within (above : List Node) (found : List LoopDml) (n : Node) :
    (within (n :: above) found).leave n = within above found := by
  unfold leave
  by_cases loop : n.kind.isLoop = true
  · have count : (n :: above).countP (·.kind.isLoop) = above.countP (·.kind.isLoop) + 1 :=
      List.countP_cons_of_pos loop
    rw [if_pos loop]
    unfold within
    rw [count]
    rfl
  · have count : (n :: above).countP (·.kind.isLoop) = above.countP (·.kind.isLoop) :=
      List.countP_cons_of_neg loop
    rw [if_neg loop]
    unfold within
    rw [count]

theorem follows : loopListener.Follows within fun (above, n) => (LoopDml.at? above n).toList where
  arrive above found n := by
    show EStateM.Result.ok () ((within above found).enter n) = _
    rw [enter_within]
  leave above found n := by
    show EStateM.Result.ok () ((within (n :: above) found).leave n) = _
    rw [leave_within]

/-- Behind some programs the check is in no loop, and it has found what is to be found in each. -/
theorem foldl_add (units : List CompilationUnit) :
    units.foldl add {} = within [] (units.flatMap CompilationUnit.loopDml) := by
  have run := follows.run [] units
  simp only [← List.filterMap_eq_flatMap_toList, List.nil_append] at run
  exact run

end LoopCheck

/-! ## Where operations are found -/

theorem LoopDml.at?_eq_some_iff {above : List Node} {n : Node} {f : LoopDml} :
    LoopDml.at? above n = some f ↔
      (∃ loop ∈ above, loop.kind ∈ loopKinds) ∧ n.element.IsDml f.operation ∧ n.span = f.span := by
  have inLoop : above.any (·.kind.isLoop) = true ↔ ∃ loop ∈ above, loop.kind ∈ loopKinds := by
    simp only [← NodeKind.contains_loopKinds, List.any_eq_true, List.contains_iff_mem]
  rw [LoopDml.at?_eq, ← inLoop]
  by_cases inside : above.any (·.kind.isLoop) = true
  · rw [if_pos inside, Option.map_eq_some_iff]
    constructor
    · rintro ⟨word, found, rfl⟩
      exact ⟨inside, Element.dmlWord?_eq_some_iff.mp found, rfl⟩
    · rintro ⟨-, found, span⟩
      exact ⟨f.operation, Element.dmlWord?_eq_some_iff.mpr found, by rw [span]⟩
  · rw [if_neg inside]
    exact ⟨nofun, fun h => absurd h.1 inside⟩

/-- A find is an operation on records with its word and span, and a loop is on the way to it. -/
theorem CompilationUnit.mem_loopDml_iff (u : CompilationUnit) (f : LoopDml) :
    f ∈ u.loopDml ↔ ∃ path n, u.node.descend? path = some n ∧
      n.element.IsDml f.operation ∧ n.span = f.span ∧
      ∃ k < path.length, ∃ loop, u.node.descend? (path.take k) = some loop ∧
        loop.kind ∈ loopKinds := by
  rw [loopDml, List.mem_filterMap]
  constructor
  · rintro ⟨⟨above, n⟩, member, found⟩
    rw [Node.lineages_eq_lineage, Node.mem_lineage_iff] at member
    obtain ⟨path, reached, rfl⟩ := member
    rw [List.append_nil] at found
    obtain ⟨⟨loop, around, isLoop⟩, word, span⟩ := LoopDml.at?_eq_some_iff.mp found
    obtain ⟨k, inside, on⟩ := (Node.mem_ancestors_iff reached).mp around
    exact ⟨path, n, reached, word, span, k, inside, loop, on, isLoop⟩
  · rintro ⟨path, n, reached, word, span, k, inside, loop, on, isLoop⟩
    refine ⟨(u.node.ancestors path, n), ?_, ?_⟩
    · rw [Node.lineages_eq_lineage, Node.mem_lineage_iff]
      exact ⟨path, reached, (List.append_nil _).symm⟩
    · rw [LoopDml.at?_eq_some_iff]
      exact ⟨⟨loop, (Node.mem_ancestors_iff reached).mpr ⟨k, inside, on⟩, isLoop⟩, word, span⟩

/-- Below an operation on records there are only expressions and names. -/
theorem Node.IsSyntax.isWithin_of_dml {n : Node} (h : n.IsSyntax)
    (dml : n.element.dmlWord?.isSome = true) : ∀ m ∈ n.children, m.IsWithin 0 := by
  rw [h.eq_node]
  cases element : n.element with
  | statement s =>
    rw [element] at dml
    cases s with
    | dml _ op target => exact List.forall_mem_singleton.mpr target.isWithin
    | upsert _ target key =>
      exact List.forall_mem_cons.mpr ⟨target.isWithin, isWithin_option QualifiedName.isWithin⟩
    | merge _ master duplicate => simp [Element.node, Statement.node, Node.children]
    | _ => cases dml
  | _ =>
    rw [element] at dml
    cases dml

/-- No operation on records lies in another one. -/
theorem CompilationUnit.apart_dml (u : CompilationUnit) :
    u.node.Apart fun n => n.element.dmlWord?.isSome := by
  intro n hn dml k hk
  obtain ⟨child, hc, hk⟩ := List.mem_flatMap.mp hk
  have within := ((Node.IsSyntax.unit u).preorder hn).isWithin_of_dml dml child hc k hk
  show k.element.dmlWord?.isSome = false
  rw [Element.isSome_dmlWord?]
  cases kind : k.element.kind with
  | dmlOperation | dmlUpsert | dmlMerge =>
    have rank : k.kind.rank = 1 := by
      rw [Node.kind, kind]
      rfl
    omega
  | _ => rfl

/-- The finds in an accepted text come in the order of the text, one behind the other. -/
theorem CompilationUnit.loopDml_pairwise {source : String} {u : CompilationUnit}
    (accepted : parseSource source = .ok u) :
    u.loopDml.Pairwise fun f g => f.span.stop ≤ g.span.start := by
  refine reports_pairwise_of_parseSource accepted u.apart_dml fun {above n f} h => ?_
  obtain ⟨-, word, span⟩ := LoopDml.at?_eq_some_iff.mp h
  exact ⟨by rw [Element.dmlWord?_eq_some_iff.mpr word]; rfl, span.symm⟩

/-- Whatever programs are run through the check, it finds in each what lies in a loop there: the
operations on records, which are nodes of three kinds, that have one of the four loops among the
nodes on the way to them, each once with its word and span, in the order of the text. Then it is in
no loop any more. -/
theorem findings_of_run (units : List CompilationUnit) :
    (units.foldl LoopCheck.add {}).findings.toList = units.flatMap CompilationUnit.loopDml ∧
      (units.foldl LoopCheck.add {}).depth = 0 ∧
      (∀ e : Element, (∃ word, e.IsDml word) ↔
        e.kind = .dmlOperation ∨ e.kind = .dmlUpsert ∨ e.kind = .dmlMerge) ∧
      ∀ u ∈ units,
        (∀ f, f ∈ u.loopDml ↔ ∃ path n, u.node.descend? path = some n ∧
          n.element.IsDml f.operation ∧ n.span = f.span ∧
          ∃ k < path.length, ∃ loop, u.node.descend? (path.take k) = some loop ∧
            loop.kind ∈ [.forStmt, .forEachStmt, .whileStmt, .doWhileStmt]) ∧
        ∀ source, parseSource source = .ok u →
          u.loopDml.Pairwise fun f g => f.span.stop ≤ g.span.start := by
  rw [LoopCheck.foldl_add]
  refine ⟨rfl, rfl, Element.exists_isDml_iff, fun u _ => ⟨u.mem_loopDml_iff, ?_⟩⟩
  intro source accepted
  exact CompilationUnit.loopDml_pairwise accepted

/-- A program with loops. Its last operation is in none of them. -/
def insertOutside : String :=
  "class A \x7b \x7b for (A b : a) \x7b update b; \x7d do \x7b merge a a; \x7d while (a); " ++
    "insert a; \x7d \x7d"

/-- A program with a loop. Its first operation stands before it. -/
def deleteBefore : String := "class B \x7b \x7b delete a; while (a) upsert a K; \x7d \x7d"

/-- The operations outside the loops of two programs are not found. -/
theorem findings_of_run_outsideToo :
    ∃ u u', parseSource insertOutside = .ok u ∧ parseSource deleteBefore = .ok u' ∧
      ([u, u'].foldl LoopCheck.add {}).findings.toList =
        [⟨"update", ⟨28, 37⟩⟩, ⟨"merge", ⟨45, 55⟩⟩, ⟨"upsert", ⟨32, 43⟩⟩] := by
  have first : (parseSource insertOutside).toOption.map (fun u =>
      (u.node.lineage []).filterMap fun (above, n) => LoopDml.at? above n) =
      some [⟨"update", ⟨28, 37⟩⟩, ⟨"merge", ⟨45, 55⟩⟩] := by
    decide +kernel
  have second : (parseSource deleteBefore).toOption.map (fun u =>
      (u.node.lineage []).filterMap fun (above, n) => LoopDml.at? above n) =
      some [⟨"upsert", ⟨32, 43⟩⟩] := by
    decide +kernel
  obtain ⟨u, accepted, found⟩ := exists_ok_of_map first
  obtain ⟨u', accepted', found'⟩ := exists_ok_of_map second
  refine ⟨u, u', accepted, accepted', ?_⟩
  rw [(findings_of_run [u, u']).1, List.flatMap_cons, List.flatMap_singleton]
  unfold CompilationUnit.loopDml
  rw [Node.lineages_eq_lineage, Node.lineages_eq_lineage, found, found']
  rfl

end Apex
