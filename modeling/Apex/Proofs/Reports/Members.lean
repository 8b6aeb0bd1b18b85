import Apex.Proofs.Shape.Syntax
import Apex.Proofs.Spans.Order
import Apex.Proofs.Walks.Lineages
import Apex.Report.Outline
import Mathlib.Data.List.Basic

/-!
# Signatures and outlines

A visitor lists the signatures of a program and does not go into bodies; a listener writes the
outline and sees everything. Methods, constructors and properties stand in classes and interfaces
only and never in one another, so both come to the same members in the same order, and the names
that the one has collected are as many as the steps that the other has indented.
-/

namespace Apex

/-! ## Members with signatures -/

/-- The name of the class or interface that a piece of syntax declares. -/
def Element.typeName? : Element → Option String
  | .typeDeclaration (.classType _ head _) => some head.name.value
  | .typeDeclaration (.interfaceType _ head _) => some head.name.value
  | _ => none

/-- The names of the classes and interfaces among the nodes around a node, outermost first. -/
def owners : List Node → List String
  | [] => []
  | n :: above => owners above ++ n.element.typeName?.toList

/-- The header, the sort and the signature of a member that has one. -/
def Element.member? : Element → Option (Header × SignatureKind × String)
  | .method m => some (m.header, .method, m.signature)
  | .constructor c => some (c.header, .constructor, c.signature)
  | .property p => some (p.header, .property, p.signature)
  | _ => none

/-- A member with a signature, as it stands in a program. -/
structure ListedMember where
  /-- What stands before it. -/
  header : Header
  /-- The sort of member. -/
  kind : SignatureKind
  /-- Its signature. -/
  text : String
  /-- The names of the classes and interfaces it is in, outermost first. -/
  owners : List String
  /-- Where it stands. -/
  span : Span

namespace ListedMember

/-- The member at a node, given the nodes that it lies in. -/
def at? (above : List Node) (n : Node) : Option ListedMember :=
  n.element.member?.map fun (header, kind, text) => ⟨header, kind, text, Apex.owners above, n.span⟩

/-- The member in a list of signatures. -/
def signature (m : ListedMember) : Signature :=
  ⟨m.kind, String.intercalate "." m.owners, m.text, m.span⟩

/-- The word in an outline for the sort of member. -/
def word (m : ListedMember) : String :=
  match m.kind with
  | .method => "method"
  | .constructor => "constructor"
  | .property => "property"

/-- The member's line in an outline. -/
def line (m : ListedMember) : String :=
  String.join (List.replicate m.owners.length "  ") ++
    (m.header.modifierText ++ m.word ++ " " ++ m.text)

end ListedMember

/-- The members with signatures of a program, in the order of a walk. -/
def CompilationUnit.listedMembers (u : CompilationUnit) : List ListedMember :=
  u.node.lineages.filterMap fun (above, n) => ListedMember.at? above n

/-- Whether nodes of the kind are members with signatures. -/
def NodeKind.isListed : NodeKind → Bool
  | .classMethod | .classConstructor | .classProperty => true
  | _ => false

theorem Element.isSome_member? (e : Element) : e.member?.isSome = e.kind.isListed := by
  cases e with
  | statement s => cases s <;> rfl
  | typeDeclaration d => cases d <;> rfl
  | accessor a =>
    show false = a.kind.kind.isListed
    cases a.kind <;> rfl
  | literal v => cases v <;> rfl
  | expr e =>
    cases e with
    | literal _ v => cases v <;> rfl
    | unary _ op _ => cases op <;> rfl
    | binary _ _ op _ => cases op <;> rfl
    | _ => rfl
  | _ => rfl

/-! ## Where members are not -/

/-- No member with a signature is in the tree. -/
def Node.Memberless (n : Node) : Prop := ∀ m ∈ n.preorder, m.element.member? = none

namespace Node

theorem memberless_of_isWithin {n : Node} (h : n.IsWithin 1) : n.Memberless := by
  intro m hm
  have low := h m hm
  have none : m.element.member?.isSome = false := by
    rw [Element.isSome_member?]
    cases kind : m.element.kind with
    | classMethod | classConstructor | classProperty =>
      have rank : m.kind.rank = 2 := by
        rw [Node.kind, kind]
        rfl
      omega
    | _ => rfl
  exact Option.not_isSome_iff_eq_none.mp (by rw [none]; exact Bool.false_ne_true)

theorem memberless_mk {element : Element} {span : Span} {children : List Node}
    (self : element.member? = none) (below : ∀ n ∈ children, n.IsWithin 1) :
    (mk element span children).Memberless := by
  intro m hm
  rw [preorder_eq] at hm
  rcases List.mem_cons.mp hm with rfl | hm
  · exact self
  · obtain ⟨child, hc, hm⟩ := List.mem_flatMap.mp hm
    exact memberless_of_isWithin (below child hc) m hm

theorem memberless_parameter (p : Parameter) : p.node.Memberless := by
  refine memberless_mk rfl (List.forall_mem_append.mpr ⟨?_, by simp⟩)
  exact List.forall_mem_map.mpr fun m _ => isWithin_modifier m

theorem memberless_accessor (a : Accessor) : a.node.Memberless := by
  refine memberless_mk rfl (List.forall_mem_append.mpr ⟨?_, ?_⟩)
  · exact List.forall_mem_map.mpr fun m _ => isWithin_modifier m
  · exact isWithin_option fun b => b.isWithin (Nat.le_refl 1)

end Node

/-- Whether a piece of syntax is a trigger or a member other than a type. There are members with
signatures in none of these. -/
def Element.isClosed : Element → Bool
  | .trigger _ | .field _ | .initializer _ | .method _ | .constructor _ | .property _ => true
  | _ => false

theorem Element.isClosed_of_member? {e : Element} (listed : e.member?.isSome = true) :
    e.isClosed = true := by
  cases e <;> first | rfl | cases listed

/-- In triggers and in members other than types there are no members with signatures. -/
theorem Node.IsSyntax.memberless {n : Node} (h : n.IsSyntax) (closed : n.element.isClosed = true) :
    ∀ m ∈ n.children, m.Memberless := by
  have name (i : Ident) : i.identifierNode.Memberless :=
    memberless_of_isWithin (isWithin_identifier i)
  have block (b : Block) : b.node.Memberless := memberless_of_isWithin (b.isWithin (Nat.le_refl 1))
  have header (h : Header) : ∀ m ∈ h.nodes, m.Memberless := fun m hm =>
    memberless_of_isWithin (h.nodes_isWithin m hm)
  rw [h.eq_node]
  cases element : n.element with
  | trigger t =>
    refine List.forall_mem_append.mpr ⟨?_, List.forall_mem_singleton.mpr (block t.body)⟩
    refine List.forall_mem_cons.mpr ⟨name t.name, List.forall_mem_cons.mpr ⟨name t.object, ?_⟩⟩
    refine List.forall_mem_map.mpr fun e _ => ?_
    exact memberless_of_isWithin (isWithin_leaf.mpr (Nat.zero_le 1))
  | field f =>
    refine List.forall_mem_append.mpr ⟨header f.header, List.forall_mem_cons.mpr ⟨?_, ?_⟩⟩
    · exact memberless_of_isWithin f.type.isWithin
    · refine List.forall_mem_map.mpr fun d _ => ?_
      exact memberless_of_isWithin (d.isWithin (Nat.le_refl 1))
  | method m =>
    refine List.forall_mem_append.mpr ⟨List.forall_mem_append.mpr ⟨?_, ?_⟩, ?_⟩
    · refine List.forall_mem_append.mpr ⟨header m.header, fun k hk => ?_⟩
      exact memberless_of_isWithin (isWithin_option TypeRef.isWithin k hk)
    · refine List.forall_mem_cons.mpr ⟨name m.name, List.forall_mem_map.mpr fun p _ => ?_⟩
      exact memberless_parameter p
    · intro k hk
      exact memberless_of_isWithin (isWithin_option (fun b => b.isWithin (Nat.le_refl 1)) k hk)
  | constructor c =>
    refine List.forall_mem_append.mpr ⟨List.forall_mem_append.mpr ⟨header c.header, ?_⟩, ?_⟩
    · refine List.forall_mem_cons.mpr ⟨name c.name, List.forall_mem_map.mpr fun p _ => ?_⟩
      exact memberless_parameter p
    · exact List.forall_mem_singleton.mpr (block c.body)
  | property p =>
    refine List.forall_mem_append.mpr ⟨header p.header, List.forall_mem_cons.mpr ⟨?_, ?_⟩⟩
    · exact memberless_of_isWithin p.type.isWithin
    · refine List.forall_mem_cons.mpr ⟨name p.name, List.forall_mem_map.mpr fun a _ => ?_⟩
      exact memberless_accessor a
  | initializer i => exact List.forall_mem_singleton.mpr (block i.body)
  | _ =>
    rw [element] at closed
    cases closed

/-- Among nodes of trees without members there is none to be listed. -/
theorem ListedMember.filterMap_lineageOf {above ns : List Node} (h : ∀ n ∈ ns, n.Memberless) :
    (Node.lineageOf above ns).filterMap (fun (above, n) => ListedMember.at? above n) = [] := by
  rw [List.filterMap_eq_nil_iff]
  intro (above', n) hn
  have member : n ∈ Node.preorders ns := by
    rw [← Node.lineageOf_snd above ns]
    exact List.mem_map_of_mem hn
  rw [Node.preorders_eq_flatMap] at member
  obtain ⟨root, hr, member⟩ := List.mem_flatMap.mp member
  show (n.element.member?).map _ = none
  rw [h root hr n member]
  rfl

/-! ## The list of signatures -/

/-- The signatures at nodes, given with the nodes they lie in. -/
def signaturesAt (places : List (List Node × Node)) : List Signature :=
  (places.filterMap fun (above, n) => ListedMember.at? above n).map ListedMember.signature

theorem signaturesAt_append (ps qs : List (List Node × Node)) :
    signaturesAt (ps ++ qs) = signaturesAt ps ++ signaturesAt qs := by
  unfold signaturesAt
  rw [List.filterMap_append, List.map_append]

/-- A trigger or a member other than a type is not visited further, and gives a signature if it has
one. -/
theorem visit_closed {n : Node} (kind : NodeKind) (above : List Node)
    (below : EStateM Empty (List String) (List Signature)) (closed : n.element.isClosed = true) :
    signatureVisitor.visit kind n below (owners above) =
      .ok (signaturesAt [(above, n)]) (owners above) := by
  obtain ⟨element, span, children⟩ := n
  cases element <;> first | rfl | cases closed

/-- What lies in a class or interface is visited with its name behind the others. -/
theorem visit_type {n : Node} {name : String} (kind : NodeKind) (above : List Node)
    (below : EStateM Empty (List String) (List Signature)) {found : List Signature}
    (type : n.element.typeName? = some name)
    (run : below (owners (n :: above)) = .ok found (owners (n :: above))) :
    signatureVisitor.visit kind n below (owners above) = .ok found (owners above) := by
  have within (i : Ident) (same : i.value = name) :
      withinType i below (owners above) = .ok found (owners above) := by
    rw [owners, type, Option.toList_some, ← same] at run
    show EStateM.bind below _ (owners above ++ [i.value]) = _
    rw [EStateM.bind, run]
    rfl
  obtain ⟨element, span, children⟩ := n
  cases element with
  | typeDeclaration d =>
    cases d with
    | classType _ head _ => exact within head.name (Option.some.inj type)
    | interfaceType _ head _ => exact within head.name (Option.some.inj type)
    | enumType => cases type
  | _ => cases type

/-- Everything else is passed through. -/
theorem visit_other {n : Node} (kind : NodeKind) (above : List Node)
    (below : EStateM Empty (List String) (List Signature)) {found : List Signature}
    (closed : n.element.isClosed = false) (type : n.element.typeName? = none)
    (run : below (owners above) = .ok found (owners above)) :
    signatureVisitor.visit kind n below (owners above) = .ok found (owners above) := by
  obtain ⟨element, span, children⟩ := n
  cases element with
  | typeDeclaration d => cases d <;> first | exact run | cases type
  | trigger | field | initializer | method | constructor | property => cases closed
  | _ => exact run

theorem owners_cons_none {n : Node} (above : List Node) (type : n.element.typeName? = none) :
    owners (n :: above) = owners above := by
  rw [owners, type]
  exact List.append_nil _

theorem signaturesAt_of_not_isClosed {n : Node} (above : List Node)
    (closed : n.element.isClosed = false) : signaturesAt [(above, n)] = [] := by
  have none : n.element.member? = none := by
    refine Option.not_isSome_iff_eq_none.mp fun listed => ?_
    rw [Element.isClosed_of_member? listed] at closed
    cases closed
  unfold signaturesAt
  rw [List.filterMap_cons_none (by show (n.element.member?).map _ = _; rw [none]; rfl)]
  rfl

mutual

/-- In the given nodes, the visitor lists the members of a tree and comes back to the names of the
types around it. -/
theorem accept_signatures (above : List Node) : (n : Node) → n.IsSyntax →
    n.accept signatureVisitor (owners above) = .ok (signaturesAt (n.lineage above)) (owners above)
  | .mk element span children, syntactic => by
    have split : signaturesAt ((Node.mk element span children).lineage above) =
        signaturesAt [(above, .mk element span children)] ++
          signaturesAt (Node.lineageOf (.mk element span children :: above) children) := by
      rw [Node.lineage, ← signaturesAt_append]
      rfl
    have below := acceptAll_signatures (.mk element span children :: above)
      (.mk element span children) [] children syntactic.children
    rw [Node.accept, split]
    cases closed : element.isClosed with
    | true =>
      have none : signaturesAt (Node.lineageOf (.mk element span children :: above) children) = [] :=
        congrArg (List.map ListedMember.signature)
          (ListedMember.filterMap_lineageOf (syntactic.memberless closed))
      rw [none, List.append_nil]
      exact visit_closed _ above _ closed
    | false =>
      rw [signaturesAt_of_not_isClosed (n := .mk element span children) above closed,
        List.nil_append]
      cases type : element.typeName? with
      | none =>
        rw [owners_cons_none (n := .mk element span children) above type] at below
        exact visit_other (n := .mk element span children) _ above _ closed type below
      | some name => exact visit_type (n := .mk element span children) _ above _ type below

theorem acceptAll_signatures (above : List Node) (parent : Node) (found : List Signature) :
    (ns : List Node) → Node.AllSyntax ns →
    Node.acceptAll signatureVisitor parent found ns (owners above) =
      .ok (found ++ signaturesAt (Node.lineageOf above ns)) (owners above)
  | [], _ => by
    rw [Node.acceptAll, Node.lineageOf]
    exact congrArg (EStateM.Result.ok · (owners above)) (List.append_nil _).symm
  | n :: ns, syntactic => by
    obtain ⟨first, others⟩ := Node.allSyntax_cons.mp syntactic
    have head := accept_signatures above n first
    have tail := acceptAll_signatures above parent (found ++ signaturesAt (n.lineage above)) ns others
    rw [Node.acceptAll, Node.lineageOf, signaturesAt_append, ← List.append_assoc, ← tail]
    have wants : signatureVisitor.wantsMore parent found (owners above) =
        .ok true (owners above) := rfl
    have joined (next : List Signature) : signatureVisitor.combine found next (owners above) =
        .ok (found ++ next) (owners above) := rfl
    simp only [wants, head, joined]

end

/-- The signatures of a program are those of its members. After it the names of types are as they
were before, so the next program is visited like the first. -/
theorem CompilationUnit.evaluate_signatures (u : CompilationUnit) :
    u.node.accept signatureVisitor [] =
      .ok (u.listedMembers.map ListedMember.signature) [] := by
  have run := accept_signatures [] u.node (.unit u)
  rw [← Node.lineages_eq_lineage] at run
  exact run

/-! ## What an outline says of a line -/

namespace Outline

/-- The words of a line. -/
def words (line : List Char) : List (List Char) := (line.splitOn ' ').filter (!·.isEmpty)

/-- The words that modifiers are made of. -/
def modifierWords : List (List Char) := Modifier.all.flatMap fun m => words m.text.toList

/-- The first word of a line that belongs to no modifier; it says what the line is about. -/
def subject (line : String) : Option (List Char) :=
  ((words line.toList).dropWhile (modifierWords.contains ·)).head?

/-- Whether a line is about a method, a constructor or a property. -/
def isMemberLine (line : String) : Bool :=
  ["method", "constructor", "property"].any fun word => subject line == some word.toList

theorem words_append (line rest : List Char) :
    words (line ++ ' ' :: rest) = words line ++ words rest := by
  unfold words List.splitOn
  rw [List.splitOnP_append_cons line rest (by rfl), List.filter_append]

/-- Steps of indentation are no words. -/
theorem words_indent (depth : Nat) (line : List Char) :
    words ((String.join (List.replicate depth "  ")).toList ++ line) = words line := by
  induction depth with
  | zero => rfl
  | succ depth ih =>
    have step : (String.join (List.replicate (depth + 1) "  ")).toList ++ line =
        [] ++ ' ' :: ([] ++ ' ' :: ((String.join (List.replicate depth "  ")).toList ++ line)) := by
      rw [List.replicate_succ, String.join_cons]
      simp
    rw [step, words_append, words_append, ih]
    rfl

theorem words_modifier (m : Modifier) {word : List Char} (h : word ∈ words m.text.toList) :
    modifierWords.contains word = true := by
  have listed : m ∈ Modifier.all := by cases m <;> decide
  exact List.contains_iff_mem.mpr (List.mem_flatMap.mpr ⟨m, listed, h⟩)

/-- Modifiers are passed over. -/
theorem dropWhile_modifierText (modifiers : List (Spanned Modifier)) (line : List Char) :
    (words ((modifierText modifiers).toList ++ line)).dropWhile (modifierWords.contains ·) =
      (words line).dropWhile (modifierWords.contains ·) := by
  induction modifiers with
  | nil => rfl
  | cons m modifiers ih =>
    have first : (modifierText (m :: modifiers)).toList ++ line =
        m.value.text.toList ++ ' ' :: ((modifierText modifiers).toList ++ line) := by
      unfold modifierText
      rw [List.map_cons, String.join_cons]
      simp
    rw [first, words_append, List.dropWhile_append_of_pos fun word h => words_modifier m.value h, ih]

/-- Behind its indentation and its modifiers a line says what it is about. -/
theorem subject_eq (depth : Nat) (modifiers : List (Spanned Modifier)) {word rest : List Char}
    {text : String} (said : text.toList = (modifierText modifiers).toList ++ (word ++ ' ' :: rest))
    (plain : words word = [word]) (fresh : ¬modifierWords.contains word = true) :
    subject (String.join (List.replicate depth "  ") ++ text) = some word := by
  unfold subject
  rw [String.toList_append, words_indent, said, dropWhile_modifierText, words_append, plain,
    List.singleton_append, List.dropWhile_cons_of_neg fresh]
  rfl

end Outline

/-! ## The lines of an outline -/

/-- What a piece of syntax adds to an outline, without indentation. -/
def Element.outlineText? : Element → Option String
  | .typeDeclaration (.classType _ head _) => some head.outlineText
  | .typeDeclaration (.interfaceType _ head _) => some head.outlineText
  | .typeDeclaration (.enumType _ e) => some e.outlineText
  | .trigger t => some t.outlineText
  | .field f => some f.outlineText
  | .method m => some (memberOutlineText m.header .method m.signature)
  | .constructor c => some (memberOutlineText c.header .constructor c.signature)
  | .property p => some (memberOutlineText p.header .property p.signature)
  | .initializer i => some i.outlineText
  | _ => none

namespace Outline

/-- The line of a node, given the nodes that it lies in. -/
def line? (above : List Node) (n : Node) : Option String :=
  n.element.outlineText?.map (String.join (List.replicate (owners above).length "  ") ++ ·)

/-- The outline in the given nodes, when it has some lines. -/
def within (above : List Node) (lines : List String) : Outline :=
  ⟨lines.toArray, (owners above).length⟩

/-- Lines are as deep as there are classes and interfaces around their nodes. -/
theorem enter_within (above : List Node) (lines : List String) (n : Node) :
    (within above lines).enter n.element =
      within (n :: above) (lines ++ (line? above n).toList) := by
  obtain ⟨element, span, children⟩ := n
  cases element with
  | typeDeclaration d =>
    cases d <;>
      simp [within, line?, owners, enter, openType, addLine, Element.outlineText?,
        Element.typeName?, Node.element]
  | _ =>
    simp [within, line?, owners, enter, addLine, Element.outlineText?, Element.typeName?,
      Node.element]

theorem leave_within (above : List Node) (lines : List String) (n : Node) :
    (within (n :: above) lines).leave n.element = within above lines := by
  obtain ⟨element, span, children⟩ := n
  cases element with
  | typeDeclaration d =>
    cases d <;> simp [within, owners, leave, closeType, Element.typeName?, Node.element]
  | _ => simp [within, owners, leave, Element.typeName?, Node.element]

theorem follows : outlineListener.Follows within fun (above, n) => (line? above n).toList where
  arrive above lines n := by
    show EStateM.Result.ok () ((within above lines).enter n.element) = _
    rw [enter_within]
  leave above lines n := by
    show EStateM.Result.ok () ((within (n :: above) lines).leave n.element) = _
    rw [leave_within]

/-- A line is about a member with a signature exactly if it is that member's line. -/
theorem isMemberLine_of_line? {above : List Node} {n : Node} {line : String}
    (h : line? above n = some line) : isMemberLine line = n.element.member?.isSome := by
  obtain ⟨text, added, rfl⟩ := Option.map_eq_some_iff.mp h
  have about (modifiers : List (Spanned Modifier)) (word rest : List Char)
      (said : text.toList = (modifierText modifiers).toList ++ (word ++ ' ' :: rest))
      (plain : words word = [word]) (fresh : ¬modifierWords.contains word = true) :=
    subject_eq (owners above).length modifiers said plain fresh
  unfold isMemberLine
  obtain ⟨element, span, children⟩ := n
  cases element with
  | typeDeclaration d =>
    cases d with
    | classType _ head _ =>
      cases added
      rw [about head.header.modifiers "class".toList
        (head.name.value ++ TypeRef.listAfter " extends " head.base.toList ++
          TypeRef.listAfter " implements " head.interfaces).toList
        (by simp [ClassHead.outlineText, Header.modifierText]) (by decide) (by decide)]
      rfl
    | interfaceType _ head _ =>
      cases added
      rw [about head.header.modifiers "interface".toList
        (head.name.value ++ TypeRef.listAfter " extends " head.bases).toList
        (by simp [InterfaceHead.outlineText, Header.modifierText]) (by decide) (by decide)]
      rfl
    | enumType _ e =>
      cases added
      rw [about e.header.modifiers "enum".toList
        (e.name.value ++ " \x7b " ++ String.intercalate ", " (e.constants.map (·.value)) ++
          " \x7d").toList
        (by simp [EnumDeclaration.outlineText, Header.modifierText]) (by decide) (by decide)]
      rfl
  | trigger t =>
    cases added
    rw [about [] "trigger".toList (t.name.value ++ " on " ++ t.object.value ++ " (" ++
        String.intercalate ", " (t.events.map (·.value.text)) ++ ")").toList
      (by simp [Trigger.outlineText, modifierText]) (by decide) (by decide)]
    rfl
  | field f =>
    cases added
    rw [about f.header.modifiers "field".toList (f.type.text ++ " " ++
        String.intercalate ", " (f.declarators.map (·.name.value))).toList
      (by simp [Field.outlineText, Header.modifierText]) (by decide) (by decide)]
    rfl
  | method m =>
    cases added
    rw [about m.header.modifiers "method".toList m.signature.toList
      (by simp [memberOutlineText, Header.modifierText, SignatureKind.word]) (by decide) (by decide)]
    rfl
  | constructor c =>
    cases added
    rw [about c.header.modifiers "constructor".toList c.signature.toList
      (by simp [memberOutlineText, Header.modifierText, SignatureKind.word]) (by decide) (by decide)]
    rfl
  | property p =>
    cases added
    rw [about p.header.modifiers "property".toList p.signature.toList
      (by simp [memberOutlineText, Header.modifierText, SignatureKind.word]) (by decide) (by decide)]
    rfl
  | initializer i =>
    cases added
    have subject : subject (String.join (List.replicate (owners above).length "  ") ++
        i.outlineText) = some "initializer".toList := by
      unfold subject
      rw [String.toList_append, words_indent]
      cases stat : i.isStatic <;> rw [Initializer.outlineText, stat] <;> decide
    rw [subject]
    rfl
  | _ => cases added

/-- The lines about members with signatures are made of what the signatures say. -/
theorem filter_line? (above : List Node) (n : Node) :
    (line? above n).toList.filter isMemberLine =
      ((ListedMember.at? above n).map ListedMember.line).toList := by
  cases listed : n.element.member? with
  | none =>
    have none : ListedMember.at? above n = none := by
      rw [ListedMember.at?, listed]
      rfl
    rw [none]
    refine List.filter_eq_nil_iff.mpr fun line h => ?_
    rw [isMemberLine_of_line? (Option.mem_toList.mp h), listed]
    exact Bool.false_ne_true
  | some member =>
    have added : line? above n = (ListedMember.at? above n).map ListedMember.line := by
      obtain ⟨element, span, children⟩ := n
      cases element <;> first | rfl | cases listed
    rw [← added]
    refine List.filter_eq_self.mpr fun line h => ?_
    rw [isMemberLine_of_line? (Option.mem_toList.mp h), listed]
    rfl

/-- Behind some programs the outline is in no type, and it has the lines of their nodes. -/
theorem foldl_add (units : List CompilationUnit) :
    units.foldl add {} =
      within [] (units.flatMap fun u => u.node.lineages.filterMap fun (above, n) => line? above n) := by
  have run := follows.run [] units
  simp only [List.filterMap_eq_flatMap_toList]
  exact run

end Outline

/-! ## Both reports -/

/-- There is one member to be listed for each node of the three kinds, and it is where the node
is. -/
theorem CompilationUnit.listedMembers_span (u : CompilationUnit) :
    u.listedMembers.map (·.span) = (u.node.entered.filter (·.kind.isListed)).map (·.span) := by
  rw [listedMembers, ← Node.lineages_snd, List.filter_map, List.map_map, List.map_filterMap,
    ← List.filterMap_eq_map, List.filterMap_filter]
  refine List.filterMap_congr fun (above, n) _ => ?_
  have listed : n.kind.isListed = n.element.member?.isSome := n.element.isSome_member?.symm
  show (ListedMember.at? above n).map (·.span) = if n.kind.isListed = true then some n.span else none
  rw [listed, ListedMember.at?]
  cases n.element.member? <;> rfl

/-- No member with a signature lies in another one. -/
theorem CompilationUnit.apart_members (u : CompilationUnit) :
    u.node.Apart fun n => n.element.member?.isSome := by
  intro n hn listed k hk
  obtain ⟨child, hc, hk⟩ := List.mem_flatMap.mp hk
  have closed := Element.isClosed_of_member? listed
  have none := ((Node.IsSyntax.unit u).preorder hn).memberless closed child hc k hk
  show k.element.member?.isSome = false
  rw [none]
  rfl

/-- The members of an accepted text come in the order of the text, one behind the other. -/
theorem CompilationUnit.listedMembers_pairwise {source : String} {u : CompilationUnit}
    (accepted : parseSource source = .ok u) :
    u.listedMembers.Pairwise fun m k => m.span.stop ≤ k.span.start := by
  refine reports_pairwise_of_parseSource accepted u.apart_members fun {above n m} h => ?_
  obtain ⟨member, listed, rfl⟩ := Option.map_eq_some_iff.mp h
  exact ⟨by rw [listed]; rfl, rfl⟩

/-- Whatever programs are shown to one visitor for signatures and to one outline, the visitor lists
for each program its members with signatures: each method, constructor and property of the tree
once, at its place, with the names of the classes and interfaces around it. The outline has a line
for each of them in the same order, as deep as there are names, made of the modifiers, the word for
the sort and the signature, and it has no other lines about methods, constructors or properties.
Both are in no type afterwards. -/
theorem signatures_of_run (units : List CompilationUnit) :
    (units.mapM fun u : CompilationUnit => u.node.accept signatureVisitor) [] =
        EStateM.Result.ok (units.map CompilationUnit.signatures) [] ∧
      (units.foldl Outline.add {}).depth = 0 ∧
      (units.foldl Outline.add {}).lines.toList.filter Outline.isMemberLine =
        units.flatMap (·.listedMembers.map ListedMember.line) ∧
      ∀ u ∈ units,
        u.signatures = u.listedMembers.map ListedMember.signature ∧
        u.listedMembers.map (·.span) = (u.node.entered.filter (·.kind.isListed)).map (·.span) ∧
        ∀ source, parseSource source = .ok u →
          u.signatures.Pairwise fun s t => s.span.stop ≤ t.span.start := by
  have each (u : CompilationUnit) :
      u.signatures = u.listedMembers.map ListedMember.signature := by
    unfold CompilationUnit.signatures Node.evaluate
    rw [u.evaluate_signatures]
  refine ⟨?_, ?_, ?_, fun u _ => ⟨each u, u.listedMembers_span, ?_⟩⟩
  · induction units with
    | nil => rfl
    | cons u units ih =>
      rw [List.mapM_cons, List.map_cons, each]
      simp only [bind, EStateM.bind, u.evaluate_signatures, ih]
      rfl
  · rw [Outline.foldl_add]
    rfl
  · rw [Outline.foldl_add]
    show List.filter _ (List.flatMap _ units) = _
    rw [List.filter_flatMap]
    refine List.flatMap_congr fun u _ => ?_
    rw [CompilationUnit.listedMembers, List.map_filterMap, List.filterMap_eq_flatMap_toList,
      List.filterMap_eq_flatMap_toList, List.filter_flatMap]
    exact List.flatMap_congr fun (above, n) _ => Outline.filter_line? above n
  · intro source accepted
    rw [each, List.pairwise_map]
    exact CompilationUnit.listedMembers_pairwise accepted

end Apex
