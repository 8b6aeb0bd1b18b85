import Apex.Proofs.Reading.Types
import Apex.Proofs.Spans.Rows

/-!
# Where types and headers sit

The nodes of types, annotations and headers sit on the tokens they are read from. The annotations
and modifiers of a header are kept apart and put back in order by where they start; on a sorted row
that is the order in which they were read.
-/

namespace Apex

/-! ## Lists of nodes -/

theorem TypeRef.nodes_eq_map (ts : List TypeRef) : TypeRef.nodes ts = ts.map TypeRef.node := by
  induction ts with
  | nil => rfl
  | cons t ts ih => rw [TypeRef.nodes, ih, List.map_cons]

theorem AnnotationElement.nodes_eq_map (es : List AnnotationElement) :
    AnnotationElement.nodes es = es.map AnnotationElement.node := by
  induction es with
  | nil => rfl
  | cons e es ih => rw [AnnotationElement.nodes, ih, List.map_cons]

theorem AnnotationValue.nodes_eq_map (vs : List AnnotationValue) :
    AnnotationValue.nodes vs = vs.map AnnotationValue.node := by
  induction vs with
  | nil => rfl
  | cons v vs ih => rw [AnnotationValue.nodes, ih, List.map_cons]

theorem TypeRef.node_span (t : TypeRef) : t.node.span = t.span := by
  cases t
  rfl

theorem AnnotationMark.node_span (a : AnnotationMark) : a.node.span = a.span := by
  cases a
  rfl

theorem AnnotationValue.node_span (v : AnnotationValue) : v.node.span = v.span := by
  cases v with
  | nested a => exact a.node_span
  | _ => rfl

theorem HeaderItem.node_span (i : HeaderItem) : i.node.span = i.span := by
  cases i with
  | annotated a => exact a.node_span
  | modifier m => rfl

theorem HeaderItem.node_start (i : HeaderItem) : i.node.span.start = i.start := by
  rw [i.node_span]
  cases i <;> rfl

theorem Literal.isLeaf_kind (v : Literal) : v.kind.isLeaf = true := by
  cases v <;> rfl

/-! ## What may be nested -/

/-- The header sits between two places, and whatever it belongs to starts where it does. -/
structure ReadHeader.Sits (read : ReadHeader) (c c' : Cursor) : Prop where
  row : Node.Row read.header.nodes c c'
  span_eq : ∀ {d}, c'.Before d → d.spanFrom (read.start.getD c'.current.span) = c.through d

/-- A node that starts with its header. -/
theorem ReadHeader.Sits.with_header {read : ReadHeader} {element : Element} {start : Span}
    {ns children : List Node} {c₀ c c' : Cursor} (h : read.Sits c₀ c)
    (inner : element.kind.isLeaf = false) (hstart : start = read.start.getD c.current.span)
    (before : c.Before c') (row : Node.Row ns c c') (eq : children = read.header.nodes ++ ns) :
    (Node.mk element (c'.spanFrom start) children).Sits c₀ c' := by
  subst hstart eq
  exact Node.sits_of_row inner (h.row.upto.trans_before before) (h.span_eq before)
    (h.row.append row)

/-- The constructs one level down sit where they are read. -/
structure Deeper.Sits (D : Deeper) : Prop where
  typeRef : D.typeRef.Sits TypeRef.node
  annotationMark : D.annotationMark.Sits AnnotationMark.node
  annotationValue : D.annotationValue.Sits AnnotationValue.node
  assignment : D.assignment.Sits Expr.node
  ternary : D.ternary.Sits Expr.node
  unary : D.unary.Sits Expr.node
  statement : D.statement.Sits Statement.node
  typeDeclaration : ∀ {read c₀ c type c'}, c₀.Sorted → read.Sits c₀ c →
    D.typeDeclaration read c = .ok (type, c') → type.node.Sits c₀ c'
  ahead : ∀ {look c found c'}, D.ahead look c = .ok (found, c') → c' = c

namespace Grammar

open Apex.Parser Node

variable {D : Deeper} {c c' : Cursor}

/-! ## Types -/

theorem typeSegments_row {segments : List Ident} (s : c.Sorted)
    (h : typeSegments c = .ok (segments, c')) :
    c.Before c' ∧ Row (segments.map Spanned.identifierNode) c c' := by
  obtain ⟨first, c₁, more, rfl, name, items, _⟩ := typeSegments_ok.mp h
  have head := identifier_sits s name
  have tail : Row (more.map Spanned.identifierNode) c₁ c' :=
    row_of_items items (head.before.sorted s) fun s run =>
      (identifier_sits s.advance run.2.2).row.mono (Cursor.silent_advance run.1 rfl) (.refl _)
  exact ⟨head.before.trans_upto tail.upto, head.cons tail⟩

theorem typeArguments_rows {argument : Parser TypeRef} (ha : argument.Sits TypeRef.node) :
    (typeArguments argument).Rows TypeRef.nodes := by
  intro c types c' s h
  rcases typeArguments_ok.mp h with ⟨less, types, c₁, run, greater, done⟩ | ⟨_, done⟩
  · cases done
    rw [TypeRef.nodes_eq_map]
    exact (commaSeparated_rows ha.rows s.advance run).mono (Cursor.silent_advance less rfl)
      (Cursor.silent_advance greater rfl)
  · cases done
    exact .nil (.refl _)

/-- A type without array brackets is the first part of a type with any number of them. -/
theorem elementType_row {argument : Parser TypeRef} (ha : argument.Sits TypeRef.node)
    {type : TypeRef} (s : c.Sorted) (h : elementType argument c = .ok (type, c')) :
    type.span = c.through c' ∧ c.Before c' ∧
      Row (type.segments.map Spanned.identifierNode ++ TypeRef.nodes type.arguments) c c' := by
  obtain ⟨segments, c₁, types, c₂, names, args, done⟩ := elementType_ok.mp h
  cases done
  obtain ⟨before, row⟩ := typeSegments_row s names
  have row := row.append (typeArguments_rows ha (before.sorted s) args)
  have before : c.Before c' := before.trans_upto
    (typeArguments_rows ha (before.sorted s) args).upto
  exact ⟨Cursor.spanFrom_current before s, before, row⟩

theorem elementType_sits {argument : Parser TypeRef} (ha : argument.Sits TypeRef.node) :
    (elementType argument).Sits TypeRef.node := by
  intro c type c' s h
  obtain ⟨span_eq, before, row⟩ := elementType_row ha s h
  obtain ⟨span, segments, arguments, dimensions⟩ := type
  exact sits_of_row rfl before span_eq row

theorem arrayBrackets_silent {n : Nat} (h : arrayBrackets c = .ok (n, c')) : c.Silent c' := by
  have row := (arrayBrackets_ok.mp h).1
  clear h
  generalize List.replicate n () = units at row
  induction row with
  | nil => exact .refl _
  | cons first _ ih =>
    obtain ⟨⟨opened, closed⟩, rfl⟩ := first
    rw [Cursor.peek_one (isEnd_of_kind opened nofun)] at closed
    exact (Cursor.silent_advance opened rfl).trans ((Cursor.silent_advance closed rfl).trans ih)

theorem typeRef_sits {argument : Parser TypeRef} (ha : argument.Sits TypeRef.node) :
    (typeRef argument).Sits TypeRef.node := by
  intro c type c' s h
  obtain ⟨element, c₁, dimensions, c₂, run, brackets, done⟩ := typeRef_ok.mp h
  cases done
  obtain ⟨_, before, row⟩ := elementType_row ha s run
  have behind := arrayBrackets_silent brackets
  have before := before.trans_upto behind.upto
  exact sits_of_row rfl before (Cursor.spanFrom_current before s) (row.mono (.refl _) behind)

/-! ## Modifiers -/

theorem advances_upto (c : Cursor) (n : Nat) : c.Upto (c.advances n) := by
  induction n generalizing c with
  | zero => exact .refl _
  | succ n ih => exact (Cursor.upto_advance c).trans (ih c.advance)

theorem modifierAhead?_inside {m : Modifier} {n : Nat} (h : modifierAhead? c = some (m, n)) :
    c.current.isEnd = false ∧ 0 < n := by
  unfold modifierAhead? at h
  unfold Token.isEnd
  cases hk : c.current.kind with
  | endOfFile => simp [hk, TokenKind.spells] at h
  | _ =>
    refine ⟨rfl, ?_⟩
    simp only [hk] at h
    split at h
    · cases h
      omega
    · split at h
      · cases h
        omega
      · split at h
        · cases h
          omega
        · first
            | (simp only [Option.map_eq_some_iff, Prod.mk.injEq] at h
               obtain ⟨_, _, _, rfl⟩ := h
               omega)
            | cases h

theorem modifier?_sits {m : Spanned Modifier} (s : c.Sorted)
    (h : modifier? c = .ok (some m, c')) : m.modifierNode.Sits c c' := by
  rcases modifier?_ok.mp h with ⟨⟨value, n⟩, found, done⟩ | ⟨_, _, done⟩
  · cases done
    obtain ⟨inside, more⟩ := modifierAhead?_inside found
    obtain ⟨k, rfl⟩ : ∃ k, n = k + 1 := ⟨n - 1, by omega⟩
    have before : c.Before (c.advances (k + 1)) :=
      (Cursor.before_advance inside).trans_upto (advances_upto c.advance k)
    exact sits_leaf rfl before (Cursor.spanFrom_current before s)
  · cases done

theorem modifier?_none (h : modifier? c = .ok (none, c')) : c' = c := by
  rcases modifier?_ok.mp h with ⟨_, _, done⟩ | ⟨_, _, done⟩
  · cases done
  · cases done
    rfl

theorem modifiers_rows : modifiers.Rows (·.map Spanned.modifierNode) := by
  have loop : ∀ {read mods : List (Spanned Modifier)} {c c' : Cursor},
      Iterates modifierStep read c mods c' → c.Sorted →
      ∃ more, mods = read.reverse ++ more ∧ Row (more.map Spanned.modifierNode) c c' := by
    intro read mods c c' run
    induction run with
    | done run =>
      intro _
      rcases modifierStep_ok.mp run with ⟨_, _, _, _, turn⟩ | ⟨_, none, turn⟩
      · cases turn
      · cases turn
        cases modifier?_none none
        exact ⟨[], by simp, .nil (.refl _)⟩
    | again run _ ih =>
      intro s
      rcases modifierStep_ok.mp run with ⟨m, _, some, _, turn⟩ | ⟨_, _, turn⟩
      · cases turn
        have sits := modifier?_sits s some
        obtain ⟨more, rfl, row⟩ := ih (sits.before.sorted s)
        exact ⟨m :: more, by simp, sits.cons row⟩
      · cases turn
  intro c mods c' s h
  obtain ⟨more, rfl, row⟩ := loop (iterates_of_iterate h) s
  simpa using row

/-! ## Annotations -/

theorem literalValue_sits : literalValue.Sits AnnotationValue.node := by
  intro c v c' s h
  rcases literalValue_ok.mp h with ⟨minus, value, _, done⟩ | ⟨_, value, literal, done⟩
  · cases done
    have before : c.Before (c.advances 2) :=
      (before_of_kind minus nofun).trans_upto (advances_upto c.advance 1)
    exact sits_leaf (Literal.isLeaf_kind value) before (Cursor.spanFrom_current before s)
  · cases done
    have inside : c.current.kind ≠ .endOfFile := by
      intro ends
      rw [ends] at literal
      cases literal
    have before := before_of_kind rfl inside
    exact sits_leaf (Literal.isLeaf_kind value) before (Cursor.spanFrom_current before s)

theorem arrayValues_rows (hD : D.Sits) :
    (arrayValues D).Rows AnnotationValue.nodes := by
  have value : (arrayValue D).Sits AnnotationValue.node := by
    intro c v c' s h
    obtain ⟨v, c₁, run, _, done⟩ := arrayValue_ok.mp h
    cases done
    exact hD.annotationValue s run
  intro c vs c' s h
  rcases arrayValues_ok.mp h with ⟨_, done⟩ | ⟨_, run⟩
  · cases done
    exact .nil (.refl _)
  · rw [AnnotationValue.nodes_eq_map]
    exact commaSeparated_rows value.rows s run

theorem annotationValue_sits (hD : D.Sits) :
    (annotationValue D).Sits AnnotationValue.node := by
  intro c v c' s h
  rcases annotationValue_ok.mp h with
    ⟨_, inner, c₁, run, done⟩ | ⟨opened, values, c₁, run, closed, done⟩ | ⟨_, _, run⟩
  · cases done
    exact hD.annotationMark s run
  · cases done
    exact sits_of_first rfl s (lead_of_kind opened rfl nofun)
      ((arrayValues_rows hD s.advance run).mono (.refl _) (Cursor.silent_advance closed rfl))
  · exact literalValue_sits s run

theorem keyedElement_rows (hD : D.Sits) :
    (keyedElement D).Rows fun e => [e.node] := by
  intro c e c' s h
  obtain ⟨key, c₁, value, c₂, name, equals, run, _, ends⟩ := keyedElement_ok.mp h
  have hk := identifier_sits s name
  have s₁ := hk.before.sorted s
  have hv := annotationValue_sits hD s₁.advance run
  have gap := Cursor.silent_advance equals rfl
  have span_eq : key.span.merge value.span = c.through c₂ := by
    rw [← value.node_span, hv.span_eq, show key.span = _ from hk.span_eq]
    exact Cursor.merge_through (hk.before.upto.trans gap.upto) (gap.upto.trans hv.before.upto) s s₁
  have sits : ∀ comma, (AnnotationElement.mk (key.span.merge value.span) (some key) value
      comma).node.Sits c c₂ := fun comma =>
    sits_of_row rfl (hk.before.trans_upto (gap.upto.trans hv.before.upto)) span_eq
      (hk.cons (hv.row.mono gap (.refl _)))
  rcases ends with ⟨comma, done⟩ | ⟨_, done⟩
  · cases done
    exact (sits true).row.mono (.refl _) (Cursor.silent_advance comma rfl)
  · cases done
    exact (sits false).row

theorem annotationElements_rows (hD : D.Sits) :
    (annotationElements D).Rows AnnotationElement.nodes := by
  intro c es c' s h
  rcases annotationElements_ok.mp h with
    ⟨_, run⟩ | ⟨_, _, done⟩ | ⟨_, _, value, c₁, run, _, done⟩
  · rw [AnnotationElement.nodes_eq_map]
    exact itemsUntil_rows (keyedElement_rows hD) _ s run
  · cases done
    exact .nil (.refl _)
  · cases done
    have hv := annotationValue_sits hD s run
    have span_eq := value.node_span.symm.trans hv.span_eq
    exact Sits.row (sits_of_row rfl hv.before span_eq hv.row)

theorem annotation_sits (hD : D.Sits) : (annotationMark D).Sits AnnotationMark.node := by
  intro c a c' s h
  obtain ⟨mark, name, c₁, run, rest⟩ := annotation_ok.mp h
  have first := lead_of_kind mark rfl nofun
  have hn := identifier_sits s.advance run
  have s₁ := hn.before.sorted s.advance
  rcases rest with ⟨opened, elements, c₂, args, closed, done⟩ | ⟨_, done⟩
  · cases done
    have row := (annotationElements_rows hD s₁.advance args).mono
      (Cursor.silent_advance opened rfl) (Cursor.silent_advance closed rfl)
    exact sits_of_first rfl s first (hn.cons row)
  · cases done
    exact sits_of_first rfl s first hn.row

/-! ## Headers -/

/-- Putting an item into a list none of whose items starts before it. -/
theorem insertItem_of_le {i : HeaderItem} {items : List HeaderItem}
    (first : ∀ j ∈ items, i.start ≤ j.start) : Header.insertItem i items = i :: items := by
  cases items with
  | nil => rfl
  | cons j items => exact if_pos (first j (List.mem_cons_self ..))

theorem mem_insertItem {i j : HeaderItem} {items : List HeaderItem}
    (h : j ∈ Header.insertItem i items) : j = i ∨ j ∈ items := by
  induction items with
  | nil => simpa [Header.insertItem] using h
  | cons k items ih =>
    unfold Header.insertItem at h
    split at h
    · simpa using h
    · rcases List.mem_cons.mp h with rfl | h
      · exact .inr (List.mem_cons_self ..)
      · exact (ih h).imp_right (List.mem_cons_of_mem _)

theorem mem_foldr_insertItem {j : HeaderItem} {items sorted : List HeaderItem}
    (h : j ∈ items.foldr Header.insertItem sorted) : j ∈ items ∨ j ∈ sorted := by
  induction items with
  | nil => exact .inr h
  | cons i items ih =>
    rcases mem_insertItem h with rfl | h
    · exact .inl (List.mem_cons_self ..)
    · exact (ih h).imp_left (List.mem_cons_of_mem _)

/-- Items that all start behind another one are put behind it. -/
theorem foldr_insertItem_cons {i : HeaderItem} {items sorted : List HeaderItem}
    (behind : ∀ j ∈ items, i.start < j.start) :
    items.foldr Header.insertItem (i :: sorted) =
      i :: items.foldr Header.insertItem sorted := by
  induction items with
  | nil => rfl
  | cons j items ih =>
    have later := behind j (List.mem_cons_self ..)
    rw [List.foldr_cons, ih fun k hk => behind k (List.mem_cons_of_mem _ hk)]
    exact if_neg (by omega)

/-- A header that holds items in the order in which they start gives them back in that order. -/
theorem items_of_pairwise {items : List HeaderItem} (h : items.Pairwise (·.start < ·.start)) :
    (headerOf items).header.items = items := by
  have kept : ∀ {items : List HeaderItem} {j : HeaderItem},
      j ∈ (items.filterMap HeaderItem.annotationMark?).map HeaderItem.annotated ++
        (items.filterMap HeaderItem.modifier?).map HeaderItem.modifier → j ∈ items := by
    intro items j hj
    simp only [List.mem_append, List.mem_map, List.mem_filterMap] at hj
    rcases hj with ⟨a, ⟨i, mem, is⟩, rfl⟩ | ⟨m, ⟨i, mem, is⟩, rfl⟩
    · cases i <;> cases is
      exact mem
    · cases i <;> cases is
      exact mem
  unfold headerOf Header.items
  induction items with
  | nil => rfl
  | cons i items ih =>
    obtain ⟨first, rest⟩ := List.pairwise_cons.mp h
    have ih := ih rest
    cases i with
    | annotated a =>
      simp only [List.filterMap_cons, HeaderItem.annotationMark?, HeaderItem.modifier?,
        List.map_cons, List.cons_append, List.foldr_cons] at ih ⊢
      rw [ih, insertItem_of_le fun j hj => Nat.le_of_lt (first j hj)]
    | modifier m =>
      simp only [List.filterMap_cons, HeaderItem.annotationMark?, HeaderItem.modifier?,
        List.map_cons, List.foldr_append, List.foldr_cons] at ih ⊢
      rw [insertItem_of_le, foldr_insertItem_cons, ih]
      · intro j hj
        exact first j (kept (List.mem_append_left _ hj))
      · intro j hj
        rcases mem_foldr_insertItem hj with hj | hj
        · exact Nat.le_of_lt (first j (kept (List.mem_append_right _ hj)))
        · cases hj

/-- An item of a header sits where it was read. -/
theorem ItemRead.sits (hD : D.Sits) {i : HeaderItem} (s : c.Sorted) (h : ItemRead D c i c') :
    i.node.Sits c c' := by
  cases i with
  | annotated a => exact annotation_sits hD s h.2
  | modifier m => exact modifier?_sits s h.2

/-- The items of a header are those read, in the order read. -/
theorem items_headerOf (hD : D.Sits) {items : List HeaderItem} (s : c.Sorted)
    (h : Items (ItemRead D) c items c') :
    Row (items.map HeaderItem.node) c c' ∧ (headerOf items).header.items = items := by
  have row : Row (items.map HeaderItem.node) c c' :=
    row_of_items h s fun s read => (read.sits hD s).row
  refine ⟨row, items_of_pairwise ?_⟩
  have := row.pairwise_start s
  simpa only [List.pairwise_map, HeaderItem.node_start] using this

/-- What a header has read sits where it was read, in the order read. -/
theorem header_sits (hD : D.Sits) {read : ReadHeader} (s : c.Sorted)
    (h : header D c = .ok (read, c')) : read.Sits c c' := by
  obtain ⟨items, rfl, found⟩ := header_items h
  obtain ⟨row, same⟩ := items_headerOf hD s found
  constructor
  · show Row ((headerOf items).header.items.map HeaderItem.node) c c'
    rwa [same]
  · intro d before
    cases found with
    | nil => exact Cursor.spanFrom_current before s
    | @cons _ i c₁ items _ first rest =>
      have sits := first.sits hD s
      have more : c₁.Upto c' :=
        (row_of_items rest (sits.before.sorted s) fun s read => (read.sits hD s).row).upto
      have start : i.span = c.through c₁ := by rw [← i.node_span, sits.span_eq]
      show d.spanFrom i.span = c.through d
      rw [start]
      refine Cursor.spanFrom_eq_through (row.upto.trans_before before) s rfl ?_
      exact (more.trans before.upto).stop_le (sits.before.sorted s)

end Grammar

end Apex
