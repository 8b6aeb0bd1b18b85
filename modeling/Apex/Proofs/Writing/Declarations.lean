import Apex.Layout.Declaration
import Apex.Proofs.Spans.Declarations
import Apex.Proofs.Writing.Statements

/-!
# Declarations as text

Whatever is written behind a declaration, it is cut into the tokens it stands for. Lines end behind
annotations and between members only where the grammar reads nothing.
-/

namespace Apex

open Form

variable {settings : LayoutSettings}

/-! ## Headers -/

section

variable {forms others : List Form} {marks rest : List Mark}

theorem Closed.line (h : Closed settings forms marks) :
    Closed settings forms (marks ++ [.newline]) := by
  intro others rest spelled
  rw [List.append_assoc]
  exact h spelled.newline

theorem Closed.semicolon : Closed settings [mark .semicolon] [.text ";"] :=
  fun _ _ spelled => spelled.semicolon

theorem closed_headerMarks (behindModifier : Bool) (items : List HeaderItem)
    (say : ∀ i ∈ items, AllSayable i.forms) :
    Closed settings (items.flatMap HeaderItem.forms) (headerMarks behindModifier items) := by
  induction items generalizing behindModifier with
  | nil => exact .nil
  | cons item items ih =>
    obtain ⟨here, later⟩ := List.forall_mem_cons.mp say
    intro others rest spelled
    rw [List.flatMap_cons, List.append_assoc]
    cases item with
    | modifier m =>
      have behind := (ih true later spelled).blank
      exact .writes m.value.writes m.value.text_ne_nil (.plain (by decide)) behind
    | annotated a =>
      cases behindModifier with
      | true =>
        have behind := (ih true later spelled).blank
        exact .writes (a.writes here) a.text_ne_nil (.plain (by decide)) behind
      | false =>
        have behind := (ih false later spelled).newline
        exact .writes (a.writes here) a.text_ne_nil .newline behind

/-- A header spells what it stands for. -/
theorem Header.closed {h : Header} (say : AllSayable h.forms) :
    Closed settings h.forms h.marks :=
  closed_headerMarks false h.items (allSayable_flatMap.mp say)

end

/-! ## Members -/

theorem Parameter.sets {p : Parameter} (sound : p.node.IsSound) (say : AllSayable p.forms) :
    Sets settings p.forms p.marks := by
  have below := sound.children
  simp only [node, Node.children, Node.allSound_append, Node.allSound_cons] at below
  simp only [forms, allSayable_append, allSayable_cons] at say
  rw [forms, marks, List.append_assoc]
  exact (closed_modifiers p.modifiers).sets (sets_typedName below.2.1 say.1.2 say.2.1)

/-- Parameters in parentheses. -/
theorem closed_parameterMarks {parameters : List Parameter}
    (sound : ∀ p ∈ parameters, p.node.IsSound) (say : AllSayable (Parameter.formsOf parameters)) :
    Closed settings (Parameter.formsOf parameters) (parameterMarks parameters) := by
  simp only [Parameter.formsOf, allSayable_parens, allSayable_commas, List.forall_mem_map] at say
  intro others rest spelled
  have all : Sets settings (commas (parameters.map Parameter.forms))
      (commaMarks (parameters.map Parameter.marks)) :=
    .commas fun p mem => Parameter.sets (sound p mem) (say p mem)
  simpa [Parameter.formsOf, parameterMarks] using all.parens spelled

theorem closed_bodyOrSemicolon {body : Option Block} (sound : ∀ b ∈ body, b.node.IsSound)
    (say : AllSayable (Block.formsOption body)) :
    Closed settings (Block.formsOption body) (bodyOrSemicolon body) := by
  cases body with
  | none => exact .semicolon
  | some body =>
    intro others rest spelled
    exact (body.closed (sound body rfl) say spelled).blank

/-- A body or its semicolon may stand behind a word. -/
theorem open_bodyOrSemicolon (body : Option Block) (rest : List Mark) :
    Open settings (bodyOrSemicolon body ++ rest) := by
  cases body with
  | none => exact .plain (by decide)
  | some body => exact .plain (by decide)

/-- A name with parameters behind it. -/
theorem closed_called {name : Ident} {parameters : List Parameter} (named : (ident name).Sayable)
    (sound : ∀ p ∈ parameters, p.node.IsSound) (say : AllSayable (Parameter.formsOf parameters)) :
    Closed settings (ident name :: Parameter.formsOf parameters)
      (.text name.value :: parameterMarks parameters) := by
  intro others rest spelled
  exact .ident named (.plain (by decide)) (closed_parameterMarks sound say spelled)

theorem Field.closed {f : Field} {span : Span} (sound : (f.node span).IsSound)
    (say : AllSayable f.forms) : Closed settings f.forms f.marks := by
  have below := sound.children
  simp only [node, Node.children, Node.allSound_append, Node.allSound_cons, Node.allSound_map]
    at below
  simp only [forms, allSayable_append, allSayable_commas, List.forall_mem_map] at say
  have all : ∀ d ∈ f.declarators, Sets settings d.forms d.marks :=
    fun d mem => Declarator.sets (below.2.2 d mem) (say.1.2 d mem)
  intro others rest spelled
  have names := ((Sets.commas all).semicolon spelled).blank
  have typed := Spelled.type below.2.1 say.1.1.2 (.plain (by decide)) names
  simpa [forms, marks] using Header.closed say.1.1.1 typed

/-- The type of a result, or the word for none. -/
theorem Spelled.result {type : Option TypeRef} {others : List Form} {rest : List Mark}
    (spelled : Spelled settings others rest) (sound : ∀ t ∈ type, t.node.IsSound)
    (say : AllSayable (returnForms type)) (follows : Open settings rest) :
    Spelled settings (returnForms type ++ others)
      (.text (match (motive := Option TypeRef → String) type with
        | some type => type.text
        | none => "void") :: rest) := by
  cases type with
  | none => exact .fixedBefore [.word .kwVoid "void"] (by cbv) follows spelled
  | some type => exact .type (sound type rfl) say follows spelled

theorem Method.closed {m : Method} {span : Span} (sound : (m.node span).IsSound)
    (say : AllSayable m.forms) : Closed settings m.forms m.marks := by
  have below := sound.children
  simp only [node, Node.children, Node.allSound_append, Node.allSound_cons, Node.allSound_map,
    Node.allSound_option] at below
  simp only [forms, allSayable_append, allSayable_cons] at say
  obtain ⟨⟨⟨header, result⟩, named, parameters⟩, body⟩ := say
  intro others rest spelled
  have body := closed_bodyOrSemicolon below.2 body spelled
  have called := (closed_called named below.1.2.2 parameters body).blank
  have typed := called.result below.1.1.2 result (.plain (by decide))
  have whole := Header.closed header typed
  rw [forms, marks]
  simp only [List.append_assoc, List.cons_append]
  exact whole

theorem Constructor.closed {c : Constructor} {span : Span} (sound : (c.node span).IsSound)
    (say : AllSayable c.forms) : Closed settings c.forms c.marks := by
  have below := sound.children
  simp only [node, Node.children, Node.allSound_append, Node.allSound_cons, Node.allSound_map]
    at below
  simp only [forms, allSayable_append, allSayable_cons] at say
  obtain ⟨⟨header, named, parameters⟩, body⟩ := say
  intro others rest spelled
  have body := (c.body.closed below.2.1 body spelled).blank
  have called := closed_called named below.1.2.2 parameters body
  simpa [forms, marks] using Header.closed header called

theorem Accessor.closed {a : Accessor} (sound : a.node.IsSound) (say : AllSayable a.forms) :
    Closed settings a.forms a.marks := by
  have below := sound.children
  simp only [node, Node.children, Node.allSound_append, Node.allSound_option] at below
  simp only [forms, allSayable_append, allSayable_cons] at say
  intro others rest spelled
  have body := closed_bodyOrSemicolon below.2 say.2.2 spelled
  have follows : Open settings (bodyOrSemicolon a.body ++ rest) := open_bodyOrSemicolon a.body rest
  have word : Spelled settings (Form.spelled a.kind.keyword :: (Block.formsOption a.body ++ others))
      (.text a.kind.word :: (bodyOrSemicolon a.body ++ rest)) := by
    cases a.kind with
    | get => exact .fixedBefore [.word .kwGet "get"] (by cbv) follows body
    | set => exact .fixedBefore [.word .kwSet "set"] (by cbv) follows body
  simpa [forms, marks] using closed_modifiers a.modifiers word

theorem Property.closed {p : Property} {span : Span} (sound : (p.node span).IsSound)
    (say : AllSayable p.forms) : Closed settings p.forms p.marks := by
  have below := sound.children
  simp only [node, Node.children, Node.allSound_append, Node.allSound_cons, Node.allSound_map]
    at below
  simp only [forms, allSayable_append, allSayable_cons, allSayable_braces, allSayable_flatMap]
    at say
  obtain ⟨⟨header, type⟩, named, accessors⟩ := say
  have inner : Closed settings (p.accessors.flatMap Accessor.forms)
      (p.accessors.flatMap fun a => a.marks ++ [.newline]) :=
    .flatMap fun a mem => (Accessor.closed (below.2.2.2 a mem) (accessors a mem)).line
  intro others rest spelled
  have closing : Spelled settings (mark .closeBrace :: others) (.text "\x7d" :: rest) :=
    spelled.fixed [.mark .closeBrace] (by decide)
  have lines := (inner closing.dedent).indent.newline
  have opening : Spelled settings (mark .openBrace :: _) (.text " \x7b" :: _) :=
    lines.fixed [.blank, .mark .openBrace] (by decide)
  have typed := sets_typedName below.2.1 type named (.plain (by decide)) opening
  simpa [forms, marks, braces, Fixed.forms] using Header.closed header typed

theorem Initializer.closed {i : Initializer} {span : Span} (sound : (i.node span).IsSound)
    (say : AllSayable i.forms) : Closed settings i.forms i.marks := by
  have below := sound.children
  simp only [node, Node.children, Node.allSound_cons] at below
  have body : Closed settings i.body.forms i.body.marks :=
    i.body.closed below.1 (allSayable_append.mp say).2
  refine Closed.append ?_ body
  cases i.isStatic with
  | false => exact .nil
  | true =>
    intro others rest spelled
    exact spelled.keyword .kwStatic "static" "static " rfl (by cbv)

/-! ## Heads of types -/

/-- The types behind a keyword may follow a word. -/
theorem TypeRef.trails_listAfter (before word : String) {k : Keyword} {types : List TypeRef}
    (reserved : k.isReserved = true)
    (written : Fixed.isWritten [.blank, .word k word, .blank] before = true)
    (sound : ∀ t ∈ types, t.node.IsSound) (say : AllSayable (formsBehind k types)) :
    Trails (formsBehind k types) (listAfter before types).toList := by
  unfold listAfter
  unfold formsBehind at say ⊢
  split
  · exact .nil
  · next some =>
    rw [if_neg some] at say
    simp only [allSayable_cons, allSayable_commas, List.forall_mem_map] at say
    simp only [Fixed.isWritten, Bool.and_eq_true, beq_iff_eq] at written
    obtain ⟨⟨same, -⟩, readable⟩ := written
    have list : Writes (commas (types.map forms)) (listText types).toList := by
      rw [listText, String.toList_intercalate, texts_eq_map, List.map_map]
      exact .commas (writesAll types sound say.2)
    rw [String.toList_append, same]
    refine ⟨fun others behind loose spelled => ?_, fun behind _ => .cons (by decide) _⟩
    have head := Fixed.spells readable (fun word => by cases word) (list loose spelled)
    simpa [Fixed.forms, reserved] using head

theorem ClassHead.sets {c : ClassHead} (sound : Node.AllSound c.nodes)
    (say : AllSayable c.forms) : Sets settings c.forms c.marks := by
  simp only [nodes, Node.allSound_append, Node.allSound_cons, Node.allSound_map,
    Node.allSound_option] at sound
  simp only [forms, allSayable_append, allSayable_cons] at say
  obtain ⟨⟨header, -, named, base⟩, interfaces⟩ := say
  have base := TypeRef.trails_listAfter " extends " "extends" rfl
    (by cbv) (by simpa using sound.1.2.2) base
  have interfaces := TypeRef.trails_listAfter " implements " "implements" rfl
    (by cbv) sound.2 interfaces
  intro others rest follows spelled
  -- either list of types may be missing, so what the name stands before is told from the last on
  have behind := interfaces.opens follows
  have implementing := Spelled.perhaps interfaces.writes follows spelled
  have extending := Spelled.perhaps base.writes behind implementing
  have name := Spelled.ident named (base.opens behind) extending
  have word := name.keyword .kwClass "class" "class " rfl (by cbv)
  simpa [forms, marks] using Header.closed header word

theorem InterfaceHead.sets {i : InterfaceHead} (sound : Node.AllSound i.nodes)
    (say : AllSayable i.forms) : Sets settings i.forms i.marks := by
  simp only [nodes, Node.allSound_append, Node.allSound_cons, Node.allSound_map] at sound
  simp only [forms, allSayable_append, allSayable_cons] at say
  obtain ⟨header, -, named, bases⟩ := say
  have bases := TypeRef.trails_listAfter " extends " "extends" rfl
    (by cbv) sound.2.2 bases
  intro others rest follows spelled
  have list := Spelled.perhaps bases.writes follows spelled
  have name := Spelled.ident named (bases.opens follows) list
  have word := name.keyword .kwInterface "interface" "interface " rfl (by cbv)
  simpa [forms, marks] using Header.closed header word

/-! ## Enums and triggers -/

/-- The constants of an enum in their braces, which may follow a word. A comma behind them has a
constant before it. -/
theorem closed_constants {constants : List Ident} {trailingComma : Bool}
    (comma : trailingComma = true → constants ≠ []) (say : ∀ i ∈ constants, (ident i).Sayable)
    {others : List Form} {rest : List Mark} (spelled : Spelled settings others rest) :
    let marks : List Mark :=
      if constants.isEmpty then [.text " \x7b\x7d"]
      else
        [ .text " \x7b ", .text (String.intercalate ", " (constants.map (·.value))),
          .text (if trailingComma then "," else ""), .text " \x7d" ]
    Open settings (marks ++ rest) ∧
      Spelled settings
        (braces (commas (constants.map fun i => [ident i]) ++
          if trailingComma then [mark .comma] else []) ++ others) (marks ++ rest) := by
  intro marks
  have names : Writes (commas (constants.map fun i => [ident i]))
      (String.intercalate ", " (constants.map (·.value))).toList := by
    rw [String.toList_intercalate, List.map_map]
    exact .commas fun i mem => writes_ident (say i mem)
  by_cases none : constants = []
  -- without constants there is no comma either, and the braces are one text
  · obtain rfl : trailingComma = false := by
      by_contra last
      exact comma (by simpa using last) none
    subst none
    have empty := spelled.fixed [.blank, .mark .openBrace, .mark .closeBrace] (t := " \x7b\x7d")
      (by decide)
    exact ⟨.plain (by decide), empty⟩
  · have marks_eq : marks = [ .text " \x7b ",
        .text (String.intercalate ", " (constants.map (·.value))),
        .text (if trailingComma then "," else ""), .text " \x7d" ] := if_neg (by simpa using none)
    rw [marks_eq]
    have behind := trails_comma trailingComma
    have closing : Spelled settings (mark .closeBrace :: others) (.text " \x7d" :: rest) :=
      spelled.fixed [.blank, .mark .closeBrace] (by decide)
    have last := Spelled.perhaps behind.writes (.plain (by decide)) closing
    have list := Spelled.perhaps names (behind.opens (.plain (by decide))) last
    have opening := list.fixed [.blank, .mark .openBrace, .blank] (t := " \x7b ") (by decide)
    exact ⟨.plain (by decide), by simpa [braces, Fixed.forms] using opening⟩

theorem EnumDeclaration.closed {e : EnumDeclaration} {span : Span}
    (sound : (TypeDeclaration.enumType span e).node.IsSound) (say : AllSayable e.forms) :
    Closed settings e.forms e.marks := by
  have comma : e.trailingComma = true → e.constants ≠ [] := sound.element.2
  simp only [forms, allSayable_append, allSayable_cons, allSayable_braces, allSayable_commas,
    List.forall_mem_map] at say
  obtain ⟨header, -, named, constants, -⟩ := say
  intro others rest spelled
  obtain ⟨follows, body⟩ := closed_constants comma (fun i mem => (constants i mem).1) spelled
  have name := Spelled.ident named follows body
  have word := name.keyword .kwEnum "enum" "enum " rfl (by cbv)
  simpa [forms, marks] using Header.closed header word

theorem TriggerEvent.writes (e : TriggerEvent) : Writes e.forms e.text.toList := by
  have readable : Fixed.isReadable [.word e.timing.keyword e.timing.word, .blank,
      .word e.keyword e.operation] = true := by
    cases e <;> cbv
  have spelled := Writes.fixed readable
  cases e <;> exact spelled

theorem Trigger.closed {t : Trigger} {span : Span} (sound : (t.node span).IsSound)
    (say : AllSayable t.forms) : Closed settings t.forms t.marks := by
  have below := sound.children
  simp only [node, Node.children, Node.allSound_append, Node.allSound_cons] at below
  simp only [forms, allSayable_append, allSayable_cons] at say
  obtain ⟨⟨-, named, -, object, -⟩, body⟩ := say
  have events : Writes (commas (t.events.map fun e => e.value.forms))
      (String.intercalate ", " (t.events.map (·.value.text))).toList := by
    rw [String.toList_intercalate, List.map_map]
    exact .commas fun e _ => e.value.writes
  intro others rest spelled
  have body := t.body.closed below.2.1 body spelled
  have closing := body.fixed [.mark .closeParen, .blank] (t := ") ") (by decide)
  have list := Spelled.perhaps events (.plain (by decide)) closing
  have opening := list.fixed [.blank, .mark .openParen] (t := " (") (by decide)
  have record := Spelled.ident object (.plain (by decide)) opening
  have on : Spelled settings (Form.spelled .kwOn :: _) (.text " on " :: _) :=
    record.fixed [.blank, .word .kwOn "on", .blank] (by cbv)
  have name := Spelled.ident named (.plain (by decide)) on
  have word := name.keyword .kwTrigger "trigger" "trigger " rfl (by cbv)
  simpa [forms, marks, parens, Fixed.forms] using word

/-! ## Types and their members -/

section

variable {forms : List Form} {marks : List Mark}

theorem Closed.newline (h : Closed settings forms marks) :
    Closed settings forms (.newline :: marks) :=
  fun _ _ spelled => (h spelled).newline

theorem Closed.gap (h : Closed settings forms marks) : Closed settings forms (.gap :: marks) :=
  fun _ _ spelled => (h spelled).gap

/-- Members in braces. -/
theorem Closed.memberBraces (h : Closed settings forms marks) {others : List Form}
    {rest : List Mark} (spelled : Spelled settings others rest) :
    Open settings (memberBraces marks ++ rest) ∧
      Spelled settings (braces forms ++ others) (memberBraces marks ++ rest) := by
  unfold Apex.memberBraces
  split
  · next none =>
    rw [List.isEmpty_iff] at none
    subst none
    have alone := h Spelled.nil 0 true
    rw [List.append_nil, List.append_nil, put, if_pos rfl] at alone
    rw [alone.forms_eq_nil]
    have empty := spelled.fixed [.blank, .mark .openBrace, .mark .closeBrace] (t := " \x7b\x7d")
      (by decide)
    exact ⟨.plain (by decide), empty⟩
  · have closing : Spelled settings (mark .closeBrace :: others) (.text "\x7d" :: rest) :=
      spelled.fixed [.mark .closeBrace] (by decide)
    have lines := (h closing.dedent.newline).indent.newline
    have opening := lines.fixed [.blank, .mark .openBrace] (t := " \x7b") (by decide)
    exact ⟨.plain (by decide), by simpa [braces, Fixed.forms] using opening⟩

/-- A head with members in braces behind it. -/
theorem Closed.behindHead {head : List Form} {headMarks : List Mark}
    (members : Closed settings forms marks) (h : Sets settings head headMarks) :
    Closed settings (head ++ braces forms) (headMarks ++ Apex.memberBraces marks) := by
  intro others rest spelled
  obtain ⟨follows, body⟩ := members.memberBraces spelled
  rw [List.append_assoc, List.append_assoc]
  exact h follows body

end

/-- The methods of an interface. -/
theorem closed_interfaceMarks {methods : List (Spanned Method)}
    (sound : ∀ m ∈ methods, (m.value.node m.span).IsSound)
    (say : ∀ m ∈ methods, AllSayable m.value.forms) :
    Closed settings (methods.flatMap fun m => m.value.forms) (interfaceMarks methods) := by
  cases methods with
  | nil => exact .nil
  | cons m ms =>
    rw [List.forall_mem_cons] at sound say
    have later : Closed settings (ms.flatMap fun m => m.value.forms)
        (ms.flatMap fun m => .gap :: m.value.marks) :=
      .flatMap fun m mem => (Method.closed (sound.2 m mem) (say.2 m mem)).gap
    exact (Method.closed sound.1 say.1).append later

theorem Member.closed_separator (before after : Member) {forms : List Form} {marks : List Mark}
    (h : Closed settings forms marks) :
    Closed settings forms (before.separator after :: marks) := by
  unfold separator
  split
  · exact h.newline
  · exact h.gap

mutual

/-- A type declaration spells what it stands for. -/
theorem TypeDeclaration.closed : (d : TypeDeclaration) → d.node.IsSound → AllSayable d.forms →
    Closed settings d.forms d.marks
  | .classType _ head members, sound, say => by
    have below := sound.children
    simp only [TypeDeclaration.node, Node.children, Node.allSound_append, Member.nodes_eq_map,
      Node.allSound_map] at below
    simp only [TypeDeclaration.forms, allSayable_append, allSayable_braces, allSayable_flatten,
      Member.formsOf_eq_map, List.forall_mem_map] at say
    rw [TypeDeclaration.forms, Member.formsOf_eq_map]
    exact (Member.closedAll members below.2 say.2 none).behindHead
      (ClassHead.sets below.1 say.1)
  | .interfaceType _ head methods, sound, say => by
    have below := sound.children
    simp only [TypeDeclaration.node, Node.children, Node.allSound_append, Node.allSound_map]
      at below
    simp only [TypeDeclaration.forms, allSayable_append, allSayable_braces, allSayable_flatMap]
      at say
    exact (closed_interfaceMarks below.2 say.2).behindHead (InterfaceHead.sets below.1 say.1)
  | .enumType _ _, sound, say => EnumDeclaration.closed sound say

/-- A member spells what it stands for. -/
theorem Member.closed : (m : Member) → m.node.IsSound → AllSayable m.forms →
    Closed settings m.forms m.marks
  | .field _ _, sound, say => Field.closed sound say
  | .method _ _, sound, say => Method.closed sound say
  | .constructor _ _, sound, say => Constructor.closed sound say
  | .property _ _, sound, say => Property.closed sound say
  | .initializer _ _, sound, say => Initializer.closed sound say
  | .type declaration, sound, say => declaration.closed sound say
  | .stray _, _, _ => .semicolon

/-- Members with what separates them spell what they stand for. -/
theorem Member.closedAll : (ms : List Member) → (∀ m ∈ ms, m.node.IsSound) →
    (∀ m ∈ ms, AllSayable m.forms) → (previous : Option Member) →
    Closed settings (ms.map Member.forms).flatten (Member.marksOf previous ms)
  | [], _, _, _ => .nil
  | m :: ms, sound, say, previous => by
    rw [List.forall_mem_cons] at sound say
    have row := (m.closed sound.1 say.1).append (Member.closedAll ms sound.2 say.2 (some m))
    cases previous with
    | none => exact row
    | some before => exact before.closed_separator m row

end

/-! ## Files -/

theorem Declaration.closed {d : Declaration} (sound : d.node.IsSound) (say : AllSayable d.forms) :
    Closed settings d.forms d.marks := by
  cases d with
  | type declaration => exact declaration.closed sound say
  | trigger span t => exact Trigger.closed sound say
  | nothing span => exact .nil

/-- A file spells what it stands for. -/
theorem CompilationUnit.closed {u : CompilationUnit} (sound : u.node.IsSound)
    (say : AllSayable u.forms) : Closed settings u.forms u.marks := by
  have below := sound.children
  simp only [node, Node.children, Node.allSound_cons] at below
  refine (Declaration.closed below.1 (allSayable_append.mp say).1).append ?_
  generalize u.trailingSemicolons = n
  induction n with
  | zero => exact .nil
  | succ n ih => exact Closed.semicolon.append ih

end Apex
