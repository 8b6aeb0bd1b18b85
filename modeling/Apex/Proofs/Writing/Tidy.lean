import Apex.Layout.Format
import Apex.Proofs.Echo.Programs
import Apex.Proofs.Writing.Balance
import Apex.Proofs.Writing.Lines

/-!
# Settings change only layout

Each line of a program's page closes what it opens. So the lines are read one by one, and neither
the width of the indentation nor the number of blank lines between members has a say in what is
read.
-/

namespace Apex

open Form Grammar

/-! ## Tidy marks -/

/-- Each line of the page is settled. -/
def AllSettled (marks : List Mark) : Prop := ∀ line ∈ pageLines marks, Settled 0 line

/-- The marks can stand in front of any others on a page of settled lines. -/
def Tidy (marks : List Mark) : Prop :=
  ∀ ⦃rest : List Mark⦄, AllSettled rest → AllSettled (marks ++ rest)

theorem pageLines_texts (texts : List String) (marks : List Mark) :
    pageLines (texts.map Mark.text ++ marks) =
      (pageLines marks).modifyHead (texts.flatMap String.toList ++ ·) := by
  induction texts with
  | nil => exact (congrFun List.modifyHead_id _).symm
  | cons t texts ih =>
    rw [List.map_cons, List.cons_append, pageLines, ih, List.modifyHead_modifyHead,
      List.flatMap_cons]
    simp only [Function.comp_def, List.append_assoc]

namespace Tidy

variable {marks others : List Mark} {t : String}

theorem allSettled (h : Tidy marks) : AllSettled marks := by
  have alone : AllSettled [] := List.forall_mem_singleton.mpr .nil
  have whole := h alone
  rwa [List.append_nil] at whole

theorem nil : Tidy [] := fun _ rest => rest

theorem append (h : Tidy marks) (h' : Tidy others) : Tidy (marks ++ others) := by
  intro rest settled
  rw [List.append_assoc]
  exact h (h' settled)

/-- A balanced text in front of a line. -/
theorem modifyHead {text : List Char} {lines : List (List Char)} (h : Balanced text)
    (settled : ∀ line ∈ lines, Settled 0 line) :
    ∀ line ∈ lines.modifyHead (text ++ ·), Settled 0 line := by
  cases lines with
  | nil => exact settled
  | cons line lines =>
    rw [List.forall_mem_cons] at settled
    exact List.forall_mem_cons.mpr ⟨h settled.1, settled.2⟩

theorem write (h : Balanced t.toList) (later : Tidy marks) : Tidy (.text t :: marks) :=
  fun _ settled => modifyHead h (later settled)

/-- A text that is the same for every tree. -/
theorem fixed (plain : t.toList.all isPlain = true) (later : Tidy marks) :
    Tidy (.text t :: marks) :=
  .write (.fixed plain) later

theorem newline (later : Tidy marks) : Tidy (.newline :: marks) :=
  fun _ settled => List.forall_mem_cons.mpr ⟨.nil, later settled⟩

theorem gap (later : Tidy marks) : Tidy (.gap :: marks) :=
  fun _ settled => List.forall_mem_cons.mpr ⟨.nil, later settled⟩

theorem indent (later : Tidy marks) : Tidy (.indent :: marks) := later

theorem dedent (later : Tidy marks) : Tidy (.dedent :: marks) := later

theorem flatMap {α : Type} {f : α → List Mark} {xs : List α} (h : ∀ x ∈ xs, Tidy (f x)) :
    Tidy (xs.flatMap f) := by
  induction xs with
  | nil => exact nil
  | cons x xs ih =>
    rw [List.forall_mem_cons] at h
    rw [List.flatMap_cons]
    exact h.1.append (ih h.2)

theorem commas {α : Type} {f : α → List Mark} {xs : List α} (h : ∀ x ∈ xs, Tidy (f x)) :
    Tidy (commaMarks (xs.map f)) := by
  cases xs with
  | nil => exact nil
  | cons x xs =>
    rw [List.forall_mem_cons] at h
    rw [List.map_cons, commaMarks, List.flatMap_map]
    exact h.1.append (.flatMap fun y mem => .fixed (by decide) (h.2 y mem))

end Tidy

theorem Expr.tidy {e : Expr} (legible : AllLegible e.forms) : Tidy e.marks := by
  intro rest settled
  unfold AllSettled
  rw [Expr.marks, pageLines_texts]
  exact Tidy.modifyHead (e.balanced legible) settled

/-! ## Statements -/

theorem tidy_modifierMarks (modifiers : List (Spanned Modifier)) : Tidy (modifierMarks modifiers) :=
  .flatMap fun m _ => .write m.value.balanced (.fixed (by decide) .nil)

theorem tidy_typedName {type : TypeRef} {name : Ident} (legible : AllLegible type.forms)
    (word : IsWord name.value) : Tidy (typedName type name) :=
  .write (type.balanced legible) (.fixed (by decide) (.write (.word word) .nil))

theorem Declarator.tidy {d : Declarator} (legible : AllLegible d.forms) : Tidy d.marks := by
  obtain ⟨span, name, value⟩ := d
  obtain ⟨word, legible⟩ := allLegible_cons.mp legible
  refine .write (.word word) ?_
  cases value with
  | none => exact .nil
  | some value => exact .fixed (by decide) (Expr.tidy (allLegible_cons.mp legible).2)

theorem LocalVariables.tidy {v : LocalVariables} (legible : AllLegible v.forms) : Tidy v.marks := by
  simp only [forms, allLegible_append, allLegible_commas, List.forall_mem_map] at legible
  have declarators := Tidy.commas fun d mem => Declarator.tidy (legible.2 d mem)
  exact (tidy_modifierMarks _).append
    (.write (v.type.balanced legible.1.2) (.fixed (by decide) declarators))

theorem Tidy.exprs {es : List Expr} (legible : AllLegible (Form.commas (es.map Expr.forms))) :
    Tidy (commaMarks (es.map Expr.marks)) := by
  rw [allLegible_commas, List.forall_mem_map] at legible
  exact .commas fun e mem => Expr.tidy (legible e mem)

theorem ForInit.tidy {init : ForInit} (legible : AllLegible init.forms) : Tidy init.marks := by
  cases init with
  | nothing => exact .nil
  | declaration _ locals => exact LocalVariables.tidy legible
  | expressions values => exact .exprs legible

theorem tidy_forMarks {init : ForInit} {condition : Option Expr} {update : List Expr}
    (legible : AllLegible init.forms) (legible' : AllLegible (Expr.formsOption condition))
    (legible'' : AllLegible (Form.commas (update.map Expr.forms))) :
    Tidy (forMarks init condition update) := by
  have update : Tidy (if update.isEmpty then [] else
      .text " " :: commaMarks (update.map Expr.marks)) := by
    split
    · exact .nil
    · exact .fixed (by decide) (.exprs legible'')
  refine .append (.append (ForInit.tidy legible) (.fixed (by decide) ?_))
    (.fixed (by decide) update)
  cases condition with
  | none => exact .nil
  | some condition => exact .fixed (by decide) (Expr.tidy legible')

namespace Statement

variable {marks : List Mark} (s : Statement)

theorem tidy_asBody (h : Tidy marks) : Tidy (s.asBody marks) := by
  unfold asBody
  split
  · exact .fixed (by decide) h
  · exact .append (.newline (.indent h)) (.dedent .nil)

theorem tidy_elseAfter : Tidy s.elseAfter := by
  unfold elseAfter
  split
  · exact .fixed (by decide) .nil
  · exact .newline (.fixed (by decide) .nil)

theorem tidy_asElse (h : Tidy marks) : Tidy (s.asElse marks) := by
  unfold asElse
  split
  · exact .fixed (by decide) h
  · exact s.tidy_asBody h

end Statement

mutual

theorem Block.tidy : (b : Block) → AllLegible b.forms → Tidy b.marks
  | .mk _ [], _ => .fixed (by decide) .nil
  | .mk _ (s :: ss), legible => by
    simp only [Block.forms, Statement.formsOf, allLegible_braces, List.flatten_cons,
      allLegible_append, allLegible_flatten, Statement.formsOf_eq_map, List.forall_mem_map]
      at legible
    have inner := (s.tidy legible.1).append (.newline (Statement.tidyLines ss legible.2))
    exact .append (.fixed (by decide) (.newline (.indent inner)))
      (.dedent (.fixed (by decide) .nil))

theorem Statement.tidyLines : (ss : List Statement) → (∀ s ∈ ss, AllLegible s.forms) →
    Tidy (Statement.lines ss)
  | [], _ => .nil
  | s :: ss, legible => by
    rw [List.forall_mem_cons] at legible
    exact (s.tidy legible.1).append (.newline (Statement.tidyLines ss legible.2))

theorem Statement.tidy : (s : Statement) → AllLegible s.forms → Tidy s.marks
  | .block body, legible => body.tidy legible
  | .locals _ locals, legible => by
    simp only [Statement.forms, allLegible_append] at legible
    exact (LocalVariables.tidy legible.1).append (.fixed (by decide) .nil)
  | .ifThen _ condition yes, legible => by
    simp only [Statement.forms, allLegible_append, allLegible_cons, allLegible_parens] at legible
    have body := yes.tidy_asBody (yes.tidy legible.2)
    exact .append (.fixed (by decide) (Expr.tidy legible.1.2)) (.fixed (by decide) body)
  | .ifElse _ condition yes no, legible => by
    simp only [Statement.forms, allLegible_append, allLegible_cons, allLegible_parens] at legible
    have body := yes.tidy_asBody (yes.tidy legible.1.2)
    have other := no.tidy_asElse (no.tidy legible.2.2)
    have condition := Expr.tidy legible.1.1.2
    exact .append (.append (.append (.fixed (by decide) condition) (.fixed (by decide) body))
      yes.tidy_elseAfter) other
  | .whileLoop _ condition body, legible => by
    simp only [Statement.forms, allLegible_append, allLegible_cons, allLegible_parens] at legible
    have body := body.tidy_asBody (body.tidy legible.2)
    exact .append (.fixed (by decide) (Expr.tidy legible.1.2)) (.fixed (by decide) body)
  | .doWhile _ body condition, legible => by
    simp only [Statement.forms, allLegible_append, allLegible_cons, allLegible_parens] at legible
    have body := body.tidy legible.1.1.2
    have condition := Expr.tidy legible.1.2.2
    exact .append (.append (.fixed (by decide) body) (.fixed (by decide) condition))
      (.fixed (by decide) .nil)
  | .forLoop _ init condition update body, legible => by
    simp only [Statement.forms, allLegible_append, allLegible_cons, allLegible_parens] at legible
    have between := tidy_forMarks legible.1.2.1.1 legible.1.2.1.2.2 legible.1.2.2.2
    have body := body.tidy_asBody (body.tidy legible.2)
    exact .append (.fixed (by decide) between) (.fixed (by decide) body)
  | .forEach _ modifiers type name items body, legible => by
    simp only [Statement.forms, allLegible_append, allLegible_cons, allLegible_parens] at legible
    have variable' := tidy_typedName legible.1.2.1.2 legible.1.2.2.1
    have items := Expr.tidy legible.1.2.2.2.2
    have body := body.tidy_asBody (body.tidy legible.2)
    have modifiers := Tidy.fixed (t := "for (") (by decide) (tidy_modifierMarks modifiers)
    exact .append (.append (.append modifiers variable') (.fixed (by decide) items))
      (.fixed (by decide) body)
  | .tryCatch _ body catches, legible => by
    simp only [Statement.forms, allLegible_append, allLegible_cons, allLegible_flatten,
      CatchClause.formsOf_eq_map, List.forall_mem_map] at legible
    have body := body.tidy legible.1.2
    exact .append (.fixed (by decide) body) (CatchClause.tidyAll catches legible.2)
  | .tryFinally _ body catches last, legible => by
    simp only [Statement.forms, allLegible_append, allLegible_cons, allLegible_flatten,
      CatchClause.formsOf_eq_map, List.forall_mem_map] at legible
    have body := body.tidy legible.1.1.2
    have last := last.tidy legible.2.2
    exact .append (.append (.fixed (by decide) body) (CatchClause.tidyAll catches legible.1.2))
      (.fixed (by decide) last)
  | .returns _ none, _ => .fixed (by decide) .nil
  | .returns _ (some value), legible => by
    simp only [Statement.forms, Expr.formsOption, allLegible_append, allLegible_cons] at legible
    exact .append (.fixed (by decide) (Expr.tidy legible.1.2)) (.fixed (by decide) .nil)
  | .throws _ value, legible => by
    simp only [Statement.forms, allLegible_append, allLegible_cons] at legible
    exact .append (.fixed (by decide) (Expr.tidy legible.1.2)) (.fixed (by decide) .nil)
  | .breaks _, _ | .continues _, _ | .empty _, _ => .fixed (by decide) .nil
  | .expression _ value, legible => by
    simp only [Statement.forms, allLegible_append] at legible
    exact (Expr.tidy legible.1).append (.fixed (by decide) .nil)
  | .runAs _ user body, legible => by
    simp only [Statement.forms, allLegible_append, allLegible_cons, allLegible_parens] at legible
    have body := body.tidy legible.2
    exact .append (.fixed (by decide) (Expr.tidy legible.1.2.2.2)) (.fixed (by decide) body)
  | .dml _ op target, legible => by
    simp only [Statement.forms, allLegible_append, allLegible_cons] at legible
    have target := Tidy.fixed (t := " ") (by decide) (Expr.tidy legible.1.2)
    exact .append (.fixed (by cases op <;> decide) target) (.fixed (by decide) .nil)
  | .upsert _ target none, legible => by
    simp only [Statement.forms, allLegible_append, allLegible_cons] at legible
    exact .append (.fixed (by decide) (Expr.tidy legible.1.2)) (.fixed (by decide) .nil)
  | .upsert _ target (some key), legible => by
    simp only [Statement.forms, allLegible_append, allLegible_cons] at legible
    have key := key.balanced legible.1.2
    exact .append (.fixed (by decide) (Expr.tidy legible.1.1.2))
      (.fixed (by decide) (.write key (.fixed (by decide) .nil)))
  | .merge _ master duplicate, legible => by
    simp only [Statement.forms, allLegible_append, allLegible_cons] at legible
    have duplicate := Tidy.fixed (t := " ") (by decide) (Expr.tidy legible.1.2)
    exact .append (.append (.fixed (by decide) (Expr.tidy legible.1.1.2)) duplicate)
      (.fixed (by decide) .nil)

theorem CatchClause.tidyAll : (cs : List CatchClause) → (∀ c ∈ cs, AllLegible c.forms) →
    Tidy (CatchClause.marksOf cs)
  | [], _ => .nil
  | c :: cs, legible => by
    rw [List.forall_mem_cons] at legible
    exact (c.tidy legible.1).append (CatchClause.tidyAll cs legible.2)

theorem CatchClause.tidy : (c : CatchClause) → AllLegible c.forms → Tidy c.marks
  | .mk _ modifiers type name body, legible => by
    simp only [CatchClause.forms, allLegible_append, allLegible_cons, allLegible_parens] at legible
    have variable' := tidy_typedName legible.1.2.1.2 legible.1.2.2.1
    have body := body.tidy legible.2
    have first := Tidy.fixed (t := " catch (") (by decide) (tidy_modifierMarks modifiers)
    exact .append (.append first variable') (.fixed (by decide) body)

end

/-! ## Declarations -/

theorem tidy_headerMarks {items : List HeaderItem}
    (legible : ∀ item ∈ items, AllLegible item.forms) (behindModifier : Bool) :
    Tidy (headerMarks behindModifier items) := by
  induction items generalizing behindModifier with
  | nil => exact .nil
  | cons item items ih =>
    rw [List.forall_mem_cons] at legible
    have later := ih legible.2
    cases item with
    | modifier m =>
      have row := Tidy.write m.value.balanced (.fixed (t := " ") (by decide) (later true))
      cases behindModifier <;> exact row
    | annotated a =>
      have balanced := a.balanced legible.1
      cases behindModifier with
      | true => exact .write balanced (.fixed (by decide) (later true))
      | false => exact .write balanced (.newline (later false))

theorem Header.tidy {h : Header} (legible : AllLegible h.forms) : Tidy h.marks :=
  tidy_headerMarks (allLegible_flatMap.mp legible) false

theorem Parameter.tidy {p : Parameter} (legible : AllLegible p.forms) : Tidy p.marks := by
  simp only [forms, allLegible_append, allLegible_cons] at legible
  exact (tidy_modifierMarks _).append (tidy_typedName legible.1.2 legible.2.1)

theorem tidy_parameterMarks {parameters : List Parameter}
    (legible : AllLegible (Parameter.formsOf parameters)) : Tidy (parameterMarks parameters) := by
  simp only [Parameter.formsOf, allLegible_parens, allLegible_commas, List.forall_mem_map]
    at legible
  have inner := Tidy.commas fun p mem => Parameter.tidy (legible p mem)
  exact .append (.fixed (by decide) inner) (.fixed (by decide) .nil)

theorem tidy_bodyOrSemicolon {body : Option Block} (legible : AllLegible (Block.formsOption body)) :
    Tidy (bodyOrSemicolon body) := by
  cases body with
  | none => exact .fixed (by decide) .nil
  | some body => exact .fixed (by decide) (body.tidy legible)

theorem Field.tidy {f : Field} (legible : AllLegible f.forms) : Tidy f.marks := by
  simp only [forms, allLegible_append, allLegible_commas, List.forall_mem_map] at legible
  have declarators := Tidy.commas fun d mem => Declarator.tidy (legible.1.2 d mem)
  have type := f.type.balanced legible.1.1.2
  refine .append (.append (Header.tidy legible.1.1.1) ?_) (.fixed (by decide) .nil)
  exact .write type (.fixed (by decide) declarators)

theorem Method.tidy {m : Method} (legible : AllLegible m.forms) : Tidy m.marks := by
  simp only [forms, allLegible_append, allLegible_cons] at legible
  obtain ⟨⟨⟨header, result⟩, word, parameters⟩, body⟩ := legible
  have called := Tidy.write (.word word) (tidy_parameterMarks parameters)
  have named := Tidy.fixed (t := " ") (by decide) called
  refine .append (.append (Header.tidy header) (.write ?_ named)) (tidy_bodyOrSemicolon body)
  cases found : m.returnType with
  | none => exact .fixed (by decide)
  | some type =>
    rw [found] at result
    exact type.balanced result

theorem Constructor.tidy {c : Constructor} (legible : AllLegible c.forms) : Tidy c.marks := by
  simp only [forms, allLegible_append, allLegible_cons] at legible
  obtain ⟨⟨header, word, parameters⟩, body⟩ := legible
  have row := Tidy.write (.word word) (tidy_parameterMarks parameters)
  exact .append (.append (Header.tidy header) row) (.fixed (by decide) (c.body.tidy body))

theorem Accessor.tidy {a : Accessor} (legible : AllLegible a.forms) : Tidy a.marks := by
  simp only [forms, allLegible_append, allLegible_cons] at legible
  have word : a.kind.word.toList.all isPlain = true := by cases a.kind <;> decide
  exact .append (tidy_modifierMarks _) (.fixed word (tidy_bodyOrSemicolon legible.2.2))

theorem Property.tidy {p : Property} (legible : AllLegible p.forms) : Tidy p.marks := by
  simp only [forms, allLegible_append, allLegible_cons, allLegible_braces, allLegible_flatMap]
    at legible
  obtain ⟨⟨header, type⟩, word, accessors⟩ := legible
  have inner : Tidy (p.accessors.flatMap fun a => a.marks ++ [.newline]) :=
    .flatMap fun a mem => (Accessor.tidy (accessors a mem)).append (.newline .nil)
  refine .append (.append (.append (Header.tidy header) (tidy_typedName type word)) ?_) ?_
  · exact .fixed (by decide) (.newline (.indent inner))
  · exact .dedent (.fixed (by decide) .nil)

theorem Initializer.tidy {i : Initializer} (legible : AllLegible i.forms) : Tidy i.marks := by
  simp only [forms, allLegible_append] at legible
  refine .append ?_ (i.body.tidy legible.2)
  split
  · exact .fixed (by decide) .nil
  · exact .nil

theorem ClassHead.tidy {c : ClassHead} (legible : AllLegible c.forms) : Tidy c.marks := by
  simp only [forms, allLegible_append, allLegible_cons] at legible
  obtain ⟨⟨header, -, word, base⟩, interfaces⟩ := legible
  have base := TypeRef.balanced_listAfter " extends " (by decide) base
  have interfaces := TypeRef.balanced_listAfter " implements " (by decide) interfaces
  refine .append (Header.tidy header) ?_
  exact .fixed (by decide) (.write (.word word) (.write base (.write interfaces .nil)))

theorem InterfaceHead.tidy {i : InterfaceHead} (legible : AllLegible i.forms) : Tidy i.marks := by
  simp only [forms, allLegible_append, allLegible_cons] at legible
  obtain ⟨header, -, word, bases⟩ := legible
  have bases := TypeRef.balanced_listAfter " extends " (by decide) bases
  exact .append (Header.tidy header) (.fixed (by decide) (.write (.word word) (.write bases .nil)))

theorem EnumDeclaration.tidy {e : EnumDeclaration} (legible : AllLegible e.forms) :
    Tidy e.marks := by
  simp only [forms, allLegible_append, allLegible_cons, allLegible_braces, allLegible_commas,
    List.forall_mem_map] at legible
  obtain ⟨header, -, word, constants, -⟩ := legible
  have names : Balanced (String.intercalate ", " (e.constants.map (·.value))).toList := by
    rw [String.toList_intercalate, List.map_map]
    refine .intercalate (by decide) ?_
    rw [List.forall_mem_map]
    exact fun i mem => .word (constants i mem).1
  have comma : Balanced (if e.trailingComma then "," else "").toList := by
    cases e.trailingComma <;> exact .fixed (by decide)
  refine .append (.append (Header.tidy header) (.fixed (by decide) (.write (.word word) .nil))) ?_
  split
  · exact .fixed (by decide) .nil
  · exact .fixed (by decide) (.write names (.write comma (.fixed (by decide) .nil)))

theorem Trigger.tidy {t : Trigger} (legible : AllLegible t.forms) : Tidy t.marks := by
  simp only [forms, allLegible_append, allLegible_cons] at legible
  obtain ⟨⟨-, word, -, object, -⟩, body⟩ := legible
  have events : Balanced (String.intercalate ", " (t.events.map (·.value.text))).toList := by
    rw [String.toList_intercalate, List.map_map]
    refine .intercalate (by decide) ?_
    rw [List.forall_mem_map]
    intro event mem
    refine .fixed ?_
    show event.value.text.toList.all isPlain = true
    cases event.value <;> decide
  have behind := Tidy.write events (.fixed (t := ") ") (by decide) .nil)
  have row := Tidy.fixed (t := " (") (by decide) behind
  have object := Tidy.fixed (t := " on ") (by decide) (.write (.word object) row)
  exact .append (.fixed (by decide) (.write (.word word) object)) (t.body.tidy body)

theorem tidy_memberBraces {members : List Mark} (h : Tidy members) :
    Tidy (memberBraces members) := by
  unfold memberBraces
  split
  · exact .fixed (by decide) .nil
  · exact .append (.fixed (by decide) (.newline (.indent h)))
      (.newline (.dedent (.fixed (by decide) .nil)))

theorem tidy_interfaceMarks {methods : List (Spanned Method)}
    (legible : ∀ m ∈ methods, AllLegible m.value.forms) : Tidy (interfaceMarks methods) := by
  cases methods with
  | nil => exact .nil
  | cons m ms =>
    rw [List.forall_mem_cons] at legible
    exact (Method.tidy legible.1).append
      (.flatMap fun m mem => .gap (Method.tidy (legible.2 m mem)))

theorem Member.tidy_separator (before after : Member) {marks : List Mark} (h : Tidy marks) :
    Tidy (before.separator after :: marks) := by
  unfold separator
  split
  · exact .newline h
  · exact .gap h

mutual

theorem TypeDeclaration.tidy : (d : TypeDeclaration) → AllLegible d.forms → Tidy d.marks
  | .classType _ head members, legible => by
    simp only [TypeDeclaration.forms, allLegible_append, allLegible_braces, allLegible_flatten,
      Member.formsOf_eq_map, List.forall_mem_map] at legible
    exact (ClassHead.tidy legible.1).append
      (tidy_memberBraces (Member.tidyAll members legible.2 none))
  | .interfaceType _ head methods, legible => by
    simp only [TypeDeclaration.forms, allLegible_append, allLegible_braces, allLegible_flatMap]
      at legible
    exact (InterfaceHead.tidy legible.1).append
      (tidy_memberBraces (tidy_interfaceMarks legible.2))
  | .enumType _ declaration, legible => EnumDeclaration.tidy legible

theorem Member.tidy : (m : Member) → AllLegible m.forms → Tidy m.marks
  | .field _ f, legible => Field.tidy legible
  | .method _ m, legible => Method.tidy legible
  | .constructor _ c, legible => Constructor.tidy legible
  | .property _ p, legible => Property.tidy legible
  | .initializer _ i, legible => Initializer.tidy legible
  | .type declaration, legible => declaration.tidy legible
  | .stray _, _ => .fixed (by decide) .nil

theorem Member.tidyAll : (ms : List Member) → (∀ m ∈ ms, AllLegible m.forms) →
    (previous : Option Member) → Tidy (Member.marksOf previous ms)
  | [], _, _ => .nil
  | m :: ms, legible, previous => by
    rw [List.forall_mem_cons] at legible
    have row := (m.tidy legible.1).append (Member.tidyAll ms legible.2 (some m))
    cases previous with
    | none => exact row
    | some before => exact before.tidy_separator m row

end

/-- The page of a program is tidy. -/
theorem CompilationUnit.tidy {u : CompilationUnit} (legible : AllLegible u.forms) :
    Tidy u.marks := by
  have declared := (allLegible_append.mp legible).1
  refine .append ?_ ?_
  · cases found : u.declaration with
    | type declaration =>
      rw [found] at declared
      exact declaration.tidy declared
    | trigger _ t =>
      rw [found] at declared
      exact Trigger.tidy declared
    | nothing => exact .nil
  · generalize u.trailingSemicolons = n
    induction n with
    | zero => exact .nil
    | succ n ih => exact .fixed (by decide) ih

/-! ## The settings -/

/-- Pages of one row of settled lines say the same, whatever the settings are. -/
theorem saysSame_renderMarks {marks : List Mark} (settled : AllSettled marks)
    (settings settings' : LayoutSettings) :
    (lexFrom ⟨[], [], 0⟩ 0 (renderMarks settings marks).toList).SaysSame
      (lexFrom ⟨[], [], 0⟩ 0 (renderMarks settings' marks).toList) := by
  have fresh : Lexing.SaysSame ⟨[], [], 0⟩ ⟨[], [], 0⟩ := ⟨rfl, rfl⟩
  have first := (laidOut_renderMarks settings marks).saysSame_lexFrom settled fresh
  have second := (laidOut_renderMarks settings' marks).saysSame_lexFrom settled fresh
  exact first.trans second.symm

/-- The settings have a say in the layout only. The texts of an accepted program under any two
settings are equal when the spaces at the beginnings of lines and all blank lines are taken away.
They are cut into tokens that say the same, or both have the same lexical faults. -/
theorem lines_and_tokens_of_text {source : String} {unit : CompilationUnit}
    (accepted : parseSource source = .ok unit) (settings settings' : LayoutSettings) :
    bareLines (unit.text settings).toList = bareLines (unit.text settings').toList ∧
      match lex (unit.text settings), lex (unit.text settings') with
      | .ok tokens, .ok tokens' => List.Forall₂ Token.SaysSame tokens tokens'
      | .error errors, .error errors' => errors.map LexError.fault = errors'.map LexError.fault
      | _, _ => False := by
  constructor
  · have lines := (laidOut_renderMarks settings unit.marks).bareLines_eq
    have lines' := (laidOut_renderMarks settings' unit.marks).bareLines_eq
    exact lines.trans lines'.symm
  · cases read : lex source with
    | error errors =>
      unfold parseSource at accepted
      rw [read] at accepted
      cases errors <;> cases accepted
    | ok tokens =>
      unfold parseSource at accepted
      rw [read] at accepted
      have sound := sound_of_lex read
      obtain ⟨c', stands⟩ := (parse_echoes accepted sound).1
      have legible := legible_of_stands stands sound
      have settled := (CompilationUnit.tidy legible).allSettled
      exact (saysSame_renderMarks settled settings settings').lex

/-- Indices, a division and a query on two lines, without any indentation and with gaps of three
lines. -/
theorem lines_and_tokens_of_text_narrow :
    ∃ unit, parseSource
        "class C \x7b A a = b[c / 2]; B m() \x7b return [select d\n from E]; \x7d \x7d" = .ok unit ∧
      bareLines (unit.text ⟨0, 3⟩).toList = bareLines (unit.text ⟨4, 1⟩).toList ∧
      match lex (unit.text ⟨0, 3⟩), lex (unit.text ⟨4, 1⟩) with
      | .ok tokens, .ok tokens' => List.Forall₂ Token.SaysSame tokens tokens'
      | .error errors, .error errors' => errors.map LexError.fault = errors'.map LexError.fault
      | _, _ => False := by
  have found : (parseSource
      "class C \x7b A a = b[c / 2]; B m() \x7b return [select d\n from E]; \x7d \x7d").toBool =
      true := by
    decide +kernel
  cases accepted : parseSource
      "class C \x7b A a = b[c / 2]; B m() \x7b return [select d\n from E]; \x7d \x7d" with
  | error e =>
    rw [accepted] at found
    cases found
  | ok unit => exact ⟨unit, rfl, lines_and_tokens_of_text accepted ⟨0, 3⟩ ⟨4, 1⟩⟩

end Apex
