import Apex.Layout.Format
import Apex.Proofs.Echo.Programs
import Apex.Proofs.Shape.Programs
import Apex.Proofs.Writing.Neatness

/-!
# Pages are clean

Each statement and each declaration leaves the page on the level on which it finds it, and its last
line with something written at its end. So whatever a program is made of, its page has clean lines,
all levels that were entered are left, and no level is left that was not entered.
-/

namespace Apex

open Form Grammar

variable {raws raws' : List (List Char)} {marks marks' : List Mark}

/-! ## Statements -/

theorem Whole.modifiers (modifiers : List (Spanned Modifier)) (h : Whole raws marks) :
    Whole raws (modifierMarks modifiers ++ marks) := by
  induction modifiers with
  | nil => exact h
  | cons m modifiers ih => exact .write m.value.tight (.lead (by decide) ih)

theorem whole_typedName {type : TypeRef} {name : Ident} (sound : type.node.IsSound)
    (legible : AllLegible type.forms) (word : IsWord name.value) :
    Whole [] (typedName type name) :=
  .write (type.tight sound legible) (.lead (by decide) (.write (.word word) .nil))

theorem Declarator.whole {d : Declarator} (sound : d.node.IsSound) (legible : AllLegible d.forms) :
    Whole (Form.raws d.forms) d.marks := by
  obtain ⟨span, name, value⟩ := d
  have below := sound.children
  simp only [node, Node.children, Node.allSound_cons] at below
  cases value with
  | none =>
    have word := (allLegible_cons.mp legible).1
    simpa [forms, Declarator.marks] using Whole.write (.word word) .nil
  | some value =>
    simp only [forms, allLegible_cons] at legible
    have value := value.whole (by simpa using below.2) legible.2.2
    have behind := Behind.lead (t := " = ") (by decide) value
    simpa [forms, Declarator.marks] using Whole.write (.word legible.1) behind

theorem LocalVariables.whole {v : LocalVariables} {span : Span}
    (sound : (Node.mk (.locals v) span v.nodes).IsSound) (legible : AllLegible v.forms) :
    Whole (Form.raws v.forms) v.marks := by
  have filled : v.declarators ≠ [] := sound.element.2
  have below := sound.children
  simp only [Node.children, nodes, Node.allSound_append, Node.allSound_cons, Node.allSound_map]
    at below
  simp only [forms, allLegible_append, allLegible_commas, List.forall_mem_map] at legible
  have declarators := Whole.commas
    (fun d mem => Declarator.whole (below.2.2 d mem) (legible.2 d mem)) filled
  have typed := Whole.write (v.type.tight below.2.1 legible.1.2)
    (.lead (t := " ") (by decide) declarators)
  simpa [forms, LocalVariables.marks] using typed.modifiers v.modifiers

theorem ForInit.behind {init : ForInit} (sound : Node.AllSound init.nodes)
    (legible : AllLegible init.forms) : Behind (Form.raws init.forms) init.marks := by
  cases init with
  | nothing => exact .nil
  | declaration span locals =>
    exact (LocalVariables.whole (Node.allSound_cons.mp sound).1 legible).behind
  | expressions values =>
    rw [nodes, Expr.nodes_eq_map, Node.allSound_map] at sound
    simp only [forms, allLegible_commas, List.forall_mem_map] at legible
    simpa [forms, ForInit.marks] using Behind.commas (Expr.wholeAll values sound legible)

theorem behind_forMarks {init : ForInit} {condition : Option Expr} {update : List Expr}
    (soundInit : Node.AllSound init.nodes) (soundCondition : ∀ e ∈ condition, e.node.IsSound)
    (soundUpdate : ∀ e ∈ update, e.node.IsSound) (legible : AllLegible init.forms)
    (legible' : AllLegible (Expr.formsOption condition))
    (legible'' : AllLegible (commas (update.map Expr.forms))) :
    Behind (Form.raws (init.forms ++ mark .semicolon :: Expr.formsOption condition ++
      mark .semicolon :: commas (update.map Expr.forms))) (forMarks init condition update) := by
  rw [allLegible_commas, List.forall_mem_map] at legible''
  have last : Behind (update.flatMap fun e => Form.raws e.forms)
      (if update.isEmpty then [] else .text " " :: commaMarks (update.map Expr.marks)) := by
    cases update with
    | nil => exact .nil
    | cons e es =>
      exact .lead (by decide)
        (.commas (Expr.wholeAll (e :: es) soundUpdate legible'') (List.cons_ne_nil _ _))
  have last := last.text (t := ";") (by decide)
  have first := (ForInit.behind soundInit legible)
  cases condition with
  | none =>
    have middle := Behind.text (t := ";") (by decide) last
    simpa [forMarks, Expr.formsOption] using first.append middle
  | some e =>
    have condition := (e.whole (soundCondition e rfl) legible').append last
    have middle := Behind.text (t := ";") (by decide) (.lead (t := " ") (by decide) condition)
    simpa [forMarks, Expr.formsOption] using first.append middle

namespace Statement

variable (s : Statement)

theorem behind_asBody (h : Whole raws marks) : Behind raws (s.asBody marks) := by
  unfold asBody
  split
  · exact .lead (by decide) h
  · exact Neat.newline (h .fresh).nested

theorem behind_elseAfter : Behind [] s.elseAfter := by
  unfold elseAfter
  split
  · exact .text (by decide) .nil
  · have word : Whole [] [.text "else"] := .text (by decide) (by decide) .nil
    exact Neat.newline (word .fresh)

theorem behind_asElse (h : Whole raws marks) : Behind raws (s.asElse marks) := by
  unfold asElse
  split
  · exact .lead (by decide) h
  · exact s.behind_asBody h

end Statement

/-- Something in parentheses, which are written together with what stands around them. -/
theorem Whole.headed (opening : String) {closing : String} (h : Behind raws marks)
    (opens : (isOpening opening && isClosing opening) = true)
    (rest : Behind raws' (.text closing :: marks')) :
    Whole (raws ++ raws') (.text opening :: marks ++ .text closing :: marks') := by
  rw [Bool.and_eq_true] at opens
  have whole := Whole.text opens.1 opens.2 (h.append rest)
  rwa [List.cons_append]

/-- A semicolon behind something. -/
theorem Whole.semicolon (h : Whole raws marks) : Whole raws (marks ++ [.text ";"]) :=
  h.ending (by decide)

mutual

/-- A block. -/
theorem Block.whole : (b : Block) → b.node.IsSound → AllLegible b.forms →
    Whole (Form.raws b.forms) b.marks
  | .mk _ [], _, _ => .text (by decide) (by decide) .nil
  | .mk _ (s :: ss), sound, legible => by
    have below := sound.children
    simp only [Block.node, Node.children, Statement.nodes_eq_map, Node.allSound_map] at below
    simp only [Block.forms, allLegible_braces, Statement.formsOf_eq_map, allLegible_flatten,
      List.forall_mem_map] at legible
    have lines := (Statement.neat_lines (s :: ss) below legible).braces
    have whole := Whole.text (t := "\x7b") (by decide) (by decide) lines
    simpa [Block.forms, Block.marks, Statement.lines] using whole

/-- Statements on their lines. -/
theorem Statement.neat_lines : (ss : List Statement) → (∀ s ∈ ss, s.node.IsSound) →
    (∀ s ∈ ss, AllLegible s.forms) →
    Neat (ss.flatMap fun s => Form.raws s.forms) .fresh (Statement.lines ss) .fresh
  | [], _, _ => .nil
  | s :: ss, sound, legible => by
    rw [List.forall_mem_cons] at sound legible
    have later := Statement.neat_lines ss sound.2 legible.2
    exact (s.whole sound.1 legible.1 .fresh).append later.newline

/-- A statement. -/
theorem Statement.whole (s : Statement) (sound : s.node.IsSound) (legible : AllLegible s.forms) :
    Whole (Form.raws s.forms) s.marks := by
  have below := sound.children
  cases s with
  | block body => exact body.whole sound legible
  | locals _ locals =>
    have declared := LocalVariables.whole sound (allLegible_append.mp legible).1
    simpa [Statement.forms, Statement.marks] using declared.semicolon
  | ifThen _ condition yes =>
    simp only [Statement.node, Node.children, Node.allSound_cons] at below
    simp only [Statement.forms, allLegible_append, allLegible_cons, allLegible_parens] at legible
    have body := yes.behind_asBody (yes.whole below.2.1 legible.2)
    have condition := condition.whole below.1 legible.1.2
    have head := Whole.headed "if (" condition.behind (by decide)
      (.text (t := ")") (by decide) body)
    simpa [Statement.forms, Statement.marks] using head
  | ifElse _ condition yes no =>
    simp only [Statement.node, Node.children, Node.allSound_cons] at below
    simp only [Statement.forms, allLegible_append, allLegible_cons, allLegible_parens] at legible
    have no := no.behind_asElse (no.whole below.2.2.1 legible.2.2)
    have yes := (yes.behind_asBody (yes.whole below.2.1 legible.1.2)).append
      (yes.behind_elseAfter.append no)
    have condition := condition.whole below.1 legible.1.1.2
    have head := Whole.headed "if (" condition.behind (by decide)
      (.text (t := ")") (by decide) yes)
    simpa [Statement.forms, Statement.marks] using head
  | whileLoop _ condition body =>
    simp only [Statement.node, Node.children, Node.allSound_cons] at below
    simp only [Statement.forms, allLegible_append, allLegible_cons, allLegible_parens] at legible
    have body := body.behind_asBody (body.whole below.2.1 legible.2)
    have condition := condition.whole below.1 legible.1.2
    have head := Whole.headed "while (" condition.behind (by decide)
      (.text (t := ")") (by decide) body)
    simpa [Statement.forms, Statement.marks] using head
  | doWhile _ body condition =>
    simp only [Statement.node, Node.children, Node.allSound_cons] at below
    simp only [Statement.forms, allLegible_append, allLegible_cons, allLegible_parens] at legible
    have condition := (condition.whole below.2.1 legible.1.2.2).ending (t := ");") (by decide)
    have last := Behind.lead (t := " while (") (by decide) condition
    have body := (body.whole below.1 legible.1.1.2).append last
    simpa [Statement.forms, Statement.marks] using body.lead (t := "do ") (by decide)
  | forLoop _ init condition update body =>
    simp only [Statement.node, Node.children, Node.allSound_append, Node.allSound_cons,
      Node.allSound_option, Expr.nodes_eq_map, Node.allSound_map] at below
    simp only [Statement.forms, allLegible_append, allLegible_cons, allLegible_parens] at legible
    have between := behind_forMarks below.1.1.1 below.1.1.2 below.1.2 legible.1.2.1.1
      legible.1.2.1.2.2 legible.1.2.2.2
    have body := body.behind_asBody (body.whole below.2.1 legible.2)
    have head := Whole.headed "for (" between (by decide)
      (.text (t := ")") (by decide) body)
    simpa [Statement.forms, Statement.marks] using head
  | forEach _ modifiers type name items body =>
    simp only [Statement.node, Node.children, Node.allSound_append, Node.allSound_cons] at below
    simp only [Statement.forms, allLegible_append, allLegible_cons, allLegible_parens] at legible
    have body := body.behind_asBody (body.whole below.2.2.2.2.1 legible.2)
    have items := (items.whole below.2.2.2.1 legible.1.2.2.2.2).append
      (.text (t := ")") (by decide) body)
    have typed := whole_typedName below.2.1 legible.1.2.1.2 legible.1.2.2.1
    have row := typed.append (.lead (t := " : ") (by decide) items)
    have whole := (row.modifiers modifiers).lead (t := "for (") (by decide)
    simpa [Statement.forms, Statement.marks] using whole
  | tryCatch _ body catches =>
    simp only [Statement.node, Node.children, Node.allSound_cons, CatchClause.nodes_eq_map,
      Node.allSound_map] at below
    simp only [Statement.forms, allLegible_append, allLegible_cons, CatchClause.formsOf_eq_map,
      allLegible_flatten, List.forall_mem_map] at legible
    have handlers := CatchClause.behind_marksOf catches below.2 legible.2
    have body := (body.whole below.1 legible.1.2).append handlers
    simpa [Statement.forms, Statement.marks] using body.lead (t := "try ") (by decide)
  | tryFinally _ body catches last =>
    simp only [Statement.node, Node.children, Node.allSound_append, Node.allSound_cons,
      CatchClause.nodes_eq_map, Node.allSound_map] at below
    simp only [Statement.forms, allLegible_append, allLegible_cons, CatchClause.formsOf_eq_map,
      allLegible_flatten, List.forall_mem_map] at legible
    have handlers := CatchClause.behind_marksOf catches below.1.2 legible.1.2
    have last := Behind.lead (t := " finally ") (by decide) (last.whole below.2.1 legible.2.2)
    have body := (body.whole below.1.1 legible.1.1.2).append (handlers.append last)
    simpa [Statement.forms, Statement.marks] using body.lead (t := "try ") (by decide)
  | returns _ value =>
    cases value with
    | none => exact .text (by decide) (by decide) .nil
    | some value =>
      simp only [Statement.node, Node.children, Node.allSound_option] at below
      simp only [Statement.forms, Expr.formsOption, allLegible_append, allLegible_cons] at legible
      have value := (value.whole (below value rfl) legible.1.2).semicolon
      simpa [Statement.forms, Statement.marks, Expr.formsOption] using
        value.lead (t := "return ") (by decide)
  | throws _ value =>
    simp only [Statement.node, Node.children, Node.allSound_cons] at below
    simp only [Statement.forms, allLegible_append, allLegible_cons] at legible
    have value := (value.whole below.1 legible.1.2).semicolon
    simpa [Statement.forms, Statement.marks] using value.lead (t := "throw ") (by decide)
  | breaks _ | continues _ | empty _ => exact .text (by decide) (by decide) .nil
  | expression _ value =>
    simp only [Statement.node, Node.children, Node.allSound_cons] at below
    simp only [Statement.forms, allLegible_append] at legible
    simpa [Statement.forms, Statement.marks] using (value.whole below.1 legible.1).semicolon
  | runAs _ user body =>
    simp only [Statement.node, Node.children, Node.allSound_cons] at below
    simp only [Statement.forms, allLegible_append, allLegible_cons, allLegible_parens] at legible
    have body := Behind.lead (t := ") ") (by decide) (body.whole below.2.1 legible.2)
    have user := user.whole below.1 legible.1.2.2.2
    have head := Whole.headed "System.runAs(" user.behind (by decide) body
    simpa [Statement.forms, Statement.marks] using head
  | dml _ op target =>
    simp only [Statement.node, Node.children, Node.allSound_cons] at below
    simp only [Statement.forms, allLegible_append, allLegible_cons] at legible
    have target := (target.whole below.1 legible.1.2).semicolon
    have behind := Behind.lead (t := " ") (by decide) target
    have word := Whole.text (t := op.word) (by cases op <;> decide) (by cases op <;> decide) behind
    simpa [Statement.forms, Statement.marks] using word
  | upsert _ target key =>
    simp only [Statement.node, Node.children, Node.allSound_cons, Node.allSound_option] at below
    cases key with
    | none =>
      simp only [Statement.forms, allLegible_append, allLegible_cons] at legible
      have target := (target.whole below.1 legible.1.2).semicolon
      simpa [Statement.forms, Statement.marks] using target.lead (t := "upsert ") (by decide)
    | some key =>
      simp only [Statement.forms, allLegible_append, allLegible_cons] at legible
      have key := (Whole.write (key.tight (below.2 key rfl) legible.1.2) .nil).semicolon
      have target := (target.whole below.1 legible.1.1.2).append
        (.lead (t := " ") (by decide) key)
      simpa [Statement.forms, Statement.marks] using target.lead (t := "upsert ") (by decide)
  | merge _ master duplicate =>
    simp only [Statement.node, Node.children, Node.allSound_cons] at below
    simp only [Statement.forms, allLegible_append, allLegible_cons] at legible
    have duplicate := (duplicate.whole below.2.1 legible.1.2).semicolon
    have both := (master.whole below.1 legible.1.1.2).append
      (.lead (t := " ") (by decide) duplicate)
    simpa [Statement.forms, Statement.marks] using both.lead (t := "merge ") (by decide)

/-- The handlers of a `try`. -/
theorem CatchClause.behind_marksOf : (cs : List CatchClause) → (∀ c ∈ cs, c.node.IsSound) →
    (∀ c ∈ cs, AllLegible c.forms) →
    Behind (cs.flatMap fun c => Form.raws c.forms) (CatchClause.marksOf cs)
  | [], _, _ => .nil
  | c :: cs, sound, legible => by
    rw [List.forall_mem_cons] at sound legible
    exact (c.behind sound.1 legible.1).append (CatchClause.behind_marksOf cs sound.2 legible.2)

/-- A handler of a `try`. -/
theorem CatchClause.behind : (c : CatchClause) → c.node.IsSound → AllLegible c.forms →
    Behind (Form.raws c.forms) c.marks
  | .mk _ modifiers type name body, sound, legible => by
    have below := sound.children
    simp only [CatchClause.node, Node.children, Node.allSound_append, Node.allSound_cons] at below
    simp only [CatchClause.forms, allLegible_append, allLegible_cons, allLegible_parens] at legible
    have body := Behind.lead (t := ") ") (by decide) (body.whole below.2.2.2.1 legible.2)
    have typed := (whole_typedName below.2.1 legible.1.2.1.2 legible.1.2.2.1).append body
    have behind := Behind.lead (t := " catch (") (by decide) (typed.modifiers modifiers)
    simpa [CatchClause.forms, CatchClause.marks] using behind

end

/-! ## Parts of declarations -/

/-- The marks make lines of their own, the last of which is not ended yet. -/
def OnLines (raws : List (List Char)) (marks : List Mark) : Prop := Neat raws .fresh marks .solid

theorem OnLines.ne_nil (h : OnLines raws marks) : marks ≠ [] := by
  rintro rfl
  have fits : Fits .fresh 0 (raws ++ []) [] := h .done
  generalize raws ++ [] = all at fits
  cases fits

/-- Behind a modifier a header stays on its line. -/
theorem Whole.behindModifier (items : List HeaderItem)
    (legible : ∀ i ∈ items, AllLegible i.forms) (h : Whole raws marks) :
    Whole (Form.raws (items.flatMap HeaderItem.forms) ++ raws)
      (headerMarks true items ++ marks) := by
  induction items with
  | nil => exact h
  | cons item items ih =>
    rw [List.forall_mem_cons] at legible
    have later := Behind.lead (t := " ") (by decide) (ih legible.2)
    rw [List.flatMap_cons, raws_append, List.append_assoc]
    cases item with
    | modifier m =>
      rw [HeaderItem.forms, Modifier.raws_forms]
      exact .write m.value.tight later
    | annotated a => exact .write (a.tight legible.1) later

/-- Annotations before the first modifier have lines of their own. -/
theorem Whole.behindItems (items : List HeaderItem) (legible : ∀ i ∈ items, AllLegible i.forms)
    (h : Whole raws marks) :
    OnLines (Form.raws (items.flatMap HeaderItem.forms) ++ raws)
      (headerMarks false items ++ marks) := by
  induction items with
  | nil => exact h .fresh
  | cons item items ih =>
    rw [List.forall_mem_cons] at legible
    rw [List.flatMap_cons, raws_append, List.append_assoc]
    cases item with
    | modifier m =>
      have later := Behind.lead (t := " ") (by decide) (h.behindModifier items legible.2)
      rw [HeaderItem.forms, Modifier.raws_forms]
      exact Whole.write m.value.tight later .fresh
    | annotated a =>
      have later := (ih legible.2).newline
      exact Whole.write (a.tight legible.1) later .fresh

/-- A header before something. -/
theorem Whole.behindHeader {header : Header} (legible : AllLegible header.forms)
    (h : Whole raws marks) : OnLines (Form.raws header.forms ++ raws) (header.marks ++ marks) :=
  h.behindItems header.items (allLegible_flatMap.mp legible)

theorem Parameter.whole {p : Parameter} (sound : p.node.IsSound) (legible : AllLegible p.forms) :
    Whole (Form.raws p.forms) p.marks := by
  have below := sound.children
  simp only [node, Node.children, Node.allSound_append, Node.allSound_cons] at below
  simp only [forms, allLegible_append, allLegible_cons] at legible
  have typed := whole_typedName below.2.1 legible.1.2 legible.2.1
  simpa [forms, marks] using typed.modifiers p.modifiers

/-- Parameters in parentheses. -/
theorem behind_parameterMarks {parameters : List Parameter}
    (sound : ∀ p ∈ parameters, p.node.IsSound)
    (legible : AllLegible (Parameter.formsOf parameters)) :
    Behind (Form.raws (Parameter.formsOf parameters)) (parameterMarks parameters) := by
  simp only [Parameter.formsOf, allLegible_parens, allLegible_commas, List.forall_mem_map]
    at legible
  have inner := Behind.commas fun p mem => Parameter.whole (sound p mem) (legible p mem)
  simpa [Parameter.formsOf, parameterMarks] using
    inner.between "(" ")" (by decide)

theorem behind_bodyOrSemicolon {body : Option Block} (sound : ∀ b ∈ body, b.node.IsSound)
    (legible : AllLegible (Block.formsOption body)) :
    Behind (Form.raws (Block.formsOption body)) (bodyOrSemicolon body) := by
  cases body with
  | none => exact .text (by decide) .nil
  | some body => exact .lead (by decide) (body.whole (sound body rfl) legible)

/-- The types behind a word, which may be missing. -/
theorem Behind.listAfter (before : String) {k : Keyword} {types : List TypeRef}
    (within : isInline before = true) (sound : ∀ t ∈ types, t.node.IsSound)
    (legible : AllLegible (TypeRef.formsBehind k types)) (h : Behind raws marks) :
    Behind raws (.text (TypeRef.listAfter before types) :: marks) := by
  unfold TypeRef.listAfter
  unfold TypeRef.formsBehind at legible
  split
  · exact Neat.nothing h
  · next some =>
    rw [if_neg some] at legible
    simp only [allLegible_cons, allLegible_commas, List.forall_mem_map] at legible
    have filled : types ≠ [] := by simpa using some
    have list := Tight.intercalate [',', ' '] (by decide)
      (fun t mem => t.tight (sound t mem) (legible.2 t mem)) filled
    rw [flatMap_nil] at list
    have spelled : (before ++ TypeRef.listText types).toList =
        before.toList ++ [',', ' '].intercalate (types.map fun t => t.text.toList) := by
      rw [String.toList_append, TypeRef.listText, String.toList_intercalate,
        TypeRef.texts_eq_map, List.map_map]
      rfl
    rw [isInline, Bool.and_eq_true] at within
    exact .trail within.1 list spelled h

/-! ## Members -/

theorem Field.onLines {f : Field} {span : Span} (sound : (f.node span).IsSound)
    (legible : AllLegible f.forms) : OnLines (Form.raws f.forms) f.marks := by
  have filled : f.declarators ≠ [] := sound.element.2
  have below := sound.children
  simp only [node, Node.children, Node.allSound_append, Node.allSound_cons, Node.allSound_map]
    at below
  simp only [forms, allLegible_append, allLegible_commas, List.forall_mem_map] at legible
  have declarators := (Whole.commas
    (fun d mem => Declarator.whole (below.2.2 d mem) (legible.1.2 d mem)) filled).semicolon
  have typed := Whole.write (f.type.tight below.2.1 legible.1.1.2)
    (.lead (t := " ") (by decide) declarators)
  simpa [forms, marks] using typed.behindHeader legible.1.1.1

theorem Method.onLines {m : Method} {span : Span} (sound : (m.node span).IsSound)
    (legible : AllLegible m.forms) : OnLines (Form.raws m.forms) m.marks := by
  have below := sound.children
  simp only [node, Node.children, Node.allSound_append, Node.allSound_cons, Node.allSound_map,
    Node.allSound_option] at below
  simp only [forms, allLegible_append, allLegible_cons] at legible
  obtain ⟨⟨⟨header, result⟩, word, parameters⟩, body⟩ := legible
  have body := (behind_parameterMarks below.1.2.2 parameters).append
    (behind_bodyOrSemicolon below.2 body)
  have named := Behind.lead (t := " ") (by decide) (.write (.word word) body)
  cases found : m.returnType with
  | none =>
    have typed := Whole.text (t := "void") (by decide) (by decide) named
    simpa [forms, marks, found, returnForms] using typed.behindHeader header
  | some type =>
    rw [found] at result
    have typed := Whole.write (type.tight (below.1.1.2 type found) result) named
    simpa [forms, marks, found, returnForms] using typed.behindHeader header

theorem Constructor.onLines {c : Constructor} {span : Span} (sound : (c.node span).IsSound)
    (legible : AllLegible c.forms) : OnLines (Form.raws c.forms) c.marks := by
  have below := sound.children
  simp only [node, Node.children, Node.allSound_append, Node.allSound_cons, Node.allSound_map]
    at below
  simp only [forms, allLegible_append, allLegible_cons] at legible
  obtain ⟨⟨header, word, parameters⟩, body⟩ := legible
  have body := Behind.lead (t := " ") (by decide) (c.body.whole below.2.1 body)
  have called := (behind_parameterMarks below.1.2.2 parameters).append body
  have row := (Whole.write (.word word) called).behindHeader header
  simpa [forms, marks] using row

theorem Accessor.whole {a : Accessor} (sound : a.node.IsSound) (legible : AllLegible a.forms) :
    Whole (Form.raws a.forms) a.marks := by
  have below := sound.children
  simp only [node, Node.children, Node.allSound_append, Node.allSound_option] at below
  simp only [forms, allLegible_append, allLegible_cons] at legible
  have word := Whole.text (t := a.kind.word) (by cases a.kind <;> decide)
    (by cases a.kind <;> decide) (behind_bodyOrSemicolon below.2 legible.2.2)
  simpa [forms, marks] using word.modifiers a.modifiers

theorem Property.onLines {p : Property} {span : Span} (sound : (p.node span).IsSound)
    (legible : AllLegible p.forms) : OnLines (Form.raws p.forms) p.marks := by
  have below := sound.children
  simp only [node, Node.children, Node.allSound_append, Node.allSound_cons, Node.allSound_map]
    at below
  simp only [forms, allLegible_append, allLegible_cons, allLegible_braces, allLegible_flatMap]
    at legible
  obtain ⟨⟨header, type⟩, word, accessors⟩ := legible
  have lines : Neat (p.accessors.flatMap fun a => Form.raws a.forms) .fresh
      (p.accessors.flatMap fun a => a.marks ++ [.newline]) .fresh := by
    refine .flatMap fun a mem => ?_
    have row := Accessor.whole (below.2.2.2 a mem) (accessors a mem)
    exact (row .fresh).ended
  have braces := Behind.text (t := " \x7b") (by decide) lines.braces
  have typed := (whole_typedName below.2.1 type word).append braces
  simpa [forms, marks] using typed.behindHeader header

theorem Initializer.whole {i : Initializer} {span : Span} (sound : (i.node span).IsSound)
    (legible : AllLegible i.forms) : Whole (Form.raws i.forms) i.marks := by
  have below := sound.children
  simp only [node, Node.children, Node.allSound_cons] at below
  have body := i.body.whole below.1 (allLegible_append.mp legible).2
  unfold forms marks
  cases i.isStatic with
  | false => exact body
  | true => exact body.lead (t := "static ") (by decide)

/-! ## Types -/

theorem ClassHead.marks_behind {c : ClassHead} (sound : Node.AllSound c.nodes)
    (legible : AllLegible c.forms) (h : Behind raws marks) :
    OnLines (Form.raws c.forms ++ raws) (c.marks ++ marks) := by
  simp only [nodes, Node.allSound_append, Node.allSound_cons, Node.allSound_map,
    Node.allSound_option] at sound
  simp only [forms, allLegible_append, allLegible_cons] at legible
  obtain ⟨⟨header, -, word, base⟩, interfaces⟩ := legible
  have implementing := Behind.listAfter " implements " (by decide) sound.2 interfaces h
  have extending := implementing.listAfter " extends " (by decide)
    (by simpa using sound.1.2.2) base
  have named := (Whole.write (.word word) extending).lead (t := "class ") (by decide)
  simpa [forms, ClassHead.marks] using named.behindHeader header

theorem InterfaceHead.marks_behind {i : InterfaceHead} (sound : Node.AllSound i.nodes)
    (legible : AllLegible i.forms) (h : Behind raws marks) :
    OnLines (Form.raws i.forms ++ raws) (i.marks ++ marks) := by
  simp only [nodes, Node.allSound_append, Node.allSound_cons, Node.allSound_map] at sound
  simp only [forms, allLegible_append, allLegible_cons] at legible
  obtain ⟨header, -, word, bases⟩ := legible
  have extending := h.listAfter " extends " (by decide) sound.2.2 bases
  have named := (Whole.write (.word word) extending).lead (t := "interface ") (by decide)
  simpa [forms, InterfaceHead.marks] using named.behindHeader header

theorem EnumDeclaration.onLines {e : EnumDeclaration} (legible : AllLegible e.forms) :
    OnLines (Form.raws e.forms) e.marks := by
  simp only [forms, allLegible_append, allLegible_cons, allLegible_braces, allLegible_commas,
    List.forall_mem_map] at legible
  obtain ⟨header, -, word, constants, -⟩ := legible
  have braces : Behind [] (if e.constants.isEmpty then [.text " \x7b\x7d"] else
      [ .text " \x7b ", .text (String.intercalate ", " (e.constants.map (·.value))),
        .text (if e.trailingComma then "," else ""), .text " \x7d" ]) := by
    split
    · exact .text (by decide) .nil
    · next some =>
      have names := Tight.intercalate [',', ' '] (by decide)
        (fun i mem => Tight.word (constants i mem).1) (by simpa using some)
      rw [flatMap_nil] at names
      have spelled : (String.intercalate ", " (e.constants.map (·.value))).toList =
          [',', ' '].intercalate (e.constants.map (·.value.toList)) := by
        rw [String.toList_intercalate, List.map_map]
        rfl
      rw [← spelled] at names
      have closing : Behind [] [.text " \x7d"] := .text (by decide) .nil
      have comma : Behind [] [.text (if e.trailingComma then "," else ""), .text " \x7d"] := by
        cases e.trailingComma with
        | false => exact Neat.nothing closing
        | true => exact .text (by decide) closing
      exact .lead (by decide) (.write names comma)
  have named := (Whole.write (.word word) braces).lead (t := "enum ") (by decide)
  have raws_constants : Form.raws (if e.trailingComma = true then [mark .comma] else []) = [] := by
    cases e.trailingComma <;> rfl
  simpa [forms, EnumDeclaration.marks, raws_constants, flatMap_nil] using named.behindHeader header

theorem Trigger.whole {t : Trigger} {span : Span} (sound : (t.node span).IsSound)
    (legible : AllLegible t.forms) : Whole (Form.raws t.forms) t.marks := by
  have filled : t.events ≠ [] := sound.element
  have below := sound.children
  simp only [node, Node.children, Node.allSound_append, Node.allSound_cons] at below
  simp only [forms, allLegible_append, allLegible_cons] at legible
  obtain ⟨⟨-, word, -, object, -⟩, body⟩ := legible
  have body := Behind.lead (t := ") ") (by decide) (t.body.whole below.2.1 body)
  have events : Tight [] (String.intercalate ", " (t.events.map (·.value.text))).toList := by
    rw [String.toList_intercalate, List.map_map]
    have texts : ∀ e ∈ t.events, Tight [] e.value.text.toList :=
      fun e _ => .fixed (by cases e.value <;> decide)
    have list := Tight.intercalate [',', ' '] (by decide) texts filled
    rwa [flatMap_nil] at list
  have row := Behind.lead (t := " (") (by decide) (.write events body)
  have on := Behind.lead (t := " on ") (by decide) (.write (.word object) row)
  have named := (Whole.write (.word word) on).lead (t := "trigger ") (by decide)
  simpa [forms, Trigger.marks, TriggerEvent.forms, flatMap_nil] using named

/-- Members in braces. Without members there is nothing between the braces. -/
theorem behind_memberBraces (h : OnLines raws marks ∨ raws = [] ∧ marks = []) :
    Behind raws (memberBraces marks) := by
  unfold memberBraces
  rcases h with h | ⟨rfl, rfl⟩
  · have lines : Neat raws .fresh (marks ++ [.newline]) .fresh := Neat.ended h
    have whole := Behind.text (t := " \x7b") (by decide) lines.braces
    rw [if_neg (by simpa using h.ne_nil)]
    simpa using whole
  · exact .text (by decide) .nil

theorem onLines_interfaceMarks {methods : List (Spanned Method)}
    (sound : ∀ m ∈ methods, (m.value.node m.span).IsSound)
    (legible : ∀ m ∈ methods, AllLegible m.value.forms) :
    OnLines (methods.flatMap fun m => Form.raws m.value.forms) (interfaceMarks methods) ∨
      (methods.flatMap fun m => Form.raws m.value.forms) = [] ∧ interfaceMarks methods = [] := by
  cases methods with
  | nil => exact .inr ⟨rfl, rfl⟩
  | cons m ms =>
    rw [List.forall_mem_cons] at sound legible
    have later : Behind (ms.flatMap fun m => Form.raws m.value.forms)
        (ms.flatMap fun m => .gap :: m.value.marks) :=
      Neat.flatMap fun m mem => (Method.onLines (sound.2 m mem) (legible.2 m mem)).gap
    exact .inl ((Method.onLines sound.1 legible.1).append later)

theorem Member.behind_separator (before after : Member) (h : OnLines raws marks) :
    Behind raws (before.separator after :: marks) := by
  unfold separator
  split
  · exact h.newline
  · exact h.gap

mutual

/-- A type declaration. -/
theorem TypeDeclaration.onLines : (d : TypeDeclaration) → d.node.IsSound → AllLegible d.forms →
    OnLines (Form.raws d.forms) d.marks
  | .classType _ head members, sound, legible => by
    have below := sound.children
    simp only [TypeDeclaration.node, Node.children, Node.allSound_append, Member.nodes_eq_map,
      Node.allSound_map] at below
    simp only [TypeDeclaration.forms, allLegible_append, allLegible_braces, allLegible_flatten,
      Member.formsOf_eq_map, List.forall_mem_map] at legible
    have members : Behind (members.flatMap fun m => Form.raws m.forms)
        (memberBraces (Member.marksOf none members)) := by
      cases members with
      | nil => exact behind_memberBraces (.inr ⟨rfl, rfl⟩)
      | cons m ms =>
        rw [List.forall_mem_cons] at below legible
        have later := Member.behind_marksOf m ms below.2.2 legible.2.2
        have rows := (m.onLines below.2.1 legible.2.1).append later
        exact behind_memberBraces (.inl rows)
    simpa [TypeDeclaration.forms, TypeDeclaration.marks] using
      ClassHead.marks_behind below.1 legible.1 members
  | .interfaceType _ head methods, sound, legible => by
    have below := sound.children
    simp only [TypeDeclaration.node, Node.children, Node.allSound_append, Node.allSound_map]
      at below
    simp only [TypeDeclaration.forms, allLegible_append, allLegible_braces, allLegible_flatMap]
      at legible
    have methods := behind_memberBraces (onLines_interfaceMarks below.2 legible.2)
    simpa [TypeDeclaration.forms, TypeDeclaration.marks] using
      InterfaceHead.marks_behind below.1 legible.1 methods
  | .enumType _ _, _, legible => EnumDeclaration.onLines legible

/-- A member. -/
theorem Member.onLines : (m : Member) → m.node.IsSound → AllLegible m.forms →
    OnLines (Form.raws m.forms) m.marks
  | .field _ _, sound, legible => Field.onLines sound legible
  | .method _ _, sound, legible => Method.onLines sound legible
  | .constructor _ _, sound, legible => Constructor.onLines sound legible
  | .property _ _, sound, legible => Property.onLines sound legible
  | .initializer _ _, sound, legible => Initializer.whole sound legible .fresh
  | .type declaration, sound, legible => declaration.onLines sound legible
  | .stray _, _, _ => Whole.text (by decide) (by decide) .nil .fresh

/-- The members behind another. -/
theorem Member.behind_marksOf : (previous : Member) → (ms : List Member) →
    (∀ m ∈ ms, m.node.IsSound) → (∀ m ∈ ms, AllLegible m.forms) →
    Behind (ms.flatMap fun m => Form.raws m.forms) (Member.marksOf (some previous) ms)
  | _, [], _, _ => .nil
  | previous, m :: ms, sound, legible => by
    rw [List.forall_mem_cons] at sound legible
    have row := previous.behind_separator m (m.onLines sound.1 legible.1)
    exact row.append (Member.behind_marksOf m ms sound.2 legible.2)

end

/-! ## Programs -/

theorem behind_semicolons (n : Nat) : Behind [] (List.replicate n (.text ";")) := by
  induction n with
  | zero => exact .nil
  | succ n ih => exact .text (by decide) ih

/-- The marks of a program fit on a page, unless there are none. -/
theorem CompilationUnit.fits {u : CompilationUnit} (sound : u.node.IsSound)
    (legible : AllLegible u.forms) : Fits .fresh 0 u.raws u.marks ∨ u.raws = [] ∧ u.marks = [] := by
  have below := sound.children
  simp only [node, Node.children, Node.allSound_cons] at below
  have declared := (allLegible_append.mp legible).1
  have semicolons := behind_semicolons u.trailingSemicolons
  have none (n : Nat) : Form.raws (List.replicate n (mark .semicolon)) = [] := by
    induction n with
    | zero => rfl
    | succ n ih => exact ih
  suffices OnLines u.raws u.marks ∨ u.raws = [] ∧ u.marks = [] by
    refine this.imp_left fun lines => ?_
    have fits := lines .done
    rwa [List.append_nil, List.append_nil] at fits
  unfold raws forms marks
  rw [raws_append, none, List.append_nil]
  cases found : u.declaration with
  | type declaration =>
    rw [found] at below declared
    have lines := (declaration.onLines below.1 declared).append semicolons
    rw [List.append_nil] at lines
    exact .inl lines
  | trigger _ t =>
    rw [found] at below declared
    have row := (Trigger.whole below.1 declared).append semicolons
    rw [List.append_nil] at row
    exact .inl (row .fresh)
  | nothing =>
    cases u.trailingSemicolons with
    | zero => exact .inr ⟨rfl, rfl⟩
    | succ n =>
      exact .inl (Whole.text (by decide) (by decide) (behind_semicolons n) .fresh)

/-- The page on which the marks of a program have been done one after another. -/
def CompilationUnit.page (u : CompilationUnit) (settings : LayoutSettings) : Page :=
  u.marks.foldl (Page.mark settings) Page.blank

/-- What the page of a program looks like. -/
structure CompilationUnit.IsCleanPage (u : CompilationUnit) (settings : LayoutSettings) : Prop where
  /-- The text is empty, or ends in one line end and does not begin with one. -/
  ends : (u.text settings).toList = [] ∨ (u.text settings).toList.head? ≠ some '\n' ∧
    ∃ before c, (u.text settings).toList = before ++ [c, '\n'] ∧ c ≠ '\n'
  /-- All levels that have been entered have been left. -/
  level : (u.page settings).level = 0
  /-- Only a level that has been entered is left. -/
  dedents : ∀ before after, u.marks = before ++ .dedent :: after →
    0 < (before.foldl (Page.mark settings) Page.blank).level
  /-- Without the raw texts of the queries, no line ends with a space, and each begins with spaces
  for whole steps of indentation. -/
  lines : ∃ outside, Woven u.raws outside (u.text settings).toList ∧
    ∀ line ∈ newlinePieces outside, IsClean settings.indentWidth line

theorem Fits.isCleanPage {u : CompilationUnit} (h : Fits .fresh 0 u.raws u.marks)
    (settings : LayoutSettings) : u.IsCleanPage settings := by
  have written : (u.text settings).toList = put settings 0 true u.marks :=
    toList_renderMarks settings u.marks
  obtain ⟨first, others, begins, other⟩ := h.head?_put settings
  obtain ⟨before, c, ends, free⟩ := h.ends settings [] nofun
  refine ⟨.inr ⟨?_, before, c, ?_, ?_⟩, ?_, fun before after split => ?_, ?_⟩
  · rw [written, begins]
    exact fun same => other (Option.some.inj same)
  · rw [written]
    exact ends
  · rintro rfl
    cases free
  · have all : Fits .fresh 0 u.raws (u.marks ++ []) := by rwa [List.append_nil]
    obtain ⟨e, raws, left⟩ := all.behind settings (p := Page.blank) rfl
    exact left.level_nil
  · rw [split] at h
    obtain ⟨e, raws, left⟩ := h.behind settings (p := Page.blank) rfl
    exact left.level_dedent
  · rw [written]
    exact h.clean settings [] rfl

/-- A page on which nothing is done. -/
theorem CompilationUnit.isCleanPage_nil {u : CompilationUnit} (raws : u.raws = [])
    (marks : u.marks = []) (settings : LayoutSettings) : u.IsCleanPage settings := by
  have written : (u.text settings).toList = [] := by
    rw [text, toList_renderMarks, marks]
    rfl
  refine ⟨.inl written, ?_, fun before after split => ?_, [], ?_, ?_⟩
  · rw [page, marks]
    rfl
  · rw [marks] at split
    cases before <;> cases split
  · rw [raws, written]
    exact .nil
  · exact List.forall_mem_singleton.mpr (isClean_nil _)

theorem CompilationUnit.fits_of_parseSource {source : String} {unit : CompilationUnit}
    (accepted : parseSource source = .ok unit) :
    Fits .fresh 0 unit.raws unit.marks ∨ unit.raws = [] ∧ unit.marks = [] := by
  unfold parseSource at accepted
  cases read : lex source with
  | error errors =>
    rw [read] at accepted
    cases errors <;> cases accepted
  | ok tokens =>
    rw [read] at accepted
    obtain ⟨c', stands⟩ := (parse_echoes accepted (sound_of_lex read)).1
    exact CompilationUnit.fits (isSound_of_parse accepted)
      (legible_of_stands stands (sound_of_lex read))

/-- What is not refused has a result. -/
theorem exists_eq_ok {ε α : Type} {outcome : Except ε α} (h : outcome.toBool = true) :
    ∃ value, outcome = .ok value := by
  cases outcome with
  | error e => cases h
  | ok value => exact ⟨value, rfl⟩

/-- The page of an accepted program is clean, whatever the settings are. -/
theorem isCleanPage_of_parseSource {source : String} {unit : CompilationUnit}
    (accepted : parseSource source = .ok unit) (settings : LayoutSettings) :
    unit.IsCleanPage settings := by
  rcases CompilationUnit.fits_of_parseSource accepted with fits | ⟨raws, marks⟩
  · exact fits.isCleanPage settings
  · exact CompilationUnit.isCleanPage_nil raws marks settings

/-- An `else` behind a body without braces, and a query with a blank before its line end. -/
theorem isCleanPage_of_parseSource_query :
    ∃ unit, parseSource ("class C \x7b A m() \x7b if (a) b(); else \x7b c(); \x7d " ++
        "return [select d \n from E]; \x7d \x7d") = .ok unit ∧ unit.IsCleanPage ⟨2, 1⟩ := by
  have found : (parseSource ("class C \x7b A m() \x7b if (a) b(); else \x7b c(); \x7d " ++
      "return [select d \n from E]; \x7d \x7d")).toBool = true := by
    decide +kernel
  obtain ⟨unit, accepted⟩ := exists_eq_ok found
  exact ⟨unit, accepted, isCleanPage_of_parseSource accepted ⟨2, 1⟩⟩

end Apex
