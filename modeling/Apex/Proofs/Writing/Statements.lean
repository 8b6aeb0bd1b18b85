import Apex.Proofs.Spans.Statements
import Apex.Proofs.Writing.Expressions

/-!
# Statements as text

Statements end by themselves: whatever is written behind one, it is cut into the tokens it stands
for. The keywords, marks and line ends between the parts of a statement are read one by one.
-/

namespace Apex

open Form

variable {settings : LayoutSettings}

/-- The marks spell the forms, whatever follows. -/
def Closed (settings : LayoutSettings) (forms : List Form) (marks : List Mark) : Prop :=
  ∀ ⦃others : List Form⦄ ⦃rest : List Mark⦄, Spelled settings others rest →
    Spelled settings (forms ++ others) (marks ++ rest)

section

variable {forms others : List Form} {marks rest : List Mark} {α : Type} {f : α → List Form}
  {m : α → List Mark} {xs : List α}

theorem Closed.nil : Closed settings [] [] := fun _ _ spelled => spelled

theorem Closed.append {forms' : List Form} {marks' : List Mark} (h : Closed settings forms marks)
    (h' : Closed settings forms' marks') : Closed settings (forms ++ forms') (marks ++ marks') := by
  intro others rest spelled
  rw [List.append_assoc, List.append_assoc]
  exact h (h' spelled)

theorem Closed.sets {forms' : List Form} {marks' : List Mark} (h : Closed settings forms marks)
    (h' : Sets settings forms' marks') : Sets settings (forms ++ forms') (marks ++ marks') := by
  intro others rest follows spelled
  rw [List.append_assoc, List.append_assoc]
  exact h (h' follows spelled)

theorem Closed.flatMap (h : ∀ x ∈ xs, Closed settings (f x) (m x)) :
    Closed settings (xs.flatMap f) (xs.flatMap m) := by
  induction xs with
  | nil => exact .nil
  | cons x xs ih =>
    obtain ⟨first, more⟩ := List.forall_mem_cons.mp h
    exact first.append (ih more)

/-- A semicolon behind something. -/
theorem Spelled.semicolon (spelled : Spelled settings others rest) :
    Spelled settings (mark .semicolon :: others) (.text ";" :: rest) :=
  spelled.fixed [.mark .semicolon] (by decide)

theorem Sets.semicolon (h : Sets settings forms marks) (spelled : Spelled settings others rest) :
    Spelled settings (forms ++ mark .semicolon :: others) (marks ++ .text ";" :: rest) :=
  h (.plain (by decide)) spelled.semicolon

theorem Fixed.forms_append (before behind : List Fixed) :
    Fixed.forms (before ++ behind) = Fixed.forms before ++ Fixed.forms behind := by
  induction before with
  | nil => rfl
  | cons part before ih =>
    cases part <;> simp [forms, ih]

/-- Something in parentheses that are written together with what stands around them. -/
theorem Sets.within (h : Sets settings forms marks) (before behind : List Fixed)
    {opening closing : String}
    (opens : (Fixed.isWritten (before ++ [.mark .openParen]) opening &&
      !Fixed.endsInWord (before ++ [.mark .openParen])) = true)
    (closes : (Fixed.isWritten (.mark .closeParen :: behind) closing &&
      !Fixed.endsInWord (.mark .closeParen :: behind)) = true)
    (spelled : Spelled settings others rest) :
    Spelled settings (Fixed.forms before ++ (Form.parens forms ++ (Fixed.forms behind ++ others)))
      (.text opening :: (marks ++ .text closing :: rest)) := by
  have follows : Open settings (.text closing :: rest) := by
    simp only [Fixed.isWritten, Bool.and_eq_true, beq_iff_eq] at closes
    exact .of_text closes.1.1.1 (by decide)
  have opened := (h follows (spelled.fixed _ closes)).fixed _ opens
  rw [Fixed.forms_append, List.append_assoc] at opened
  rw [Form.parens, List.append_assoc]
  exact opened

end

/-! ## Parts of statements -/

theorem closed_modifiers (ms : List (Spanned Modifier)) :
    Closed settings (modifierForms ms) (modifierMarks ms) := by
  refine Closed.flatMap fun m _ => ?_
  intro others rest spelled
  have blank := spelled.blank
  exact .writes m.value.writes m.value.text_ne_nil (.plain (by decide)) blank

theorem Spelled.ident {i : Ident} (h : (Form.ident i).Sayable) {others : List Form}
    {rest : List Mark} (follows : Open settings rest) (spelled : Spelled settings others rest) :
    Spelled settings (Form.ident i :: others) (.text i.value :: rest) := by
  obtain ⟨c, cs, letters, -⟩ := h.1
  exact .writes (writes_ident h) (by simp [letters]) follows spelled

/-- A type with a name behind it. -/
theorem sets_typedName {t : TypeRef} {n : Ident} (sound : t.node.IsSound)
    (say : AllSayable t.forms) (named : (ident n).Sayable) :
    Sets settings (t.forms ++ [ident n]) (typedName t n) := by
  intro others rest follows spelled
  have name : Spelled settings (ident n :: others) (.text " " :: .text n.value :: rest) :=
    (Spelled.ident named follows spelled).fixed [.blank] (by decide)
  rw [List.append_assoc]
  exact .type sound say (.plain (by decide)) name

theorem Declarator.sets {d : Declarator} (sound : d.node.IsSound) (say : AllSayable d.forms) :
    Sets settings d.forms d.marks := by
  intro others rest follows spelled
  obtain ⟨span, name, value⟩ := d
  have below := sound.children
  simp only [node, Node.children, Node.allSound_cons] at below
  cases value with
  | none => exact .ident (allSayable_cons.mp say).1 follows spelled
  | some value =>
    simp only [forms, allSayable_cons] at say
    have value := value.sets (by simpa using below.2) say.2.2 follows spelled
    have assign : Spelled settings (sign .assign :: _) (.text " = " :: _) :=
      value.fixed [.blank, .sign .assign, .blank] (by decide)
    exact .ident say.1 (.plain (by decide)) assign

theorem LocalVariables.sets {v : LocalVariables} (sound : Node.AllSound v.nodes)
    (say : AllSayable v.forms) : Sets settings v.forms v.marks := by
  intro others rest follows spelled
  simp only [nodes, Node.allSound_append, Node.allSound_cons, Node.allSound_map] at sound
  simp only [forms, allSayable_append, allSayable_commas, List.forall_mem_map] at say
  have all : ∀ d ∈ v.declarators, Sets settings d.forms d.marks :=
    fun d mem => Declarator.sets (sound.2.2 d mem) (say.2 d mem)
  have names := (Sets.commas all follows spelled).blank
  have typed := Spelled.type sound.2.1 say.1.2 (.plain (by decide)) names
  simpa [forms, marks, Fixed.forms] using closed_modifiers v.modifiers typed

theorem ForInit.sets {init : ForInit} (sound : Node.AllSound init.nodes)
    (say : AllSayable init.forms) : Sets settings init.forms init.marks := by
  cases init with
  | nothing => exact fun _ _ _ spelled => spelled
  | declaration span locals =>
    have below := (Node.allSound_cons.mp sound).1.children
    exact LocalVariables.sets below say
  | expressions values =>
    simp only [nodes, Expr.nodes_eq_map, Node.allSound_map] at sound
    simp only [forms, allSayable_commas, List.forall_mem_map] at say
    exact .commas fun e mem => e.sets (sound e mem) (say e mem)

/-- What stands between the parentheses of a `for` loop. -/
theorem sets_for {init : ForInit} {condition : Option Expr} {update : List Expr}
    (soundInit : Node.AllSound init.nodes) (soundCondition : ∀ e ∈ condition, e.node.IsSound)
    (soundUpdate : ∀ e ∈ update, e.node.IsSound)
    (say : AllSayable (init.forms ++ mark .semicolon :: Expr.formsOption condition ++
      mark .semicolon :: commas (update.map Expr.forms))) :
    Sets settings (init.forms ++ mark .semicolon :: Expr.formsOption condition ++
      mark .semicolon :: commas (update.map Expr.forms)) (forMarks init condition update) := by
  intro others rest follows spelled
  simp only [allSayable_append, allSayable_cons, allSayable_commas, List.forall_mem_map] at say
  have updates : Spelled settings (commas (update.map Expr.forms) ++ others)
      ((if update.isEmpty then [] else .text " " :: commaMarks (update.map Expr.marks)) ++ rest) := by
    cases update with
    | nil => exact spelled
    | cons e es =>
      have all : Sets settings (commas ((e :: es).map Expr.forms))
          (commaMarks ((e :: es).map Expr.marks)) :=
        .commas fun e mem => e.sets (soundUpdate e mem) (say.2.2 e mem)
      exact (all follows spelled).blank
  have init : Sets settings init.forms init.marks := ForInit.sets soundInit say.1.1
  cases condition with
  | none => simpa [forMarks, Expr.formsOption] using init.semicolon updates.semicolon
  | some condition =>
    have inner := (condition.sets (soundCondition condition rfl) say.1.2.2).semicolon updates
    have blank := inner.blank
    simpa [forMarks, Expr.formsOption, Fixed.forms] using init.semicolon blank

theorem Spelled.qualified {q : QualifiedName} {others : List Form} {rest : List Mark}
    (spelled : Spelled settings others rest) (sound : q.node.IsSound) (say : AllSayable q.forms)
    (follows : Open settings rest) : Spelled settings (q.forms ++ others) (.text q.text :: rest) := by
  have writes := QualifiedName.writes say
  refine .writes writes (writes.ne_nil ?_) follows spelled
  obtain ⟨i, is, parts⟩ := List.exists_cons_of_ne_nil (show q.parts ≠ [] from sound.element)
  unfold QualifiedName.forms
  rw [parts]
  exact List.cons_ne_nil _ _

/-! ## Statements -/

theorem Closed.asBody {forms : List Form} {marks : List Mark} (s : Statement)
    (h : Closed settings forms marks) : Closed settings forms (s.asBody marks) := by
  intro others rest spelled
  unfold Statement.asBody
  split
  · exact (h spelled).blank
  · rw [List.cons_append, List.cons_append, List.append_assoc]
    exact .newline (.indent (h (.dedent spelled)))

theorem Closed.asElse {forms : List Form} {marks : List Mark} (s : Statement)
    (h : Closed settings forms marks) : Closed settings forms (s.asElse marks) := by
  intro others rest spelled
  unfold Statement.asElse
  split
  · exact (h spelled).blank
  · exact h.asBody s spelled

/-- The word `else` may stand before what is written behind it. -/
theorem open_asElse (s : Statement) (marks rest : List Mark) :
    Open settings (s.asElse marks ++ rest) := by
  unfold Statement.asElse Statement.asBody
  split
  · exact .plain (by decide)
  · split
    · exact .plain (by decide)
    · exact .newline

theorem Spelled.elseAfter {others : List Form} {rest : List Mark} (yes : Statement)
    (follows : Open settings rest) (spelled : Spelled settings others rest) :
    Spelled settings (keyword .kwElse :: others) (yes.elseAfter ++ rest) := by
  unfold Statement.elseAfter
  split
  · exact .fixedBefore [.blank, .word .kwElse "else"] (by decide +kernel) follows spelled
  · exact .newline (.fixedBefore [.word .kwElse "else"] (by decide +kernel) follows spelled)

/-- A keyword with something in parentheses behind it. -/
theorem Sets.condition {forms others : List Form} {marks rest : List Mark}
    (h : Sets settings forms marks) (k : Keyword) (word opening : String)
    (reserved : k.isReserved = true)
    (written : Fixed.isWritten [.word k word, .blank, .mark .openParen] opening = true)
    (spelled : Spelled settings others rest) :
    Spelled settings (keyword k :: (Form.parens forms ++ others))
      (.text opening :: (marks ++ .text ")" :: rest)) := by
  have written : (Fixed.isWritten ([.word k word, .blank] ++ [.mark .openParen]) opening &&
      !Fixed.endsInWord ([.word k word, .blank] ++ [.mark .openParen])) = true := by
    rw [List.cons_append, List.cons_append, List.nil_append, written]
    rfl
  have closes : (Fixed.isWritten [.mark .closeParen] ")" &&
      !Fixed.endsInWord [.mark .closeParen]) = true := by decide
  have within := h.within [.word k word, .blank] [] written closes spelled
  simpa [Fixed.forms, reserved] using within

/-- A keyword before something. -/
theorem Spelled.keyword {others : List Form} {rest : List Mark}
    (spelled : Spelled settings others rest) (k : Keyword) (word text : String)
    (reserved : k.isReserved = true)
    (written : Fixed.isWritten [.word k word, .blank] text = true) :
    Spelled settings (Form.keyword k :: others) (.text text :: rest) := by
  have fixed := spelled.fixed [.word k word, .blank] (by rw [written]; rfl)
  simpa [Fixed.forms, reserved] using fixed

/-- A keyword and a semicolon. -/
theorem Spelled.keywordSemicolon {others : List Form} {rest : List Mark}
    (spelled : Spelled settings others rest) (k : Keyword) (word text : String)
    (reserved : k.isReserved = true)
    (written : Fixed.isWritten [.word k word, .mark .semicolon] text = true) :
    Spelled settings (Form.keyword k :: mark .semicolon :: others) (.text text :: rest) := by
  have fixed := spelled.fixed [.word k word, .mark .semicolon] (by rw [written]; rfl)
  simpa [Fixed.forms, reserved] using fixed

/-- The word of an operation on records. -/
theorem Spelled.dml (op : DmlOp) {others : List Form} {rest : List Mark}
    (follows : Open settings rest) (spelled : Spelled settings others rest) :
    Spelled settings (Form.keyword op.keyword :: others) (.text op.word :: rest) := by
  cases op with
  | insert => exact .fixedBefore [.word .kwInsert "insert"] (by decide +kernel) follows spelled
  | update => exact .fixedBefore [.word .kwUpdate "update"] (by decide +kernel) follows spelled
  | delete => exact .fixedBefore [.word .kwDelete "delete"] (by decide +kernel) follows spelled
  | undelete => exact .fixedBefore [.word .kwUndelete "undelete"] (by decide +kernel) follows spelled

mutual

/-- A block spells what it stands for. -/
theorem Block.closed : (b : Block) → b.node.IsSound → AllSayable b.forms →
    Closed settings b.forms b.marks
  | .mk _ [], _, _ => fun _ _ spelled =>
    spelled.fixed [.mark .openBrace, .mark .closeBrace] (by decide)
  | .mk _ (s :: ss), sound, say => by
    have below := sound.children
    simp only [Block.node, Node.children, Statement.nodes_eq_map, Node.allSound_map,
      List.forall_mem_cons] at below
    simp only [Block.forms, allSayable_braces, Statement.formsOf_eq_map, allSayable_flatten,
      List.forall_mem_map, List.forall_mem_cons] at say
    intro others rest spelled
    have closing : Spelled settings (mark .closeBrace :: others) (.text "\x7d" :: rest) :=
      spelled.fixed [.mark .closeBrace] (by decide)
    have later := Statement.closedLines ss below.2 say.2 closing.dedent
    have first := s.closed below.1 say.1 later.newline
    have opening : Spelled settings (mark .openBrace :: _) (.text "\x7b" :: _) :=
      first.indent.newline.fixed [.mark .openBrace] (by decide)
    simpa [Block.forms, Block.marks, braces, Fixed.forms] using opening

/-- Statements on their lines spell what they stand for. -/
theorem Statement.closedLines : (ss : List Statement) → (∀ s ∈ ss, s.node.IsSound) →
    (∀ s ∈ ss, AllSayable s.forms) →
    Closed settings (ss.map Statement.forms).flatten (Statement.lines ss)
  | [], _, _ => .nil
  | s :: ss, sound, say => by
    rw [List.forall_mem_cons] at sound say
    intro others rest spelled
    rw [List.map_cons, List.flatten_cons, Statement.lines, List.append_assoc, List.append_assoc]
    exact s.closed sound.1 say.1 (.newline (Statement.closedLines ss sound.2 say.2 spelled))

/-- A statement spells what it stands for. -/
theorem Statement.closed (s : Statement) (sound : s.node.IsSound) (say : AllSayable s.forms) :
    Closed settings s.forms s.marks := by
  intro others rest spelled
  have below := sound.children
  cases s with
  | block body => exact body.closed sound say spelled
  | locals _ locals =>
    simp only [Statement.node, Node.children] at below
    rw [Statement.forms, Statement.marks, List.append_assoc, List.append_assoc]
    exact (LocalVariables.sets below (allSayable_append.mp say).1).semicolon spelled
  | ifThen _ condition yes =>
    simp only [Statement.node, Node.children, Node.allSound_cons] at below
    simp only [Statement.forms, allSayable_append, allSayable_cons, allSayable_parens] at say
    have body := Closed.asBody yes (yes.closed below.2.1 say.2) spelled
    have head := (condition.sets below.1 say.1.2).condition .kwIf "if" "if (" rfl
      (by decide +kernel) body
    simpa [Statement.forms, Statement.marks] using head
  | ifElse _ condition yes no =>
    simp only [Statement.node, Node.children, Node.allSound_cons] at below
    simp only [Statement.forms, allSayable_append, allSayable_cons, allSayable_parens] at say
    have otherwise := Closed.asElse no (no.closed below.2.2.1 say.2.2) spelled
    have between := otherwise.elseAfter yes (open_asElse no _ _)
    have body := Closed.asBody yes (yes.closed below.2.1 say.1.2) between
    have head := (condition.sets below.1 say.1.1.2).condition .kwIf "if" "if (" rfl
      (by decide +kernel) body
    simpa [Statement.forms, Statement.marks] using head
  | whileLoop _ condition body =>
    simp only [Statement.node, Node.children, Node.allSound_cons] at below
    simp only [Statement.forms, allSayable_append, allSayable_cons, allSayable_parens] at say
    have body := Closed.asBody body (body.closed below.2.1 say.2) spelled
    have head := (condition.sets below.1 say.1.2).condition .kwWhile "while" "while (" rfl
      (by decide +kernel) body
    simpa [Statement.forms, Statement.marks] using head
  | doWhile _ body condition =>
    simp only [Statement.node, Node.children, Node.allSound_cons] at below
    simp only [Statement.forms, allSayable_append, allSayable_cons, allSayable_parens] at say
    have last : Spelled settings (keyword .kwWhile :: (_ ++ (mark .semicolon :: others)))
        (.text " while (" :: (_ ++ .text ");" :: rest)) :=
      (condition.sets below.2.1 say.1.2.2).within [.blank, .word .kwWhile "while", .blank]
        [.mark .semicolon] (by decide +kernel) (by decide) spelled
    have head := (body.closed below.1 say.1.1.2 last).keyword .kwDo "do" "do " rfl (by decide +kernel)
    simpa [Statement.forms, Statement.marks] using head
  | forLoop _ init condition update body =>
    simp only [Statement.node, Node.children, Node.allSound_append, Node.allSound_cons,
      Node.allSound_option, Expr.nodes_eq_map, Node.allSound_map] at below
    simp only [Statement.forms, allSayable_append, allSayable_cons, allSayable_parens] at say
    have body := Closed.asBody body (body.closed below.2.1 say.2) spelled
    have inner : Sets settings _ (forMarks init condition update) :=
      sets_for below.1.1.1 below.1.1.2 below.1.2 (by simpa [and_assoc] using say.1.2)
    have head := inner.condition .kwFor "for" "for (" rfl (by decide +kernel) body
    simpa [Statement.forms, Statement.marks] using head
  | forEach _ modifiers type name items body =>
    simp only [Statement.node, Node.children, Node.allSound_append, Node.allSound_cons] at below
    simp only [Statement.forms, allSayable_append, allSayable_cons, allSayable_parens] at say
    have body := Closed.asBody body (body.closed below.2.2.2.2.1 say.2) spelled
    have inner : Sets settings (modifierForms modifiers ++ type.forms ++ ident name ::
        mark .colon :: items.forms) (modifierMarks modifiers ++ typedName type name ++
          .text " : " :: items.marks) := by
      intro others rest follows spelled
      have items := items.sets below.2.2.2.1 say.1.2.2.2.2 follows spelled
      have colon : Spelled settings (mark .colon :: _) (.text " : " :: _) :=
        items.fixed [.blank, .mark .colon, .blank] (by decide)
      have typed := sets_typedName below.2.1 say.1.2.1.2 say.1.2.2.1 (.plain (by decide)) colon
      simpa [Fixed.forms] using closed_modifiers modifiers typed
    have head := inner.condition .kwFor "for" "for (" rfl (by decide +kernel) body
    simpa [Statement.forms, Statement.marks] using head
  | tryCatch _ body catches =>
    simp only [Statement.node, Node.children, Node.allSound_cons, CatchClause.nodes_eq_map,
      Node.allSound_map] at below
    simp only [Statement.forms, allSayable_append, allSayable_cons, CatchClause.formsOf_eq_map,
      allSayable_flatten, List.forall_mem_map] at say
    have handlers := CatchClause.closedAll catches below.2 say.2 spelled
    have head := (body.closed below.1 say.1.2 handlers).keyword .kwTry "try" "try " rfl
      (by decide +kernel)
    simpa [Statement.forms, Statement.marks] using head
  | tryFinally _ body catches last =>
    simp only [Statement.node, Node.children, Node.allSound_append, Node.allSound_cons,
      CatchClause.nodes_eq_map, Node.allSound_map] at below
    simp only [Statement.forms, allSayable_append, allSayable_cons, CatchClause.formsOf_eq_map,
      allSayable_flatten, List.forall_mem_map] at say
    have ending := last.closed below.2.1 say.2.2 spelled
    have behind : Spelled settings (keyword .kwFinally :: _) (.text " finally " :: _) :=
      ending.fixed [.blank, .word .kwFinally "finally", .blank] (by decide +kernel)
    have handlers := CatchClause.closedAll catches below.1.2 say.1.2 behind
    have head := (body.closed below.1.1 say.1.1.2 handlers).keyword .kwTry "try" "try " rfl
      (by decide +kernel)
    simpa [Statement.forms, Statement.marks, Fixed.forms] using head
  | returns _ value =>
    simp only [Statement.node, Node.children, Node.allSound_option] at below
    cases value with
    | none =>
      exact spelled.keywordSemicolon .kwReturn "return" "return;" rfl (by decide +kernel)
    | some value =>
      simp only [Statement.forms, Expr.formsOption, allSayable_append, allSayable_cons] at say
      have inner := (value.sets (below value rfl) say.1.2).semicolon spelled
      have head := inner.keyword .kwReturn "return" "return " rfl (by decide +kernel)
      simpa [Statement.forms, Statement.marks, Expr.formsOption] using head
  | throws _ value =>
    simp only [Statement.node, Node.children, Node.allSound_cons] at below
    simp only [Statement.forms, allSayable_append, allSayable_cons] at say
    have inner := (value.sets below.1 say.1.2).semicolon spelled
    have head := inner.keyword .kwThrow "throw" "throw " rfl (by decide +kernel)
    simpa [Statement.forms, Statement.marks] using head
  | breaks =>
    exact spelled.keywordSemicolon .kwBreak "break" "break;" rfl (by decide +kernel)
  | continues =>
    exact spelled.keywordSemicolon .kwContinue "continue" "continue;" rfl (by decide +kernel)
  | empty =>
    exact spelled.semicolon
  | expression _ value =>
    simp only [Statement.node, Node.children, Node.allSound_cons] at below
    simp only [Statement.forms, allSayable_append] at say
    simpa [Statement.forms, Statement.marks] using (value.sets below.1 say.1).semicolon spelled
  | runAs _ user body =>
    simp only [Statement.node, Node.children, Node.allSound_cons] at below
    simp only [Statement.forms, allSayable_append, allSayable_cons, allSayable_parens] at say
    have body := body.closed below.2.1 say.2 spelled
    have head : Spelled settings
        (Form.spelled .kwSystem :: mark .dot :: Form.spelled .kwRunAs :: (_ ++ _))
        (.text "System.runAs(" :: (_ ++ .text ") " :: _)) :=
      (user.sets below.1 say.1.2.2.2).within
        [.word .kwSystem "System", .mark .dot, .word .kwRunAs "runAs"] [.blank]
        (by decide +kernel) (by decide) body
    simpa [Statement.forms, Statement.marks, Fixed.forms] using head
  | dml _ op target =>
    simp only [Statement.node, Node.children, Node.allSound_cons] at below
    simp only [Statement.forms, allSayable_append, allSayable_cons] at say
    have inner := (target.sets below.1 say.1.2).semicolon spelled
    have blank := inner.blank
    have word := Spelled.dml op (.plain (by decide)) blank
    simpa [Statement.forms, Statement.marks, Fixed.forms] using word
  | upsert _ target key =>
    simp only [Statement.node, Node.children, Node.allSound_cons, Node.allSound_option] at below
    cases key with
    | none =>
      simp only [Statement.forms, allSayable_append, allSayable_cons] at say
      have inner := (target.sets below.1 say.1.2).semicolon spelled
      have head := inner.keyword .kwUpsert "upsert" "upsert " rfl (by decide +kernel)
      simpa [Statement.forms, Statement.marks] using head
    | some key =>
      simp only [Statement.forms, allSayable_append, allSayable_cons] at say
      have name := spelled.semicolon.qualified (below.2 key rfl) say.1.2 (.plain (by decide))
      have blank := name.blank
      have inner := target.sets below.1 say.1.1.2 (.plain (by decide)) blank
      have head := inner.keyword .kwUpsert "upsert" "upsert " rfl (by decide +kernel)
      simpa [Statement.forms, Statement.marks, Fixed.forms] using head
  | merge _ master duplicate =>
    simp only [Statement.node, Node.children, Node.allSound_cons] at below
    simp only [Statement.forms, allSayable_append, allSayable_cons] at say
    have second := (duplicate.sets below.2.1 say.1.2).semicolon spelled
    have blank := second.blank
    have first := master.sets below.1 say.1.1.2 (.plain (by decide)) blank
    have head := first.keyword .kwMerge "merge" "merge " rfl (by decide +kernel)
    simpa [Statement.forms, Statement.marks, Fixed.forms] using head

/-- Handlers spell what they stand for. -/
theorem CatchClause.closedAll : (cs : List CatchClause) → (∀ c ∈ cs, c.node.IsSound) →
    (∀ c ∈ cs, AllSayable c.forms) →
    Closed settings (cs.map CatchClause.forms).flatten (CatchClause.marksOf cs)
  | [], _, _ => .nil
  | c :: cs, sound, say => by
    rw [List.forall_mem_cons] at sound say
    exact (c.closed sound.1 say.1).append (CatchClause.closedAll cs sound.2 say.2)

/-- A handler spells what it stands for. -/
theorem CatchClause.closed : (c : CatchClause) → c.node.IsSound → AllSayable c.forms →
    Closed settings c.forms c.marks
  | .mk _ modifiers type name body, sound, say => by
    have below := sound.children
    simp only [CatchClause.node, Node.children, Node.allSound_append, Node.allSound_cons] at below
    simp only [CatchClause.forms, allSayable_append, allSayable_cons, allSayable_parens] at say
    intro others rest spelled
    have inner : Sets settings (modifierForms modifiers ++ (type.forms ++ [ident name])) _ :=
      (closed_modifiers modifiers).sets (sets_typedName below.2.1 say.1.2.1.2 say.1.2.2.1)
    have head : Spelled settings (keyword .kwCatch :: (_ ++ _))
        (.text " catch (" :: (_ ++ .text ") " :: _)) :=
      inner.within [.blank, .word .kwCatch "catch", .blank] [.blank] (by decide +kernel) (by decide)
        (body.closed below.2.2.2.1 say.2 spelled)
    simpa [CatchClause.forms, CatchClause.marks, Fixed.forms] using head

end

end Apex
