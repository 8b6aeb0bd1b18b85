import Apex.Node.View
import Apex.Proofs.Reading.Steps

/-!
# The shape of accepted trees

The grammar accepts fewer trees than the types of the tree allow. What it promises of every piece
of syntax is said here: how tightly an expression binds and what its operands may therefore be, and
which lists may be empty or hold the same thing twice. A tree is sound if the promise holds for
everything in it.
-/

namespace Apex

/-! ## How tightly expressions bind -/

namespace Binding

/-- How tightly a conditional expression binds: tighter than an assignment, looser than any
operator between operands. -/
def conditional : Nat := 20

/-- How tightly what stands before an operand binds. -/
def before : Nat := Operator.bang.precedence

/-- How tightly a stepping operator behind its operand binds. -/
def behind : Nat := Operator.increment.precedence

/-- How tightly everything binds that no operator takes apart. -/
def whole : Nat := 150

end Binding

/-- How tightly the outermost construct of an expression binds, on the scale of the register of
operators. A type test counts as a comparison. -/
def Expr.binding : Expr → Nat
  | .assignment .. => Operator.assignmentPrecedence
  | .ternary .. => Binding.conditional
  | .binary _ _ op _ => op.operator.precedence
  | .instanceOf .. => Operator.less.precedence
  | .cast .. | .unary .. | .stepBefore .. => Binding.before
  | .stepAfter .. => Binding.behind
  | _ => Binding.whole

/-- No operand binds more loosely than its operator lets it. A chain of one level groups from the
left, so there only the left operand may bind as tightly as the operator. -/
def Expr.IsGrouped : Expr → Prop
  | .binary _ left op right =>
    op.operator.precedence ≤ left.binding ∧ op.operator.precedence < right.binding
  | .instanceOf _ operand _ => Operator.less.precedence ≤ operand.binding
  | .unary _ _ operand | .stepBefore _ _ operand | .cast _ _ operand =>
    Binding.before ≤ operand.binding
  | .member _ operand _ | .methodCall _ operand _ _ | .index _ operand _
  | .stepAfter _ _ operand => Binding.whole ≤ operand.binding
  | .ternary _ condition _ no =>
    Binding.conditional < condition.binding ∧ Binding.conditional ≤ no.binding
  | .assignment _ target _ _ => Operator.assignmentPrecedence < target.binding
  | _ => True

/-! ## Lists that are never empty and things that are never given twice -/

/-- No modifier is given twice. -/
def Distinct (modifiers : List (Spanned Modifier)) : Prop := (modifiers.map (·.value)).Nodup

namespace Distinct

/-- A modifier that is not yet among others keeps them distinct. -/
theorem cons {m : Spanned Modifier} {ms : List (Spanned Modifier)} (h : Distinct ms)
    (fresh : ms.any (·.value == m.value) = false) : Distinct (m :: ms) := by
  refine List.nodup_cons.mpr ⟨fun given => ?_, h⟩
  obtain ⟨other, mem, same⟩ := List.mem_map.mp given
  have := List.any_eq_false.mp fresh other mem
  simp [same] at this

theorem reverse {ms : List (Spanned Modifier)} (h : Distinct ms) : Distinct ms.reverse := by
  unfold Distinct
  rw [List.map_reverse]
  exact List.pairwise_reverse.mpr (List.Pairwise.imp Ne.symm h)

end Distinct

/-- What `new` makes is given by a type without array brackets, and empty braces behind it are a
map exactly if the type is called `Map`. -/
def Expr.IsMade : Expr → Prop
  | .newObject _ type _ | .newArray _ type _ | .newArrayOf _ type _ => type.dimensions = 0
  | .newCollection _ type elements =>
    type.dimensions = 0 ∧ (elements = [] → sameWord "map" type.simpleName = false)
  | .newMap _ type entries =>
    type.dimensions = 0 ∧ (entries = [] → sameWord "map" type.simpleName = true)
  | _ => True

/-- The key of an annotation's argument. -/
def AnnotationElement.key : AnnotationElement → Option Ident
  | .mk _ key _ _ => key

/-- Whether a comma follows the argument. -/
def AnnotationElement.comma : AnnotationElement → Bool
  | .mk _ _ _ comma => comma

/-- An annotation without parentheses has no arguments, and an argument without a key is the only
one and has no comma behind it. -/
def AnnotationMark.IsFormed (a : AnnotationMark) : Prop :=
  (a.parenthesized = false → a.elements = []) ∧
    ∀ e ∈ a.elements, e.key = none → a.elements = [e] ∧ e.comma = false

/-- The handlers of a statement catch something, or it has a last block; modifiers are distinct. -/
def Statement.IsFormed : Statement → Prop
  | .tryCatch _ _ catches => catches ≠ []
  | .forEach _ modifiers _ _ _ _ => Distinct modifiers
  | _ => True

/-- A member that is a constructor has the given name, in any letter case. -/
def Member.IsNamed (className : String) : Member → Prop
  | .constructor _ c => sameWord c.name.value className = true
  | _ => True

/-- Modifiers are distinct, constructors have the name of their class, methods of an interface have
no body, and a comma behind the constants of an enum has a constant before it. -/
def TypeDeclaration.IsFormed : TypeDeclaration → Prop
  | .classType _ head members =>
    Distinct head.header.modifiers ∧ ∀ m ∈ members, m.IsNamed head.name.value
  | .interfaceType _ head methods =>
    Distinct head.header.modifiers ∧ ∀ m ∈ methods, m.value.body = none
  | .enumType _ e =>
    Distinct e.header.modifiers ∧ (e.trailingComma = true → e.constants ≠ [])

/-- What the grammar promises of a piece of syntax, whatever stands in it. -/
def Element.IsSound : Element → Prop
  | .typeDeclaration d => d.IsFormed
  | .trigger t => t.events ≠ []
  | .annotated a => a.IsFormed
  | .type t => t.segments ≠ []
  | .qualifiedName q => q.parts ≠ []
  | .field f => Distinct f.header.modifiers ∧ f.declarators ≠ []
  | .method m => Distinct m.header.modifiers
  | .constructor c => Distinct c.header.modifiers
  | .parameter p => Distinct p.modifiers
  | .property p =>
    Distinct p.header.modifiers ∧ p.accessors ≠ [] ∧ (p.accessors.map (·.kind)).Nodup
  | .accessor a => Distinct a.modifiers
  | .locals v => Distinct v.modifiers ∧ v.declarators ≠ []
  | .statement s => s.IsFormed
  | .catchClause (.mk _ modifiers _ _ _) => Distinct modifiers
  | .expr e => e.IsGrouped ∧ e.IsMade
  | _ => True

/-- The node and everything below it is sound. -/
inductive Node.IsSound : Node → Prop where
  | mk {element : Element} {span : Span} {children : List Node} (here : element.IsSound)
    (below : ∀ n ∈ children, Node.IsSound n) : Node.IsSound (.mk element span children)

namespace Node

variable {n m : Node}

theorem IsSound.element (h : n.IsSound) : n.element.IsSound := by
  cases h
  assumption

/-- Whatever is reached from a sound node is sound. -/
theorem IsSound.descend {path : List Nat} (h : n.IsSound) (reached : n.descend? path = some m) :
    m.IsSound := by
  refine descend_induction (fun n sound => ?_) h reached
  obtain ⟨_, below⟩ := sound
  exact below

/-- A node that has nothing below it is sound if it is sound itself. -/
theorem isSound_leaf {element : Element} {span : Span} (h : element.IsSound) :
    (leaf element span).IsSound :=
  .mk h fun _ hn => nomatch hn

/-- All nodes are sound. -/
def AllSound (ns : List Node) : Prop := ∀ n ∈ ns, n.IsSound

@[simp] theorem allSound_nil : AllSound [] := fun _ hn => nomatch hn

@[simp] theorem allSound_cons {n : Node} {ns : List Node} :
    AllSound (n :: ns) ↔ n.IsSound ∧ AllSound ns := List.forall_mem_cons

@[simp] theorem allSound_append {ns ms : List Node} :
    AllSound (ns ++ ms) ↔ AllSound ns ∧ AllSound ms := List.forall_mem_append

@[simp] theorem allSound_map {α : Type} {f : α → Node} {xs : List α} :
    AllSound (xs.map f) ↔ ∀ x ∈ xs, (f x).IsSound := List.forall_mem_map

@[simp] theorem allSound_option {α : Type} {f : α → Node} {x : Option α} :
    AllSound (x.map f).toList ↔ ∀ a ∈ x, (f a).IsSound := by
  cases x <;> simp

end Node

/-! ## Parsers -/

namespace Parser

variable {α β σ : Type} {P : α → Prop} {c c' : Cursor}

/-- Whatever the parser reads has the property. -/
def Yields (p : Parser α) (P : α → Prop) : Prop := ∀ ⦃c x c'⦄, p c = .ok (x, c') → P x

theorem Yields.mono {p : Parser α} {Q : α → Prop} (h : p.Yields P) (hPQ : ∀ x, P x → Q x) :
    p.Yields Q :=
  fun _ _ _ run => hPQ _ (h run)

/-- A parser that goes by the kind of the token under the cursor. -/
theorem yields_of_kind {f : TokenKind → Parser α} (h : ∀ k, (f k).Yields P) :
    (kind >>= f).Yields P :=
  fun _ _ _ run => h _ run

/-- What an item of a row comes from has a property if every item does. -/
theorem forall_of_items {item : Cursor → α → Cursor → Prop} {xs : List α}
    (h : Items item c xs c') (hitem : ∀ {c x c₁}, item c x c₁ → P x) : ∀ x ∈ xs, P x := by
  induction h with
  | nil => exact fun _ hx => nomatch hx
  | cons first _ ih => exact List.forall_mem_cons.mpr ⟨hitem first, ih⟩

theorem itemsUntil_yields {item : Parser α} (h : item.Yields P) (close : TokenKind) :
    (itemsUntil close item).Yields fun xs => ∀ x ∈ xs, P x :=
  fun _ _ _ run => forall_of_items (itemsUntil_items run).1 fun run => h run.2

theorem commaSeparatedFrom_yields {item : Parser α} (h : item.Yields P) {first : α}
    (hf : P first) :
    (commaSeparatedFrom first item).Yields fun xs => xs ≠ [] ∧ ∀ x ∈ xs, P x := by
  intro c xs c' run
  obtain ⟨more, rfl, items, _⟩ := commaSeparatedFrom_items run
  have others := forall_of_items items fun run => h run.2
  exact ⟨List.cons_ne_nil _ _, List.forall_mem_cons.mpr ⟨hf, others⟩⟩

theorem commaSeparated_yields {item : Parser α} (h : item.Yields P) :
    (commaSeparated item).Yields fun xs => xs ≠ [] ∧ ∀ x ∈ xs, P x := by
  intro c xs c' run
  obtain ⟨first, c₁, run, rest⟩ := bind_ok.mp run
  exact commaSeparatedFrom_yields h (h run) rest

/-- What a loop keeps to be true of its state, and what it makes true of its result. -/
theorem yields_of_iterates {step : σ → Parser (Turn σ β)} {I : σ → Prop} {Q : β → Prop}
    {state : σ} {result : β} (loop : Iterates step state c result c')
    (again : ∀ {s c s' c₁}, I s → step s c = .ok (.again s', c₁) → I s')
    (done : ∀ {s c r c₁}, I s → step s c = .ok (.done r, c₁) → Q r) (start : I state) :
    Q result := by
  induction loop with
  | done run => exact done start run
  | again run _ ih => exact ih (again start run)

end Parser

end Apex
