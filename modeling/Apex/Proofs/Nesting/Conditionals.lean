import Apex.Proofs.Nesting.Cap
import Apex.Proofs.Progress.Programs

/-!
# Chains of conditionals

The links of a chain of `else if` are read in a loop and put together when the chain is over. The
same conditionals come out of the rule `if (condition) statement else statement` that reads what
stands behind the `else` as it reads any other statement, as long as that rule has levels enough:
it needs one more for each link.
-/

namespace Apex

namespace Grammar

open Apex.Parser Apex.Parser.Refines

variable {D D' : Deeper} {c : Cursor}

/-! ## The rule -/

/-- `if (condition) statement`, and `else statement` if there is one. -/
def ifRule (deeper : Deeper) : Parser Statement := do
  let start ← expect (.keyword .kwIf)
  let link ← ifLink deeper start
  if ← accept (.keyword .kwElse) then link.statement (some (← deeper.statement))
  else link.statement none

/-- Looks ahead like `matchesAhead`, but is stopped by the cap on nesting. -/
def strictlyAhead (p : Parser Unit) : Parser Bool := fun c =>
  match p c with
  | .ok _ => .ok (true, c)
  | .error e => if e.isTooDeep then .error e else .ok (false, c)

/-- A statement, conditionals being read in the given way. -/
def statementBy (conditional : Deeper → Parser Statement) (deeper : Deeper) : Parser Statement := do
  if ← isAt (.keyword .kwIf) then conditional deeper else statement deeper

/-- The constructs that may be nested `depth` levels deep, for a way of reading conditionals and of
looking ahead. -/
def levelsBy (conditional : Deeper → Parser Statement) (look : Parser Unit → Parser Bool) :
    (depth : Nat) → Deeper
  | 0 => { Deeper.bottom with ahead := fun type => look (type tooDeep) }
  | depth + 1 =>
    { above (levelsBy conditional look depth) with
      statement := statementBy conditional (levelsBy conditional look depth)
      ahead := fun type => look (type (typeRef (levelsBy conditional look depth).typeRef)) }

theorem statement_at_if (h : c.current.kind = .keyword .kwIf) (D : Deeper) :
    statement D c = ifStatement D c := by
  unfold statement
  rw [bind_eq_of_ok (show kind c = .ok (.keyword .kwIf, c) by rw [← h]; rfl)]

theorem statementBy_at_if (h : c.current.kind = .keyword .kwIf)
    (conditional : Deeper → Parser Statement) (D : Deeper) :
    statementBy conditional D c = conditional D c := by
  show (if c.current.kind == .keyword .kwIf then conditional D else statement D) c = _
  rw [h]
  rfl

theorem statementBy_of_ne (h : c.current.kind ≠ .keyword .kwIf)
    (conditional : Deeper → Parser Statement) (D : Deeper) :
    statementBy conditional D c = statement D c := by
  show (if c.current.kind == .keyword .kwIf then conditional D else statement D) c = _
  rw [if_neg (by simpa using h)]

theorem statementBy_ifStatement (D : Deeper) : statementBy ifStatement D = statement D := by
  funext c
  by_cases h : c.current.kind = .keyword .kwIf
  · rw [statementBy_at_if h, statement_at_if h]
  · exact statementBy_of_ne h _ _

/-- The grammar is the one whose conditionals are read in a loop. -/
theorem levelsBy_ifStatement (depth : Nat) : levelsBy ifStatement matchesAhead depth = levels depth := by
  induction depth with
  | zero => rfl
  | succ depth ih =>
    rw [levelsBy, ih, statementBy_ifStatement]
    rfl

/-! ## The loop -/

/-- What stands behind an `else`: another conditional costs no further level. -/
def otherwise (deeper : Deeper) : Parser Statement := do
  if ← isAt (.keyword .kwIf) then ifStatement deeper else deeper.statement

theorem otherwise_at_if (h : c.current.kind = .keyword .kwIf) (D : Deeper) :
    otherwise D c = ifStatement D c := by
  show (if c.current.kind == .keyword .kwIf then ifStatement D else D.statement) c = _
  rw [h]
  rfl

theorem otherwise_of_ne (h : c.current.kind ≠ .keyword .kwIf) (D : Deeper) :
    otherwise D c = D.statement c := by
  show (if c.current.kind == .keyword .kwIf then ifStatement D else D.statement) c = _
  rw [if_neg (by simpa using h)]

theorem linkUp_append (links earlier : List IfLink) (last : Option Statement) :
    linkUp (links ++ earlier) last = linkUp links last >>= linkUp earlier := by
  induction links generalizing last with
  | nil => exact (pure_bind last (linkUp earlier)).symm
  | cons link links ih =>
    rw [List.cons_append, linkUp, linkUp, bind_assoc]
    congr 1
    funext s
    exact ih (some s)

/-- Links read before those of a step are left alone by it. -/
theorem elseStep_append (D : Deeper) (links earlier : List IfLink) :
    elseStep D (links ++ earlier) =
      Turn.map (· ++ earlier) (Prod.map (· ++ earlier) id) <$> elseStep D links := by
  unfold elseStep
  rw [map_bind]
  congr 1
  funext found
  cases found with
  | false => simp [Turn.map]
  | true =>
    simp only [if_true, map_bind]
    congr 1
    funext again
    cases again with
    | false => simp [Turn.map]
    | true => simp [Turn.map]

/-- A loop that has read links before goes on as one that has not. -/
theorem elseChain_append (D : Deeper) (earlier : List IfLink) :
    iterate (elseStep D) earlier = Prod.map (· ++ earlier) id <$> elseChain D :=
  iterate_eq_map (· ++ earlier) _ (fun links => elseStep_append D links earlier) []

/-- What is read ahead of a word is the word that is expected. -/
theorem isAt_next_eq_expect {α : Type} (k : TokenKind) (f : Span → Parser α) (q : Parser α) :
    (do if ← isAt k then f (← next).span else q) =
      (do if ← isAt k then f (← expect k) else q : Parser α) := by
  funext c
  show (if c.current.kind == k then next >>= fun t => f t.span else q) c =
    (if c.current.kind == k then expect k >>= f else q) c
  by_cases h : c.current.kind = k
  · have found : expect k c = .ok (c.current.span, c.advance) := if_pos (by simpa using h)
    rw [if_pos (by simpa using h), if_pos (by simpa using h), bind_eq_of_ok found]
    rfl
  · rw [if_neg (by simpa using h), if_neg (by simpa using h)]

theorem elseStep_eq (D : Deeper) (links : List IfLink) :
    elseStep D links = (do
      if ← accept (.keyword .kwElse) then
        if ← isAt (.keyword .kwIf) then
          return .again ((← ifLink D (← expect (.keyword .kwIf))) :: links)
        else return .done (links, some (← D.statement))
      else return .done (links, none)) := by
  unfold elseStep
  congr 1
  funext found
  cases found with
  | false => rfl
  | true =>
    exact isAt_next_eq_expect (.keyword .kwIf)
      (fun start => do return Turn.again ((← ifLink D start) :: links)) _

/-- The links of a chain, put together, are what one `else` has behind it. -/
theorem elseChain_linkUp (hD : D.Progresses) :
    (do let (links, last) ← elseChain D; linkUp links last) =
      (do if ← accept (.keyword .kwElse) then some <$> otherwise D else return none) := by
  rw [elseChain, iterate_eq_step (elseStep_reads hD), elseStep_eq]
  simp only [bind_assoc]
  congr 1
  funext found
  cases found with
  | false => simp [linkUp]
  | true =>
    simp only [if_true, bind_assoc, otherwise, map_bind]
    congr 1
    funext again
    cases again with
    | false => simp [linkUp]
    | true =>
      simp only [if_true, bind_assoc, pure_bind, ifStatement, map_bind, elseChain_append]
      congr 1
      funext start
      congr 1
      funext link
      simp only [← bind_pure_comp, bind_assoc, pure_bind, Prod.map_fst, Prod.map_snd, linkUp_append]
      rfl

/-- A conditional as the rule reads it, but that what stands behind an `else` costs no level. -/
theorem ifStatement_eq (hD : D.Progresses) :
    ifStatement D = (do
      let start ← expect (.keyword .kwIf)
      let link ← ifLink D start
      if ← accept (.keyword .kwElse) then link.statement (some (← otherwise D))
      else link.statement none) := by
  unfold ifStatement
  congr 1
  funext start
  congr 1
  funext link
  have chain := congrArg (· >>= link.statement) (elseChain_linkUp hD)
  simp only [bind_assoc] at chain
  rw [chain]
  congr 1
  funext found
  cases found with
  | false => simp
  | true => simp

/-! ## The rule with levels enough -/

theorem strictlyAhead_refines {p p' : Parser Unit} (h : Refines ParseError.isTooDeep p p') :
    Refines ParseError.isTooDeep (strictlyAhead p) (matchesAhead p') := by
  intro c
  unfold strictlyAhead matchesAhead
  rcases h c with ⟨e, stopped, deep⟩ | same
  · left
    refine ⟨e, ?_, deep⟩
    rw [stopped]
    exact if_pos deep
  · rw [same]
    cases run : p' c with
    | ok r => exact .inr rfl
    | error e =>
      by_cases deep : e.isTooDeep = true
      · exact .inl ⟨e, if_pos deep, deep⟩
      · exact .inr (if_neg deep)

theorem tooDeep_refines {α : Type} (p : Parser α) : Refines ParseError.isTooDeep tooDeep p :=
  fun _ => .inl ⟨_, rfl, by simp [ParseError.isTooDeep]⟩

theorem ifRule_refines {stop : ParseError → Bool} (h : D.Refines stop D') :
    Refines stop (ifRule D) (ifRule D') := by
  refine bind (refl _) fun start => bind (ifLink_refines h start) fun link => ?_
  exact bind (refl _) fun found => ite (bind h.statement fun _ => refl _) (refl _)

theorem ifRule_refines_ifStatement {stop : ParseError → Bool} (hD' : D'.Progresses)
    (h : D.Refines stop D') (branch : Refines stop D.statement (otherwise D')) :
    Refines stop (ifRule D) (ifStatement D') := by
  rw [ifStatement_eq hD']
  refine bind (refl _) fun start => bind (ifLink_refines h start) fun link => ?_
  exact bind (refl _) fun found => ite (bind branch fun _ => refl _) (refl _)

/-- Constructs over levels that agree do, if statements are read alike. -/
theorem above_refines_by (h : D.Refines ParseError.isTooDeep D') {p p' : Parser Statement}
    (hp : Refines ParseError.isTooDeep p p') :
    Deeper.Refines ParseError.isTooDeep
      { above D with
        statement := p
        ahead := fun type => strictlyAhead (type (typeRef D.typeRef)) }
      { above D' with statement := p' } :=
  have built := above_refines h
    (a := fun look => strictlyAhead (look (typeRef D.typeRef))) fun _ keeps =>
      strictlyAhead_refines (keeps (typeRef_refines h.typeRef))
  { built with statement := hp }

/-- Statements agree if their conditionals do and all else is read alike. -/
theorem statementBy_refines {stop : ParseError → Bool} {conditional : Deeper → Parser Statement}
    {p : Parser Statement}
    (atIf : ∀ c, c.current.kind = .keyword .kwIf →
      (∃ e, conditional D c = .error e ∧ stop e = true) ∨ conditional D c = p c)
    (elsewhere : ∀ c, c.current.kind ≠ .keyword .kwIf →
      (∃ e, statement D c = .error e ∧ stop e = true) ∨ statement D c = p c) :
    Refines stop (statementBy conditional D) p := by
  intro c
  by_cases h : c.current.kind = .keyword .kwIf
  · rw [statementBy_at_if h]
    exact atIf c h
  · rw [statementBy_of_ne h]
    exact elsewhere c h

/-- Below the last level every reading stops at once, or looks ahead at nothing. -/
theorem bottom_refines (D : Deeper)
    (ahead : ∀ look, D.ahead look = matchesAhead (look D.typeRef)) :
    Deeper.Refines ParseError.isTooDeep
      { Deeper.bottom with ahead := fun type => strictlyAhead (type tooDeep) } D where
  typeRef := tooDeep_refines _
  annotationMark := tooDeep_refines _
  annotationValue := tooDeep_refines _
  assignment := tooDeep_refines _
  ternary := tooDeep_refines _
  unary := tooDeep_refines _
  statement := tooDeep_refines _
  typeDeclaration _ := tooDeep_refines _
  ahead look keeps := by
    rw [ahead]
    exact strictlyAhead_refines (keeps (tooDeep_refines _))

theorem levels_ahead (depth : Nat) (look : Parser TypeRef → Parser Unit) :
    (levels depth).ahead look = matchesAhead (look (levels depth).typeRef) := by
  cases depth <;> rfl

/-- Whether a way of reading conditionals agrees with the loop of a level that has more room, where
what stands behind an `else` is read alike. -/
def AgreesWithLoop (conditional : Deeper → Parser Statement) : Prop :=
  ∀ {D D' : Deeper}, D'.Progresses → D.Refines ParseError.isTooDeep D' →
    Refines ParseError.isTooDeep D.statement (otherwise D') →
    Refines ParseError.isTooDeep (conditional D) (ifStatement D')

theorem agreesWithLoop_ifStatement : AgreesWithLoop ifStatement :=
  fun _ h _ => ifStatement_refines h

theorem agreesWithLoop_ifRule : AgreesWithLoop ifRule :=
  fun hD' h branch => ifRule_refines_ifStatement hD' h branch

variable {conditional : Deeper → Parser Statement}

/-- With levels enough, all constructs are read as the grammar reads them with any number of levels
more, and a statement as the grammar reads it behind an `else`. The induction needs the spare
levels: a link takes one of them from the rule, but none from the loop. -/
theorem levelsBy_refines_levels (hc : AgreesWithLoop conditional) (depth extra : Nat) :
    (levelsBy conditional strictlyAhead depth).Refines ParseError.isTooDeep (levels (depth + extra)) ∧
      Refines ParseError.isTooDeep (levelsBy conditional strictlyAhead depth).statement
        (otherwise (levels (depth + extra))) := by
  induction depth generalizing extra with
  | zero => exact ⟨bottom_refines _ (levels_ahead _), tooDeep_refines _⟩
  | succ depth ih =>
    obtain ⟨refines, branch⟩ := ih extra
    constructor
    · have agrees := hc (progresses_levels _) refines branch
      rw [Nat.succ_add]
      refine above_refines_by refines (statementBy_refines (fun c h => ?_) fun c _ => ?_)
      · rw [statement_at_if h]
        exact agrees c
      · exact statement_refines refines c
    · obtain ⟨refines', branch'⟩ := ih (extra + 1)
      have agrees := hc (progresses_levels _) refines' branch'
      rw [show depth + 1 + extra = depth + (extra + 1) by omega]
      refine statementBy_refines (fun c h => ?_) fun c h => ?_
      · rw [otherwise_at_if h]
        exact agrees c
      · rw [otherwise_of_ne h]
        exact statement_refines refines c

/-- What looks ahead without being stopped looks ahead as the grammar does. -/
theorem levelsBy_refines_matchesAhead
    (hc : ∀ {D D' : Deeper}, D.Refines ParseError.isTooDeep D' →
      Refines ParseError.isTooDeep (conditional D) (conditional D')) (depth : Nat) :
    (levelsBy conditional strictlyAhead depth).Refines ParseError.isTooDeep
      (levelsBy conditional matchesAhead depth) := by
  induction depth with
  | zero => exact bottom_refines _ fun _ => rfl
  | succ depth ih =>
    refine above_refines_by ih (bind (refl _) fun found => ite (hc ih) (statement_refines ih))

/-- Wherever the rule does not come to the cap on nesting, not even in looking ahead, a conditional
read in a loop is the one the rule reads: the same tree up to the same place, or the same error.
This holds of the rule at one conditional, with the statements in it read as ever, and of the rule
used throughout. -/
theorem ifStatement_eq_ifRule (depth : Nat) (c : Cursor) :
    (HasRoom (ifRule (levelsBy ifStatement strictlyAhead depth)) c →
      ifStatement (levels depth) c = ifRule (levels depth) c) ∧
    (HasRoom (ifRule (levelsBy ifRule strictlyAhead depth)) c →
      ifStatement (levels depth) c = ifRule (levelsBy ifRule matchesAhead depth) c) := by
  constructor
  · intro room
    have loop := levelsBy_refines_levels agreesWithLoop_ifStatement depth 0
    have rule := levelsBy_refines_matchesAhead ifStatement_refines depth
    rw [levelsBy_ifStatement] at rule
    have agrees := agreesWithLoop_ifRule (progresses_levels _) loop.1 loop.2
    exact (room.eq agrees).symm.trans (room.eq (ifRule_refines rule))
  · intro room
    have loop := levelsBy_refines_levels agreesWithLoop_ifRule depth 0
    have rule := levelsBy_refines_matchesAhead ifRule_refines depth
    have agrees := agreesWithLoop_ifRule (progresses_levels _) loop.1 loop.2
    exact (room.eq agrees).symm.trans (room.eq (ifRule_refines rule))

/-- A chain of two conditionals behind a first `else`. -/
theorem ifStatement_eq_ifRule_chain :
    ∃ tokens, lex "if (a) if (b) c; else d; else if (e) f;" = .ok tokens ∧
      HasRoom (ifRule (levelsBy ifStatement strictlyAhead 5)) (Cursor.ofTokens tokens) ∧
      HasRoom (ifRule (levelsBy ifRule strictlyAhead 5)) (Cursor.ofTokens tokens) ∧
      ifStatement (levels 5) (Cursor.ofTokens tokens) = ifRule (levels 5) (Cursor.ofTokens tokens) ∧
      ifStatement (levels 5) (Cursor.ofTokens tokens) =
        ifRule (levelsBy ifRule matchesAhead 5) (Cursor.ofTokens tokens) := by
  have reads : ((lex "if (a) if (b) c; else d; else if (e) f;").toOption.map fun tokens =>
      ((ifRule (levelsBy ifStatement strictlyAhead 5) (Cursor.ofTokens tokens)).isOk,
        (ifRule (levelsBy ifRule strictlyAhead 5) (Cursor.ofTokens tokens)).isOk)) =
      some (true, true) := by decide +kernel
  cases lexed : lex "if (a) if (b) c; else d; else if (e) f;" with
  | error e => simp [lexed, Except.toOption] at reads
  | ok tokens =>
    simp only [lexed, Except.toOption, Option.map_some, Option.some.injEq, Prod.mk.injEq] at reads
    have once := HasRoom.of_isOk reads.1
    have throughout := HasRoom.of_isOk reads.2
    obtain ⟨rule, rules⟩ := ifStatement_eq_ifRule 5 (Cursor.ofTokens tokens)
    exact ⟨tokens, rfl, once, throughout, rule once, rules throughout⟩

end Grammar

end Apex
