import Apex.Node.View
import Apex.Proofs.Nesting.Agreement

/-!
# What the cap on nesting changes

A program that nests too deeply is refused, but the cap does more: a look ahead that reaches it
answers no, and the parser goes on as if something else stood there. So the capped parser is
compared with a watched one, which stops at the first look ahead that would be answered
differently with a larger cap. As long as none is, the cap can only refuse a program. Once one is,
the parser has turned off from what a larger cap would read and never comes back to it.
-/

namespace Apex

/-- Whether parsing stopped because the program is nested too deeply. -/
def ParseError.isTooDeep : ParseError → Bool
  | .unexpected _ expected _ => expected == ["less deeply nested code"]
  | _ => false

/-- Whether a watched parser stopped at a look ahead that the cap answers. -/
def ParseError.isMisread : ParseError → Bool
  | .unexpected _ expected _ => expected == ["a look ahead that needs no further depth"]
  | _ => false

/-- The answer of a look ahead, provided that another one gives the same answer. -/
def Parser.agreeing (answer other : Parser Bool) : Parser Bool := do
  let found ← answer
  if found == (← other) then return found
  fail ["a look ahead that needs no further depth"]

namespace Grammar

open Apex.Parser Apex.Parser.Refines

/-- A parser that does not stop at the cap on nesting. -/
def HasRoom {α : Type} (p : Parser α) (c : Cursor) : Prop :=
  ∀ e, p c = .error e → e.isTooDeep = false

theorem HasRoom.of_isOk {α : Type} {p : Parser α} {c : Cursor} (h : (p c).isOk = true) :
    HasRoom p c := by
  intro e stopped
  rw [stopped] at h
  cases h

/-- A parser that has room does what any parser does that it refines. -/
theorem HasRoom.eq {α : Type} {p q : Parser α} {c : Cursor} (room : HasRoom p c)
    (h : Refines ParseError.isTooDeep p q) : p c = q c := by
  rcases h c with ⟨e, stopped, deep⟩ | same
  · rw [room e stopped] at deep
    cases deep
  · exact same

/-- The constructs that may be nested `depth` levels deep, where every look ahead has to be answered
as it would be with `extra` more levels. -/
def watched (extra : Nat) : (depth : Nat) → Deeper
  | 0 => { Deeper.bottom with
      ahead := fun look => agreeing ((levels 0).ahead look) ((levels extra).ahead look) }
  | depth + 1 => { above (watched extra depth) with
      ahead := fun look =>
        agreeing ((levels (depth + 1)).ahead look) ((levels (depth + extra + 1)).ahead look) }

/-- A look ahead never moves and never fails. -/
theorem ahead_levels (depth : Nat) (look : Parser TypeRef → Parser Unit) (c : Cursor) :
    ∃ answer, (levels depth).ahead look c = .ok (answer, c) := by
  have : (levels depth).ahead look = matchesAhead (look (levels depth).typeRef) := by
    cases depth <;> rfl
  rw [this]
  unfold matchesAhead
  split
  · exact ⟨true, rfl⟩
  · exact ⟨false, rfl⟩

/-- A look ahead that is watched gives the answer of both depths or stops. -/
theorem agreeing_eq (d d' : Nat) (look : Parser TypeRef → Parser Unit) (c : Cursor) :
    (∃ e, agreeing ((levels d).ahead look) ((levels d').ahead look) c = .error e ∧
      e.isMisread = true ∧ (levels d).ahead look c ≠ (levels d').ahead look c) ∨
    (agreeing ((levels d).ahead look) ((levels d').ahead look) c = (levels d).ahead look c ∧
      (levels d).ahead look c = (levels d').ahead look c) := by
  obtain ⟨answer, ha⟩ := ahead_levels d look c
  obtain ⟨other, ho⟩ := ahead_levels d' look c
  have run : agreeing ((levels d).ahead look) ((levels d').ahead look) c =
      if answer == other then .ok (answer, c)
      else Parser.fail ["a look ahead that needs no further depth"] c := by
    show ((levels d).ahead look c >>= fun r => ((levels d').ahead look r.2 >>= fun r' =>
      (if r.1 == r'.1 then pure r.1
        else Parser.fail ["a look ahead that needs no further depth"] : Parser Bool) r'.2)) = _
    rw [ha]
    show ((levels d').ahead look c >>= _) = _
    rw [ho]
    show (if answer == other then pure answer
      else Parser.fail ["a look ahead that needs no further depth"] : Parser Bool) c = _
    split
    · rfl
    · rfl
  rw [run, ha, ho]
  by_cases same : answer = other
  · subst same
    right
    simp
  · left
    refine ⟨_, if_neg (by simpa using same), ?_, ?_⟩
    · simp [ParseError.isMisread]
    · simpa using same

/-- Where no look ahead is answered by the cap, watching changes nothing. -/
theorem watched_refines (extra depth : Nat) :
    (watched extra depth).Refines ParseError.isMisread (levels depth) := by
  have watch : ∀ d d' look, Refines ParseError.isMisread
      (agreeing ((levels d).ahead look) ((levels d').ahead look)) ((levels d).ahead look) := by
    intro d d' look c
    rcases agreeing_eq d d' look c with ⟨e, he, misread, _⟩ | ⟨heq, _⟩
    · exact Or.inl ⟨e, he, misread⟩
    · exact Or.inr heq
  induction depth with
  | zero =>
    exact ⟨refl _, refl _, refl _, refl _, refl _, refl _, refl _, fun _ => refl _,
      fun look _ => watch _ _ look⟩
  | succ depth ih => exact above_refines ih fun look _ => watch _ _ look

/-- Where no look ahead is answered by the cap, only the depth can stop the watched parser earlier
than one with a larger cap. -/
theorem watched_refines_deeper (extra depth : Nat) :
    (watched extra depth).Refines (fun e => e.isMisread || e.isTooDeep)
      (levels (depth + extra)) := by
  have watch : ∀ d d' look, Refines (fun e => e.isMisread || e.isTooDeep)
      (agreeing ((levels d).ahead look) ((levels d').ahead look)) ((levels d').ahead look) := by
    intro d d' look c
    rcases agreeing_eq d d' look c with ⟨e, he, misread, _⟩ | ⟨heq, heq'⟩
    · exact Or.inl ⟨e, he, by simp [misread]⟩
    · exact Or.inr (heq.trans heq')
  induction depth with
  | zero =>
    have deep : ∀ {α : Type} (q : Parser α),
        Refines (fun e => e.isMisread || e.isTooDeep) tooDeep q :=
      fun q c => Or.inl ⟨_, rfl, by simp [ParseError.isTooDeep]⟩
    rw [Nat.zero_add]
    exact ⟨deep _, deep _, deep _, deep _, deep _, deep _, deep _, fun _ => deep _,
      fun look _ => watch _ _ look⟩
  | succ depth ih =>
    rw [Nat.succ_add]
    exact above_refines ih fun look _ => watch _ _ look

/-- What both caps read in the same way is read by the watched parser as well. -/
theorem watched_joins (extra depth : Nat) :
    Deeper.Joins (fun e => e.isMisread || e.isTooDeep) (levels depth) (levels (depth + extra))
      (watched extra depth) := by
  have watch : ∀ d d' look, Joins ((levels d).ahead look) ((levels d').ahead look)
      (agreeing ((levels d).ahead look) ((levels d').ahead look)) := by
    intro d d' look c answer c₁ c₂ hp hq
    obtain ⟨_, ha⟩ := ahead_levels d look c
    obtain ⟨_, ho⟩ := ahead_levels d' look c
    rw [hp] at ha
    rw [hq] at ho
    cases ha
    cases ho
    rcases agreeing_eq d d' look c with ⟨_, _, _, differ⟩ | ⟨same, _⟩
    · exact (differ (hp.trans hq.symm)).elim
    · exact ⟨rfl, same.trans hp⟩
  induction depth with
  | zero =>
    have refines := watched_refines_deeper extra 0
    rw [Nat.zero_add] at refines ⊢
    exact ⟨refines, rfl, nofun, fun _ => nofun, watch _ _⟩
  | succ depth ih =>
    have refines := watched_refines_deeper extra (depth + 1)
    rw [Nat.succ_add] at refines ⊢
    exact above_joins ih (watch (depth + 1) (depth + extra + 1)) refines

end Grammar

/-! ## Programs -/

/-- A cap does no more than refuse programs as nested too deeply, compared with a larger one. -/
def OnlyRefuses (capped deeper : Except ParseError CompilationUnit) : Prop :=
  (∀ unit, capped = .ok unit → deeper = .ok unit) ∧
    ∀ unit e, deeper = .ok unit → capped = .error e → e.isTooDeep = true

/-- On its way through the tokens the capped parser looks ahead at something that only the cap
keeps it from seeing. -/
def Misreads (depth extra : Nat) (tokens : List Token) : Prop :=
  ∃ e, parseWith (Grammar.watched extra depth) tokens = .error e ∧ e.isMisread = true

/-- Whatever may be nested, tokens with a stray end are refused in the same way. -/
theorem parseWith_cases (tokens : List Token) :
    (∃ e, e.isMisread = false ∧ ∀ D, parseWith D tokens = .error e) ∨
      ∀ D, parseWith D tokens =
        (Grammar.compilationUnit D (Cursor.ofTokens tokens)).map Prod.fst := by
  cases h : (Cursor.ofTokens tokens).strayAfterEnd? with
  | some stray =>
    refine Or.inl ⟨.unexpected stray.span ["end of token stream"] stray.kind, ?_, fun D => ?_⟩
    · simp [ParseError.isMisread]
    · simp only [parseWith, h]
  | none =>
    refine Or.inr fun D => ?_
    simp only [parseWith, h]

/-- The runs of the three parsers decide whether the cap only refuses. -/
theorem onlyRefuses_iff_of_runs {capped larger watched : Except ParseError (CompilationUnit × Cursor)}
    (refines : (∃ e, watched = .error e ∧ e.isMisread = true) ∨ watched = capped)
    (deeper : (∃ e, watched = .error e ∧ (e.isMisread || e.isTooDeep) = true) ∨ watched = larger)
    (joins : ∀ {u c₁ c₂}, capped = .ok (u, c₁) → larger = .ok (u, c₂) → watched = .ok (u, c₁)) :
    OnlyRefuses (capped.map Prod.fst) (larger.map Prod.fst) ↔
      (¬∃ e, watched.map Prod.fst = .error e ∧ e.isMisread = true) ∨
        ∃ e, capped.map Prod.fst = .error e ∧
          (e.isTooDeep = true ∨ ∃ e', larger.map Prod.fst = .error e') := by
  constructor
  · rintro ⟨accepts, refuses⟩
    rcases hc : capped with e | ⟨u, c₁⟩
    case ok =>
      left
      rintro ⟨e, run, misread⟩
      have same := accepts u (by rw [hc]; rfl)
      rcases hl : larger with e' | ⟨u', c₂⟩
      · rw [hl] at same
        cases same
      · rw [hl] at same
        cases same
        rw [joins hc hl] at run
        cases run
    case error =>
      right
      refine ⟨e, rfl, ?_⟩
      cases hl : larger with
      | error e' => exact Or.inr ⟨e', rfl⟩
      | ok r' => exact Or.inl (refuses r'.1 e (by rw [hl]; rfl) (by rw [hc]; rfl))
  · rintro (agrees | ⟨e, refused, rest⟩)
    · have same : watched = capped := by
        rcases refines with ⟨e, run, misread⟩ | same
        · exact (agrees ⟨e, by rw [run]; rfl, misread⟩).elim
        · exact same
      subst same
      rcases deeper with ⟨e, run, stopped⟩ | rfl
      · have deep : e.isTooDeep = true := by
          cases misread : e.isMisread with
          | true => exact (agrees ⟨e, by rw [run]; rfl, misread⟩).elim
          | false => simpa [misread] using stopped
        rw [run]
        constructor
        · intro unit accepted
          cases accepted
        · intro unit e' _ refused
          cases refused
          exact deep
      · constructor
        · exact fun _ accepted => accepted
        · intro unit e accepted refused
          rw [accepted] at refused
          cases refused
    · constructor
      · intro unit accepted
        rw [refused] at accepted
        cases accepted
      · intro unit e' accepted refused'
        rw [refused] at refused'
        cases refused'
        rcases rest with deep | ⟨e', refused'⟩
        · exact deep
        · rw [refused'] at accepted
          cases accepted

/-- With a larger cap a program means the same, and is at most refused as nested too deeply by the
smaller cap, unless a look ahead is cut short by the cap: then the smaller cap reads another
program, or refuses the tokens for another reason, or else neither cap accepts them. -/
theorem onlyRefuses_iff (depth extra : Nat) (tokens : List Token) :
    OnlyRefuses (parseWithin depth tokens) (parseWithin (depth + extra) tokens) ↔
      ¬Misreads depth extra tokens ∨
        ∃ e, parseWithin depth tokens = .error e ∧
          (e.isTooDeep = true ∨ ∃ e', parseWithin (depth + extra) tokens = .error e') := by
  unfold Misreads parseWithin
  rcases parseWith_cases tokens with ⟨e, read, refused⟩ | runs
  · rw [refused, refused, refused]
    refine iff_of_true ⟨nofun, nofun⟩ (Or.inl ?_)
    rintro ⟨_, same, misread⟩
    cases same
    rw [read] at misread
    cases misread
  · rw [runs, runs, runs]
    refine onlyRefuses_iff_of_runs
      (Grammar.compilationUnit_refines (Grammar.watched_refines extra depth) _)
      (Grammar.compilationUnit_refines (Grammar.watched_refines_deeper extra depth) _) ?_
    exact fun hp hq => (Grammar.compilationUnit_joins (Grammar.watched_joins extra depth) hp hq).2

/-- The kind of the node that a path leads to in the tree of an accepted program. -/
def kindAt? (path : List Nat) (parsed : Except ParseError CompilationUnit) : Option NodeKind :=
  parsed.toOption.bind fun unit => (unit.node.descend? path).map Node.kind

/-- A declaration whose type arguments reach the cap is read as a comparison. A block around it
takes one level, so in `n` blocks the same happens at the caps `n + 2` and `n + 3`: in 998 blocks at
`maxNesting`, which is 1000, beside a cap of 1001. -/
theorem not_onlyRefuses_typeArguments :
    ∃ tokens, lex "class C { void f() { A<A<A>> x; } }" = .ok tokens ∧
      ¬OnlyRefuses (parseWithin 2 tokens) (parseWithin 3 tokens) := by
  have read : ∀ depth kind,
      ((lex "class C { void f() { A<A<A>> x; } }").toOption.bind fun tokens =>
        kindAt? [0, 1, 1, 0] (parseWithin depth tokens)) = some kind →
      ∃ tokens unit, lex "class C { void f() { A<A<A>> x; } }" = .ok tokens ∧
        parseWithin depth tokens = .ok unit ∧
        kindAt? [0, 1, 1, 0] (parseWithin depth tokens) = some kind := by
    intro depth kind found
    cases lexed : lex "class C { void f() { A<A<A>> x; } }" with
    | error e =>
      rw [lexed] at found
      cases found
    | ok tokens =>
      rw [lexed] at found
      cases parsed : parseWithin depth tokens with
      | error e =>
        simp [Except.toOption, kindAt?, parsed] at found
      | ok unit => exact ⟨tokens, unit, rfl, parsed, found⟩
  obtain ⟨tokens, unit, lexed, parsed, kind⟩ := read 2 .expressionStmt (by decide +kernel)
  obtain ⟨tokens', unit', lexed', parsed', kind'⟩ := read 3 .localVariableDecl (by decide +kernel)
  rw [lexed] at lexed'
  cases lexed'
  refine ⟨tokens, lexed, fun only => ?_⟩
  rw [only.1 unit parsed, ← parsed, kind] at kind'
  cases kind'

end Apex
