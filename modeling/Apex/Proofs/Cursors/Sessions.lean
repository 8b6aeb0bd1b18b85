import Apex.Grammar.Unit
import Apex.Proofs.Progress.Parsers

/-!
# Cursors in use

A reader asks a cursor for one thing after the other: to move on, to tell what is near by, to take a
mark, to come back to a mark it took. However long such a session gets, the cursor never passes the
first end of its row, coming back is as if nothing had happened since the mark, and no token beside
the row is ever asked for. The last is said of a bare index into the row, which fails where a
cursor, with the facts it carries, has nothing to fail at.
-/

namespace Apex

/-! ## Sessions -/

/-- What a reader can ask of a cursor. -/
inductive CursorAction where
  /-- Move on, and tell which token that was. -/
  | advance
  /-- Take a mark. -/
  | mark
  /-- Come back to a mark. -/
  | rollback (m : CursorMark)
  /-- Tell the token under the cursor. -/
  | current
  /-- Tell the token some places ahead. -/
  | peek (n : Nat)
  /-- Tell the token before the cursor. -/
  | previous
  /-- Tell whether the end is under the cursor. -/
  | atEnd
  /-- Tell the position. -/
  | position
  /-- Tell what stands behind the first end. -/
  | strayAfterEnd
  /-- Tell the whole row. -/
  | tokens
deriving DecidableEq, Repr

/-- What a reader is told. -/
inductive CursorAnswer where
  /-- A token. -/
  | token (t : Token)
  /-- A token, if there is one. -/
  | maybe (t : Option Token)
  /-- Yes or no. -/
  | verdict (b : Bool)
  /-- A position. -/
  | position (n : Nat)
  /-- A mark. -/
  | mark (m : CursorMark)
  /-- All tokens. -/
  | row (tokens : Array Token)
  /-- Nothing. -/
  | done
deriving DecidableEq, Repr

namespace CursorAction

/-- Whether a reader that holds these marks may ask for this: it comes back to one of them only. -/
def IsPermitted (held : List CursorMark) : CursorAction → Prop
  | .rollback m => m ∈ held
  | _ => True

/-- The marks that the reader holds afterwards. -/
def holding (c : Cursor) (held : List CursorMark) : CursorAction → List CursorMark
  | .mark => c.mark :: held
  | _ => held

end CursorAction

namespace Cursor

/-- What the cursor tells. -/
def answer (c : Cursor) : CursorAction → CursorAnswer
  | .advance => .token c.current
  | .mark => .mark c.mark
  | .rollback _ => .done
  | .current => .token c.current
  | .peek n => .token (c.peek n)
  | .previous => .maybe c.previous?
  | .atEnd => .verdict c.atEnd
  | .position => .position c.position
  | .strayAfterEnd => .maybe c.strayAfterEnd?
  | .tokens => .row c.tokens

/-- Where the cursor is afterwards. -/
def after (c : Cursor) : CursorAction → Cursor
  | .advance => c.advance
  | .rollback m => c.rollback m
  | _ => c

/-- What the cursor tells in a whole session. -/
def answers (c : Cursor) : List CursorAction → List CursorAnswer
  | [] => []
  | action :: later => c.answer action :: (c.after action).answers later

/-- Where the cursor is after a session. -/
def afterAll (c : Cursor) (actions : List CursorAction) : Cursor := actions.foldl after c

/-- Whether a reader that holds these marks may go through the session: whenever it comes back to a
mark, it holds that mark already or has taken it in the session. -/
def Permits (c : Cursor) (held : List CursorMark) : List CursorAction → Prop
  | [] => True
  | action :: later =>
    action.IsPermitted held ∧ (c.after action).Permits (action.holding c held) later

variable {c : Cursor} {held : List CursorMark}

theorem permits_of_append {earlier later : List CursorAction}
    (permitted : c.Permits held (earlier ++ later)) : c.Permits held earlier := by
  induction earlier generalizing c held with
  | nil => exact trivial
  | cons action earlier ih => exact ⟨permitted.1, ih permitted.2⟩

end Cursor

/-! ## Bare indices -/

/-- A row of tokens and an index into it, with nothing said about either. -/
structure BareCursor where
  /-- All tokens. -/
  tokens : Array Token
  /-- The index of the token under the cursor. -/
  position : Nat
deriving DecidableEq, Repr

namespace BareCursor

/-- What a bare index tells and where it is afterwards, if no token beside the row has to be read.
It stops at an end, and it looks no further ahead than at the last token; other than that it goes
wherever it is told to go. -/
def serve (b : BareCursor) : CursorAction → Option (CursorAnswer × BareCursor)
  | .advance =>
    b.tokens[b.position]?.map fun t =>
      (.token t, if t.isEnd then b else { b with position := b.position + 1 })
  | .mark => some (.mark ⟨b.position⟩, b)
  | .rollback m => some (.done, { b with position := m.position })
  | .current => b.tokens[b.position]?.map fun t => (.token t, b)
  | .peek n =>
    b.tokens[min (b.position + n) (b.tokens.size - 1)]?.map fun t => (.token t, b)
  | .previous =>
    if b.position = 0 then some (.maybe none, b)
    else b.tokens[b.position - 1]?.map fun t => (.maybe (some t), b)
  | .atEnd => b.tokens[b.position]?.map fun t => (.verdict t.isEnd, b)
  | .position => some (.position b.position, b)
  | .strayAfterEnd =>
    some (.maybe ((b.tokens.findIdx? Token.isEnd).bind fun first => b.tokens[first + 1]?), b)
  | .tokens => some (.row b.tokens, b)

/-- What a bare index tells in a whole session and where it is then, if no token beside the row has
to be read. -/
def serveAll (b : BareCursor) : List CursorAction → Option (List CursorAnswer × BareCursor)
  | [] => some ([], b)
  | action :: later =>
    (b.serve action).bind fun (told, next) =>
      (next.serveAll later).map fun (rest, final) => (told :: rest, final)

end BareCursor

namespace Cursor

variable {start c d : Cursor} {held : List CursorMark} {action : CursorAction}

/-- The row and the position of a cursor. -/
def bare (c : Cursor) : BareCursor := ⟨c.tokens, c.position⟩

/-! ## One action -/

/-- Every mark was taken at a place that the session has come through. -/
def Holds (start : Cursor) (held : List CursorMark) : Prop :=
  ∀ m ∈ held, ∃ d, start.Passes d ∧ m = d.mark

theorem getElem?_current (c : Cursor) : c.tokens[c.position]? = some c.current :=
  Array.getElem?_eq_getElem c.inBounds

/-- Coming back to a mark is coming back to the cursor that took it. -/
theorem rollback_mark (same : d.tokens = c.tokens) : c.rollback d.mark = d := by
  have inBounds : d.mark.position < c.tokens.size := by
    have inBounds := d.inBounds
    rwa [same] at inBounds
  unfold rollback
  rw [dif_pos inBounds]
  exact ext_position same.symm rfl

theorem passes_after (came : start.Passes c) (holds : start.Holds held)
    (permitted : action.IsPermitted held) : start.Passes (c.after action) := by
  cases action with
  | advance => exact came.trans c.passes_advance
  | rollback m =>
    obtain ⟨d, passed, rfl⟩ := holds m permitted
    show start.Passes (c.rollback d.mark)
    rwa [rollback_mark (passed.tokens.trans came.tokens.symm)]
  | _ => exact came

theorem holds_holding (came : start.Passes c) (holds : start.Holds held) :
    start.Holds (action.holding c held) := by
  cases action with
  | mark =>
    intro m taken
    rcases List.mem_cons.mp taken with rfl | before
    · exact ⟨c, came, rfl⟩
    · exact holds m before
  | _ => exact holds

/-- Whatever a reader may ask for, the bare index reads inside the row, tells the same as the cursor
and ends up in the same place. -/
theorem serve_bare (came : start.Passes c) (holds : start.Holds held)
    (permitted : action.IsPermitted held) :
    c.bare.serve action = some (c.answer action, (c.after action).bare) := by
  have here := c.getElem?_current
  have inBounds := c.inBounds
  cases action with
  | advance =>
    show (c.tokens[c.position]?).map _ = some (CursorAnswer.token c.current, c.advance.bare)
    rw [here, Option.map_some]
    by_cases ends : c.current.isEnd = true
    · rw [if_pos ends, advance_of_atEnd ends]
    · rw [if_neg ends, advance_of_not_atEnd (by simpa using ends)]
      rfl
  | rollback m =>
    obtain ⟨d, passed, rfl⟩ := holds m permitted
    have same : d.tokens = c.tokens := passed.tokens.trans came.tokens.symm
    show some (CursorAnswer.done, (⟨c.tokens, d.position⟩ : BareCursor)) =
      some (CursorAnswer.done, (c.rollback d.mark).bare)
    rw [rollback_mark same, ← same]
    rfl
  | current =>
    show (c.tokens[c.position]?).map _ = some (CursorAnswer.token c.current, c.bare)
    rw [here]
    rfl
  | peek n =>
    have inside : min (c.position + n) (c.tokens.size - 1) < c.tokens.size := by omega
    show (c.tokens[min (c.position + n) (c.tokens.size - 1)]?).map _ =
      some (CursorAnswer.token (c.peek n), c.bare)
    rw [Array.getElem?_eq_getElem inside]
    rfl
  | previous =>
    show (if c.position = 0 then _ else _) = some (CursorAnswer.maybe c.previous?, c.bare)
    unfold previous?
    by_cases first : c.position = 0
    · rw [if_pos first, if_pos first]
    · have inside : c.position - 1 < c.tokens.size := by omega
      rw [if_neg first, if_neg first]
      show (c.tokens[c.position - 1]?).map _ = _
      rw [Array.getElem?_eq_getElem inside]
      rfl
  | atEnd =>
    show (c.tokens[c.position]?).map _ = some (CursorAnswer.verdict c.atEnd, c.bare)
    rw [here]
    rfl
  | strayAfterEnd =>
    show some (CursorAnswer.maybe ((c.tokens.findIdx? Token.isEnd).bind _), c.bare) =
      some (CursorAnswer.maybe c.strayAfterEnd?, c.bare)
    unfold strayAfterEnd?
    cases c.tokens.findIdx? Token.isEnd <;> rfl
  | mark => rfl
  | position => rfl
  | tokens => rfl

/-! ## Whole sessions -/

theorem passes_afterAll {actions : List CursorAction} (came : start.Passes c)
    (holds : start.Holds held) (permitted : c.Permits held actions) :
    start.Passes (c.afterAll actions) := by
  induction actions generalizing c held with
  | nil => exact came
  | cons action later ih =>
    exact ih (passes_after came holds permitted.1) (holds_holding came holds) permitted.2

theorem serveAll_bare {actions : List CursorAction} (came : start.Passes c)
    (holds : start.Holds held) (permitted : c.Permits held actions) :
    c.bare.serveAll actions = some (c.answers actions, (c.afterAll actions).bare) := by
  induction actions generalizing c held with
  | nil => rfl
  | cons action later ih =>
    have rest := ih (passes_after came holds permitted.1) (holds_holding came holds) permitted.2
    show (c.bare.serve action).bind _ = _
    rw [serve_bare came holds permitted.1, Option.bind_some]
    show ((c.after action).bare.serveAll later).map _ = _
    rw [rest]
    rfl

/-- A cursor that has not passed an end is not behind the first end of its row. -/
theorem first_end_of_passes {tokens : List Token} (came : (ofTokens tokens).Passes c) :
    ∃ first, c.tokens.findIdx? Token.isEnd = some first ∧ c.position ≤ first := by
  have inBounds := c.inBounds
  cases found : c.tokens.findIdx? Token.isEnd with
  | none =>
    have last := Array.findIdx?_eq_none_iff.mp found _
      (Array.getElem_mem (show c.tokens.size - 1 < c.tokens.size by omega))
    rw [c.endsRow] at last
    cases last
  | some first =>
    obtain ⟨inside, isEnd, _⟩ := Array.findIdx?_eq_some_iff_getElem.mp found
    refine ⟨first, rfl, Nat.le_of_not_lt fun beyond => ?_⟩
    have here : (ofTokens tokens).tokens[first]? = some c.tokens[first] := by
      rw [← came.tokens]
      exact Array.getElem?_eq_getElem inside
    have := came.inside first _ (Nat.zero_le first) beyond here
    rw [isEnd] at this
    cases this

/-- Where nothing stands behind the first end, looking ahead is the same as moving on. -/
theorem peek_eq_current_advances (stray : c.strayAfterEnd? = none) (n : Nat) :
    c.peek n = (c.advances n).current := by
  induction n generalizing c with
  | zero => exact c.peek_zero
  | succ n ih =>
    by_cases ends : c.current.isEnd = true
    · -- The cursor is on the last token, which is as far as it sees and as far as it moves.
      have last := last_of_atEnd stray (.refl c) ends
      have place : min (c.position + (n + 1)) (c.tokens.size - 1) =
          min (c.position + n) (c.tokens.size - 1) := by
        omega
      have same : c.peek (n + 1) = c.peek n := by simp only [peek, place]
      show c.peek (n + 1) = (c.advance.advances n).current
      rw [same, advance_of_atEnd ends, ih stray]
    · have inside : c.current.isEnd = false := by simpa using ends
      have stray' : c.advance.strayAfterEnd? = none := by
        unfold strayAfterEnd?
        rw [c.advance_tokens]
        exact stray
      rw [peek_succ inside, ih stray']
      rfl

end Cursor

/-- What a session with a cursor on a row of tokens is like. -/
structure CursorKeeps (tokens : List Token) (actions : List CursorAction) : Prop where
  /-- The row ends with an end. -/
  endsRow : ∃ last, ((Cursor.ofTokens tokens).afterAll actions).tokens.back? = some last ∧
    last.isEnd = true
  /-- The cursor is not behind the first end of its row. -/
  beforeEnd : ∃ first,
    ((Cursor.ofTokens tokens).afterAll actions).tokens.findIdx? Token.isEnd = some first ∧
      ((Cursor.ofTokens tokens).afterAll actions).position ≤ first
  /-- A bare index tells the same without ever reading beside the row. -/
  readsInside : BareCursor.serveAll ⟨(Cursor.withEnd tokens).toArray, 0⟩ actions =
    some ((Cursor.ofTokens tokens).answers actions,
      ((Cursor.ofTokens tokens).afterAll actions).bare)
  /-- Back at a mark, everything is told as it would have been told when the mark was taken. -/
  comesBack : ∀ earlier between, actions = earlier ++ .mark :: between → ∀ later,
    (((Cursor.ofTokens tokens).afterAll actions).after
        (.rollback ((Cursor.ofTokens tokens).afterAll earlier).mark)).answers later =
      ((Cursor.ofTokens tokens).afterAll earlier).answers later
  /-- If nothing stands behind the first end, looking ahead tells where moving on leads. -/
  looksAhead : (Cursor.ofTokens tokens).strayAfterEnd? = none → ∀ n,
    ((Cursor.ofTokens tokens).afterAll actions).peek n =
      (((Cursor.ofTokens tokens).afterAll actions).advances n).current
  /-- If something does, the row is refused as a program. -/
  refused : ∀ t, (Cursor.ofTokens tokens).strayAfterEnd? = some t →
    parse tokens = .error (.unexpected t.span ["end of token stream"] t.kind)

/-- Every session that comes back to its own marks only reads inside the row, stays before the first
end, and finds everything as it was when it comes back. -/
theorem cursorKeeps_of_permits {tokens : List Token} {actions : List CursorAction}
    (permitted : (Cursor.ofTokens tokens).Permits [] actions) : CursorKeeps tokens actions := by
  have none_held : (Cursor.ofTokens tokens).Holds [] := fun m taken => nomatch taken
  have came : (Cursor.ofTokens tokens).Passes ((Cursor.ofTokens tokens).afterAll actions) :=
    Cursor.passes_afterAll (.refl _) none_held permitted
  constructor
  · have ends := ((Cursor.ofTokens tokens).afterAll actions).endsRow
    refine ⟨_, ?_, ends⟩
    rw [Array.back?_eq_getElem?]
    exact Array.getElem?_eq_getElem _
  · exact Cursor.first_end_of_passes came
  · exact Cursor.serveAll_bare (.refl _) none_held permitted
  · intro earlier between split later
    rw [split] at permitted
    have marked := Cursor.passes_afterAll (.refl _) none_held (Cursor.permits_of_append permitted)
    rw [show ∀ c d : Cursor, c.after (.rollback d.mark) = c.rollback d.mark from fun _ _ => rfl,
      Cursor.rollback_mark (marked.tokens.trans came.tokens.symm)]
  · intro stray n
    refine Cursor.peek_eq_current_advances ?_ n
    unfold Cursor.strayAfterEnd?
    rw [came.tokens]
    exact stray
  · intro t stray
    unfold parse parseWithin parseWith
    simp only [stray]

/-- A reader that goes two names ahead and comes back. -/
theorem cursorKeeps_twoNames :
    (Cursor.ofTokens [.plain (.name "a") ⟨0, 1⟩, .plain (.name "b") ⟨2, 3⟩]).Permits []
        [.advance, .mark, .advance, .atEnd, .rollback ⟨1⟩, .previous, .peek 5] ∧
      CursorKeeps [.plain (.name "a") ⟨0, 1⟩, .plain (.name "b") ⟨2, 3⟩]
        [.advance, .mark, .advance, .atEnd, .rollback ⟨1⟩, .previous, .peek 5] := by
  have permitted : (Cursor.ofTokens
      [.plain (.name "a") ⟨0, 1⟩, .plain (.name "b") ⟨2, 3⟩]).Permits []
        [.advance, .mark, .advance, .atEnd, .rollback ⟨1⟩, .previous, .peek 5] :=
    ⟨trivial, trivial, trivial, trivial, List.mem_singleton.mpr rfl, trivial, trivial, trivial⟩
  exact ⟨permitted, cursorKeeps_of_permits permitted⟩

end Apex
