import Apex.Proofs.Tiling.Places

/-!
# Reading up to a place

A text is read lexeme by lexeme, so reading it to its end is reading it up to a place and going on
from there. Each token is reached in this way, with the tokens before it read by then.
-/

namespace Apex

/-- The state after the lexeme that starts with `c` and is followed by `cs`. -/
def Lexing.next (l : Lexing) (c : Char) (cs : List Char) : Lexing :=
  l.add (Lexeme.read l.offset c cs).content (Lexeme.spanAt l.offset c cs).stop

/-- Lexeme after lexeme, a text with `rest` behind it is read from one state to another. No lexeme
reaches into `rest`. -/
inductive Reaches (rest : List Char) : Lexing → List Char → Lexing → Prop
  | refl (l : Lexing) : Reaches rest l [] l
  | step {l l' : Lexing} {c : Char} {cs : List Char}
    (within : (Lexeme.read l.offset c (cs ++ rest)).more ≤ cs.length)
    (later : Reaches rest (l.next c (cs ++ rest))
      (cs.drop (Lexeme.read l.offset c (cs ++ rest)).more) l') : Reaches rest l (c :: cs) l'

namespace Reaches

variable {rest text : List Char} {l l' : Lexing}

theorem lexFrom (h : Reaches rest l text l') :
    Apex.lexFrom l 0 (text ++ rest) = Apex.lexFrom l' 0 rest := by
  induction h with
  | refl l => rfl
  | step within later ih =>
    rw [List.cons_append, lexFrom_cons, ← ih, List.drop_append_of_le_length within]
    rfl

/-- One more lexeme in front of what is read. -/
theorem cons {c d : Char} {cs : List Char}
    (behind : cs.drop (Lexeme.read l.offset c cs).more = text ++ d :: rest)
    (later : Reaches (d :: rest) (l.next c cs) text l') :
    ∃ text', c :: cs = text' ++ d :: rest ∧ Reaches (d :: rest) l text' l' ∧
      byteSize text' + l.offset = (Lexeme.spanAt l.offset c cs).stop + byteSize text := by
  have whole : cs = cs.take (Lexeme.read l.offset c cs).more ++ text ++ d :: rest := by
    rw [List.append_assoc, ← behind, List.take_append_drop]
  have long : (cs.take (Lexeme.read l.offset c cs).more).length = (Lexeme.read l.offset c cs).more := by
    refine List.length_take_of_le (Nat.le_of_not_lt fun short => ?_)
    rw [List.drop_of_length_le (by omega)] at behind
    exact absurd behind (by simp)
  refine ⟨c :: (cs.take (Lexeme.read l.offset c cs).more ++ text), ?_, .step ?_ ?_, ?_⟩
  · rw [List.cons_append, ← whole]
  · rw [← whole, List.length_append, long]
    exact Nat.le_add_right _ _
  · rw [← whole, List.drop_left' long]
    exact later
  · rw [Lexeme.spanAt, ← List.cons_append, byteSize_append]
    dsimp only
    omega

end Reaches

/-- What is read adds tokens to those that have been read. -/
theorem exists_tokens_lexFrom (l : Lexing) (cs : List Char) :
    ∃ tokens, (lexFrom l 0 cs).tokens.reverse = l.tokens.reverse ++ tokens := by
  rw [lexFrom_eq, Lexing.behind]
  exact ⟨_, List.reverse_append⟩

/-- Each token that is read is reached, with the tokens before it read by then. -/
theorem exists_reaches {l : Lexing} {cs : List Char} (clean : (lexFrom l 0 cs).errors = [])
    (front : List Token) {back : List Token} {t : Token}
    (tokens : (lexFrom l 0 cs).tokens.reverse = l.tokens.reverse ++ (front ++ t :: back)) :
    ∃ text c rest, cs = text ++ c :: rest ∧ ∃ l', Reaches (c :: rest) l text l' ∧
      l'.tokens = front.reverse ++ l.tokens ∧ l'.offset = l.offset + byteSize text ∧
      (Lexeme.read l'.offset c rest).content.token? (Lexeme.spanAt l'.offset c rest) = some t := by
  induction length : cs.length using Nat.strong_induction_on generalizing l cs front with
  | _ n ih =>
  subst length
  rcases cs with _ | ⟨c, cs⟩
  · have none := List.self_eq_append_right.mp tokens
    exact absurd none (by simp)
  rw [lexFrom_cons] at clean tokens
  have shorter : (cs.drop (Lexeme.read l.offset c cs).more).length < (c :: cs).length := by
    rw [List.length_drop, List.length_cons]
    omega
  cases bears : (Lexeme.read l.offset c cs).content.token? (Lexeme.spanAt l.offset c cs) with
  | some t' =>
    have next : l.next c cs = ⟨t' :: l.tokens, l.errors, (Lexeme.spanAt l.offset c cs).stop⟩ :=
      Lexing.add_token bears
    change (lexFrom (l.next c cs) 0 _).tokens.reverse = _ at tokens
    change (lexFrom (l.next c cs) 0 _).errors = [] at clean
    obtain ⟨more, same⟩ := exists_tokens_lexFrom (l.next c cs)
      (cs.drop (Lexeme.read l.offset c cs).more)
    have first : front ++ t :: back = t' :: more := by
      rw [tokens, next, List.reverse_cons, List.append_assoc] at same
      exact List.append_cancel_left same
    cases front with
    | nil =>
      obtain ⟨rfl, -⟩ := List.cons.inj first
      exact ⟨[], c, cs, rfl, l, .refl l, rfl, rfl, bears⟩
    | cons t'' front =>
      obtain ⟨rfl, rfl⟩ := List.cons.inj first
      obtain ⟨text, d, rest, behind, l', later, tokens', offset, bears'⟩ :=
        ih _ shorter clean front same rfl
      obtain ⟨text', whole, reaches, size⟩ := later.cons behind
      refine ⟨text', d, rest, whole, l', reaches, ?_, ?_, bears'⟩
      · rw [tokens', next, List.reverse_cons, List.append_assoc]
        rfl
      · rw [offset, next]
        dsimp only
        omega
  | none =>
    rcases (Lexeme.isProper_read l.offset c cs).blank_or_faulty bears with blank | ⟨e, errors, faulty⟩
    · have next : l.next c cs = ⟨l.tokens, l.errors, (Lexeme.spanAt l.offset c cs).stop⟩ := by
        rw [Lexing.next, blank]
        rfl
      change (lexFrom (l.next c cs) 0 _).tokens.reverse = _ at tokens
      change (lexFrom (l.next c cs) 0 _).errors = [] at clean
      obtain ⟨text, d, rest, behind, l', later, tokens', offset, bears'⟩ :=
        ih _ shorter clean front (by rw [tokens, next]) rfl
      obtain ⟨text', whole, reaches, size⟩ := later.cons behind
      refine ⟨text', d, rest, whole, l', reaches, by rw [tokens', next], ?_, bears'⟩
      rw [offset, next]
      dsimp only
      omega
    · rw [faulty] at clean
      refine absurd clean (errors_lexFrom ?_ _ _)
      rw [Lexing.errors_add_faulty, List.reverse_cons, List.append_assoc]
      exact List.append_ne_nil_of_right_ne_nil _ nofun

namespace Reaches

variable {rest text : List Char} {l l' : Lexing}

/-- Faults are not forgotten. -/
theorem errors (h : Reaches rest l text l') (clean : l'.errors = []) : l.errors = [] := by
  induction h with
  | refl l => exact clean
  | @step l l' c cs within later ih =>
    have next := ih clean
    unfold Lexing.next at next
    cases found : (Lexeme.read l.offset c (cs ++ rest)).content with
    | blank | token | keyword =>
      rw [found] at next
      exact next
    | faulty errors =>
      rw [found, Lexing.errors_add_faulty] at next
      exact (List.append_eq_nil_iff.mp next).2

/-- Where there are no faults in the end, no lexeme has one. -/
theorem step_clean {c : Char} {cs cs' : List Char}
    (later : Reaches rest (l.next c cs) cs' l') (clean : l'.errors = []) (errors : List LexError) :
    (Lexeme.read l.offset c cs).content ≠ .faulty errors := by
  intro found
  have next := later.errors clean
  unfold Lexing.next at next
  rw [found, Lexing.errors_add_faulty] at next
  have none := List.reverse_eq_nil_iff.mp (List.append_eq_nil_iff.mp next).1
  have proper := Lexeme.isProper_read l.offset c cs
  rw [found] at proper
  exact proper none

end Reaches

theorem Reaches.offset {rest text : List Char} {l l' : Lexing} (h : Reaches rest l text l') :
    l'.offset = l.offset + byteSize text := by
  induction h with
  | refl l => rfl
  | @step l l' c cs within later ih =>
    have next : (l.next c (cs ++ rest)).offset = (Lexeme.spanAt l.offset c (cs ++ rest)).stop := by
      unfold Lexing.next
      cases (Lexeme.read l.offset c (cs ++ rest)).content <;> rfl
    have split := congrArg byteSize
      (List.take_append_drop (Lexeme.read l.offset c (cs ++ rest)).more cs)
    rw [byteSize_append] at split
    rw [ih, next, Lexeme.spanAt, List.take_append_of_le_length within]
    simp only [byteSize_cons]
    omega

/-- The state after a lexeme depends on what the lexeme is and on its own characters. -/
theorem Lexing.next_congr {l : Lexing} {c : Char} {cs rest rest' : List Char}
    (same : Lexeme.read l.offset c (cs ++ rest') = Lexeme.read l.offset c (cs ++ rest))
    (within : (Lexeme.read l.offset c (cs ++ rest)).more ≤ cs.length) :
    l.next c (cs ++ rest') = l.next c (cs ++ rest) := by
  unfold next Lexeme.spanAt
  rw [same, List.take_append_of_le_length within, List.take_append_of_le_length within]

end Apex
