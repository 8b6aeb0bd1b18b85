import Apex.Proofs.Echo.Lookahead

/-!
# Reading types again

A type is read again from any row in which its forms stand.
-/

namespace Apex.Grammar

open Apex.Parser

variable {argument : Parser TypeRef}

/-- What a type without array brackets stands for. -/
def nameForms (t : TypeRef) : List Form :=
  Form.dotted Form.ident t.segments ++ Form.angled (t.arguments.map TypeRef.forms)

theorem forms_eq_nameForms (t : TypeRef) :
    t.forms = nameForms t ++ Form.brackets t.dimensions := by
  obtain ⟨_, segments, arguments, dimensions⟩ := t
  simp [TypeRef.forms, nameForms]

theorem segmentStep_echoes {s t : List Ident} {c : Cursor}
    (same : s.map (Ident.blur .erasing) = t.map (Ident.blur .erasing)) :
    EchoesAt .loose .loose (behindPoints .ident s.reverse) c (segmentStep s) (segmentStep t)
      (Turn.forms (fun parts => behindPoints .ident parts.reverse) (behindPoints .ident))
      (Turn.map (List.map (Ident.blur .erasing)) (List.map (Ident.blur .erasing))) := by
  refine .pair TokenKind.isName (fun meets => meets.segmentAhead_iff) fun {a k} found => ?_
  rw [found]
  by_cases ahead : SegmentAhead c
  · rw [if_pos (by simpa using ahead), if_pos (by simpa using ahead)]
    refine .token ahead.1 (by simp) (by simp) ?_
    refine .bind ((identifier_echoes _).begin _) fun {x y _} samex => ?_
    refine .pure (by simp [Turn.forms, behindPoints]) ?_
    simp only [Turn.map, List.map_cons, same, samex]
  · rw [if_neg (by simpa using ahead), if_neg (by simpa using ahead)]
    refine .pure rfl ?_
    simp only [Turn.map, List.map_reverse, same]

theorem typeSegments_echoes :
    Echoes .tight .loose typeSegments (Form.dotted .ident) (List.map (Ident.blur .erasing)) := by
  intro c
  refine .bind (identifier_echoes c) fun {x y c₁} same => ?_
  have loop : EchoesAt .loose .loose (behindPoints .ident [x]) c₁ (Parser.iterate segmentStep [x])
      (Parser.iterate segmentStep [y]) (behindPoints .ident) (List.map (Ident.blur .erasing)) := by
    refine .iterate (fun parts => behindPoints .ident parts.reverse) (List.map (Ident.blur .erasing))
      (s := [x]) (t := [y]) segmentStep_echoes ?_ (by simp [same])
    intro s c s' c₁ sound run
    rcases segmentStep_ok.mp run with ⟨⟨dot, _⟩, x, _, run, turn⟩ | ⟨_, turn⟩
    · cases turn
      exact (before_of_kind dot (by simp)).trans (identifier_before run)
    · cases turn
  -- The first part has no point before it.
  intro sound parts c' run
  obtain ⟨F, all, rest⟩ := loop sound run
  have collected := items_of_iterates SegmentItem (fun c => ¬SegmentAhead c) List.reverse ?_
    (iterates_of_iterate run)
  · obtain ⟨more, _, _, rfl⟩ := collected
    exact ⟨F, by simpa [behindPoints, Form.dotted] using all, rest⟩
  · intro segments c turn c₁ run
    rcases segmentStep_ok.mp run with ⟨⟨dot, ahead⟩, x, _, run, turn⟩ | ⟨other, run⟩
    · cases turn
      exact .inl ⟨x, rfl, dot, ahead, run⟩
    · cases run
      exact .inr ⟨rfl, rfl, other⟩

theorem typeArguments_echoes
    (h : Echoes .tight .loose argument TypeRef.forms (TypeRef.blur .erasing)) :
    Echoes .loose .loose (typeArguments argument) (fun ts => Form.angled (ts.map TypeRef.forms))
      (List.map (TypeRef.blur .erasing)) := by
  intro c
  refine .accept rfl rfl (by simp) (by simp) (fun _ => ?_) (fun _ => .pure rfl rfl)
  -- Behind the bracket there are arguments, so that the forms are those of a bracketed list.
  have closed : EchoesAt .loose .loose ([] ++ [.sign .less]) c.advance
      (commaSeparated argument >>= fun arguments => do
        if ← accept (.operator .greater) then return arguments
        fail [(TokenKind.operator .greater).description,
          (TokenKind.punctuation .comma).description])
      (commaSeparated argument >>= fun arguments => do
        if ← accept (.operator .greater) then return arguments
        fail [(TokenKind.operator .greater).description,
          (TokenKind.punctuation .comma).description])
      (fun ts => .sign .less :: (Form.commas (ts.map TypeRef.forms) ++ [.sign .greater]))
      (List.map (TypeRef.blur .erasing)) := by
    refine .bind (EchoesAt.begin (.commaSeparated (h _)) _) fun {ts us c₁} same => ?_
    exact .accept rfl rfl (by simp) (by simp) (fun _ => .pure (by simp) same) (fun _ => .fail)
  refine closed.reform fun {ts c'} run => ?_
  obtain ⟨types, _, list, run⟩ := bind_ok.mp run
  obtain ⟨_, _, first, row⟩ := bind_ok.mp list
  obtain ⟨more, rfl, _⟩ := commaSeparatedFrom_items row
  rcases accept_bind_ok.mp run with ⟨_, run⟩ | ⟨_, run⟩
  · cases pure_ok.mp run
    simp [Form.angled]
  · cases fail_ok.mp run

theorem brackets_succ (n : Nat) :
    Form.brackets (n + 1) = Form.brackets n ++ [.mark .openBracket, .mark .closeBracket] := by
  simp [Form.brackets, List.replicate_succ']

theorem arrayBrackets_echoes : Echoes .loose .loose arrayBrackets Form.brackets id := by
  intro c
  refine .iterate Form.brackets id (s := 0) (fun {n m c} same => ?_) (fun {n c n' c₁} _ run => ?_) rfl
  · obtain rfl : n = m := same
    refine .pair (fun k => decide (k = .punctuation .closeBracket))
      (fun meets => by simpa using meets.bracketsAhead_iff) fun {a k} found => ?_
    rw [found]
    by_cases ahead : BracketsAhead c
    · rw [if_pos (by simpa using ahead)]
      obtain ⟨opens, closes⟩ := ahead
      rw [Cursor.peek_one (isEnd_of_kind opens (by simp))] at closes
      refine .token opens (by simp) (by simp) (.token closes (by simp) (by simp) (.pure ?_ rfl))
      simp [Turn.forms, brackets_succ]
    · rw [if_neg (by simpa using ahead)]
      exact .pure rfl rfl
  · rcases bracketsStep_ok.mp run with ⟨⟨opens, _⟩, turn⟩ | ⟨_, turn⟩
    · cases turn
      exact (before_of_kind opens (by simp)).trans_upto (Cursor.upto_advance _)
    · cases turn

theorem elementType_echoes
    (h : Echoes .tight .loose argument TypeRef.forms (TypeRef.blur .erasing)) :
    Echoes .tight .loose (elementType argument) nameForms (TypeRef.blur .erasing) := by
  intro c
  refine .here fun {s t} => .bind (typeSegments_echoes c) fun {segments segments' c₁} same => ?_
  refine .bind (typeArguments_echoes h c₁) fun {ts us c₂} same' => ?_
  refine .spanFrom fun {s t} => .pure rfl ?_
  simp only [TypeRef.blur, TypeRef.blurAll_eq_map, Blur.erasing_span, same, same']

theorem typeRef_echoes
    (h : Echoes .tight .loose argument TypeRef.forms (TypeRef.blur .erasing)) :
    Echoes .tight .loose (typeRef argument) TypeRef.forms (TypeRef.blur .erasing) := by
  intro c
  refine .here fun {s t} => .bind (elementType_echoes h c) fun {x y c₁} same => ?_
  refine .bind (arrayBrackets_echoes c₁) fun {n m c₂} count => ?_
  obtain rfl : n = m := count
  refine .spanFrom fun {s t} => .pure (by simp [forms_eq_nameForms, nameForms]) ?_
  obtain ⟨_, segments, arguments, _⟩ := x
  obtain ⟨_, segments', arguments', _⟩ := y
  simp only [TypeRef.blur, TypeRef.mk.injEq] at same ⊢
  exact ⟨rfl, same.2.1, same.2.2.1, trivial⟩

/-- The type behind `new` has no array brackets of its own. -/
theorem elementType_forms {t : TypeRef} {c c' : Cursor} (h : elementType argument c = .ok (t, c')) :
    nameForms t = t.forms := by
  obtain ⟨segments, c₁, types, c₂, _, _, done⟩ := elementType_ok.mp h
  cases done
  simp [forms_eq_nameForms, nameForms, Form.brackets]

end Apex.Grammar
