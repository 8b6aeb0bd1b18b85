import Apex.Scan.Collect

/-!
# Names

A name that is text is made of the bytes of this text, and is shown as it. Which directories are
searched is said of the bytes of their names: they are not those of installed packages, and there is
no dot in front. Only where the name is no text, a dot is not seen.
-/

namespace Apex

namespace RawText

variable {r : RawText} {text : String}

theorem toByteArray_bytes_ofString (text : String) :
    (ofString text).bytes.toByteArray = text.toByteArray :=
  String.utf8Encode_toList

theorem text?_eq_some_iff : r.text? = some text ↔ r = ofString text := by
  have bytes : r.bytes.toByteArray = text.toByteArray ↔ r = ofString text := by
    rw [← toByteArray_bytes_ofString, List.toByteArray_inj, RawText.mk.injEq]
  rw [← bytes, text?, String.fromUTF8?]
  split
  · rw [Option.some.injEq, ← String.toByteArray_inj]
    rfl
  · next broken =>
    refine iff_of_false nofun fun same => broken ?_
    exact same ▸ text.isValidUTF8

@[simp]
theorem text?_ofString (text : String) : (ofString text).text? = some text :=
  text?_eq_some_iff.mpr rfl

theorem ofString_injective : Function.Injective ofString := by
  intro text other same
  rw [← Option.some.injEq, ← text?_ofString, same, text?_ofString]

/-! ## Showing text -/

/-- Bytes that belong to what has been shown are passed. -/
theorem shownFrom_append (passed rest : List UInt8) :
    shownFrom passed.length (passed ++ rest) = shownFrom 0 rest := by
  induction passed with
  | nil => rfl
  | cons b passed ih => rw [List.length_cons, List.cons_append, shownFrom, ih]

/-- A character is shown as itself, with anything behind it. -/
theorem shownFrom_utf8EncodeChar (c : Char) (rest : List UInt8) :
    shownFrom 0 (String.utf8EncodeChar c ++ rest) = c :: shownFrom 0 rest := by
  obtain ⟨b, bytes, encoded⟩ := List.exists_cons_of_ne_nil (@String.utf8EncodeChar_ne_nil c)
  have size : bytes.length + 1 = c.utf8Size := by
    rw [← String.length_utf8EncodeChar, encoded, List.length_cons]
  have few : bytes.length ≤ 3 := by
    have := c.utf8Size_le_four
    omega
  have decoded : (b :: (bytes ++ rest).take 3).toByteArray.utf8DecodeChar? 0 = some c := by
    rw [List.take_append, List.take_of_length_le few, ← List.cons_append, ← encoded,
      List.toByteArray_append, ByteArray.utf8DecodeChar?_utf8EncodeChar_append]
  rw [encoded, List.cons_append, shownFrom, decoded]
  dsimp only
  rw [← size, Nat.add_sub_cancel, shownFrom_append]

/-- Text is shown as it is. -/
@[simp]
theorem shown_ofString (text : String) : (ofString text).shown = text := by
  have shows (cs : List Char) : shownFrom 0 (cs.flatMap String.utf8EncodeChar) = cs := by
    induction cs with
    | nil => rfl
    | cons c cs ih => rw [List.flatMap_cons, shownFrom_utf8EncodeChar, ih]
  rw [shown, ofString, shows, String.ofList_toList]

/-- A character that is cut off is shown as one mark, and so is a byte that begins none. -/
example : shown ⟨[0x41, 0xE2, 0x82, 0xFF, 0x42]⟩ = "A\uFFFD\uFFFDB" := by decide +kernel

/-- A text begins with a dot exactly if its bytes do. -/
theorem head?_bytes_ofString :
    (ofString text).bytes.head? = some dot ↔ text.toList.head? = some '.' := by
  rw [ofString]
  cases text.toList with
  | nil => exact iff_of_false nofun nofun
  | cons c cs =>
    rw [List.flatMap_cons, List.head?_cons, Option.some.injEq]
    constructor
    · intro first
      obtain ⟨b, bytes, encoded⟩ := List.exists_cons_of_ne_nil (@String.utf8EncodeChar_ne_nil c)
      rw [encoded, List.cons_append, List.head?_cons, Option.some.injEq] at first
      -- the byte of a dot is read as a dot, whatever is behind it
      have read :
          (String.utf8EncodeChar '.' ++ bytes).toByteArray.utf8DecodeChar? 0 = some '.' := by
        rw [List.toByteArray_append, ByteArray.utf8DecodeChar?_utf8EncodeChar_append]
      have same : String.utf8EncodeChar '.' ++ bytes = String.utf8EncodeChar c ++ [] := by
        rw [encoded, first, List.append_nil]
        rfl
      rw [same, List.toByteArray_append, ByteArray.utf8DecodeChar?_utf8EncodeChar_append] at read
      exact Option.some.inj read
    · rintro rfl
      rfl

end RawText

/-! ## Directories that are searched -/

/-- Names of directories that are always searched. -/
def IsOpen (name : RawText) : Prop := name.bytes.head? ≠ some dot ∧ name ≠ "node_modules"

/-- Names of directories that are searched: the dot in front counts only if the name is text. -/
def IsSearched (name : RawText) : Prop :=
  (name.bytes.head? = some dot → name.text? = none) ∧ name ≠ "node_modules"

theorem IsOpen.isSearched {name : RawText} (h : IsOpen name) : IsSearched name :=
  ⟨fun hidden => absurd hidden h.1, h.2⟩

theorem isPassedOver_eq_false_iff {name : RawText} :
    isPassedOver name = false ↔ IsSearched name := by
  unfold isPassedOver IsSearched
  cases read : name.text? with
  | none =>
    have other : name ≠ "node_modules" := by
      rintro rfl
      rw [RawText.text?_ofString] at read
      cases read
    exact iff_of_true rfl ⟨fun _ => rfl, other⟩
  | some text =>
    obtain rfl := RawText.text?_eq_some_iff.mp read
    simp [RawText.head?_bytes_ofString, RawText.ofString_injective.eq_iff]

end Apex
