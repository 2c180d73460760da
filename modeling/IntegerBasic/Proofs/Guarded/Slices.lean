import IntegerBasic.Proofs.Guarded.Failure
import IntegerBasic.Proofs.LineCutting
import IntegerBasic.Text.Fragment
import IntegerBasic.Value

/-!
# Cutting texts by byte offsets

Where a text is cut can be told in bytes as well as in characters.  Not every byte offset is a place
where a text can be cut: in UTF-8, a character has up to four bytes.

**Definitions.**  `slice` is the text between two byte offsets, and crashes unless these are in
order and both on boundaries of characters.  `find?` looks for the bytes of a word, and `relations`
for relation signs; both give byte offsets.  `Spans text start stop f` says that the fragment is the
part of the text between the two offsets.

**Argument.**  The byte of a character that takes one byte is part of no other character.  So where
the bytes of a word of such characters occur in the bytes of a text, the word occurs in the text.

**Results.**
* `slice_eq_ok_iff`: when a slice does not crash, and what it is.
* `find?_eq`: to look for the bytes of a word is to look for the word.
* `Spans.slice_eq`: a fragment is the slice between its offsets.
* `Spans.trim`, `Spans.of_cutAt?`, `Spans.of_cutWhere?`: the offsets at which a fragment is cut.
-/

namespace IntegerBasic
namespace Guarded

/-- The text between two byte offsets. -/
def slice (text : String) (start stop : Nat) : Guarded String :=
  if h : start ≤ stop ∧ String.Pos.Raw.IsValid text ⟨start⟩ ∧ String.Pos.Raw.IsValid text ⟨stop⟩ then
    .ok (text.extract ⟨⟨start⟩, h.2.1⟩ ⟨⟨stop⟩, h.2.2⟩)
  else
    .error (.crash (.cut text start stop))

/-- The bytes of a text. -/
def bytes (text : String) : List UInt8 :=
  text.toByteArray.data.toList

/-- How many bytes stand before the first place where the word stands. -/
def offsetOf? (word : List UInt8) : List UInt8 → Option Nat
  | [] => if word = [] then some 0 else none
  | b :: bs =>
      if word.isPrefixOf (b :: bs) then some 0
      else (offsetOf? word bs).map fun i => i + 1

/-- The byte offset at which a word first occurs in a text. -/
def find? (word text : String) : Option Nat :=
  offsetOf? (bytes word) (bytes text)

/-- The characters of a text with their byte offsets, the first of which is `start`. -/
def charOffsets (start : Nat) : List Char → List (Nat × Char)
  | [] => []
  | c :: cs => (start, c) :: charOffsets (start + c.utf8Size) cs

/-- The relation signs of a text with their byte offsets, where the text starts at `start`. -/
def relations (start : Nat) (text : List Char) : List (Nat × Comparison) :=
  (charOffsets start text).filterMap fun (i, c) => (Comparison.ofChar? c).map fun r => (i, r)

/-- How many bytes characters take. -/
def byteLength (cs : List Char) : Nat :=
  (String.ofList cs).utf8ByteSize

section Lengths

@[simp] theorem byteLength_nil :
    byteLength [] = 0 := by
  rfl

@[simp] theorem byteLength_append
    (a b : List Char) :
    byteLength (a ++ b) = byteLength a + byteLength b := by
  rw [byteLength, String.ofList_append, String.utf8ByteSize_append]
  rfl

theorem byteLength_toList
    (text : String) :
    byteLength text.toList = text.utf8ByteSize := by
  rw [byteLength, String.ofList_toList]

theorem bytes_eq
    (text : String) :
    bytes text = text.toList.flatMap String.utf8EncodeChar := by
  rw [bytes, toArray_encode]

theorem length_encode
    (cs : List Char) :
    (cs.flatMap String.utf8EncodeChar).length = byteLength cs := by
  rw [byteLength, ← String.size_toByteArray, toArray_encode, String.toList_ofList]
  rfl

@[simp] theorem byteLength_cons
    (c : Char) (cs : List Char) :
    byteLength (c :: cs) = c.utf8Size + byteLength cs := by
  rw [← length_encode, List.flatMap_cons, List.length_append, String.length_utf8EncodeChar,
    length_encode]

/-- Where all characters take one byte, bytes are counted like characters. -/
theorem byteLength_of_small
    {cs : List Char}
    (h : ∀ c ∈ cs, c.utf8Size = 1) :
    byteLength cs = cs.length := by
  induction cs with
  | nil => rfl
  | cons c cs ih =>
      rw [List.forall_mem_cons] at h
      rw [byteLength_cons, h.1, ih h.2, List.length_cons, Nat.add_comm]

end Lengths

section Slice

variable {text before part after : String} {start stop : Nat}

/-- What stands between two positions is what has to be put between what is before the first and
what is after the second. -/
theorem extract_eq_of_splits
    {p q : text.Pos}
    (hp : p.Splits before (part ++ after)) (hq : q.Splits (before ++ part) after) :
    text.extract p q = part := by
  have hStart : p.offset.byteIdx = before.toByteArray.size + 0 := by
    rw [hp.offset_eq_rawEndPos]
    rfl
  have hStop : q.offset.byteIdx = before.toByteArray.size + part.toByteArray.size := by
    rw [hq.offset_eq_rawEndPos, String.byteIdx_rawEndPos, String.utf8ByteSize_append]
    rfl
  rw [← String.toByteArray_inj, String.toByteArray_extract, hStart, hStop, hp.eq_append,
    String.toByteArray_append, String.toByteArray_append, ByteArray.extract_append_size_add]
  exact ByteArray.extract_append_eq_left rfl

/-- A slice does not crash exactly if its offsets are in order, within the text and on boundaries of
characters, that is, if what is before it and what is after it are texts as well. -/
theorem slice_eq_ok_iff :
    slice text start stop = .ok part ↔
      ∃ before after, text = before ++ part ++ after ∧ before.utf8ByteSize = start ∧
        (before ++ part).utf8ByteSize = stop := by
  constructor
  · intro h
    rw [slice] at h
    split at h
    · next hBounds =>
        obtain ⟨hOrder, hStart, hStop⟩ := hBounds
        obtain ⟨before, rest, hText, hFirst⟩ := String.Pos.Raw.isValid_iff_exists_append.mp hStart
        obtain ⟨passed, after, hText', hSecond⟩ := String.Pos.Raw.isValid_iff_exists_append.mp hStop
        have hp : String.Pos.Splits (⟨⟨start⟩, hStart⟩ : text.Pos) before rest := ⟨hText, hFirst⟩
        have hq : String.Pos.Splits (⟨⟨stop⟩, hStop⟩ : text.Pos) passed after := ⟨hText', hSecond⟩
        obtain ⟨between, rfl, rfl⟩ := (hp.le_iff_exists_eq_append hq).mp hOrder
        rw [Except.ok.injEq, extract_eq_of_splits hp hq] at h
        subst h
        refine ⟨before, after, hText', ?_, ?_⟩
        · exact (congrArg String.Pos.Raw.byteIdx hFirst).symm
        · exact (congrArg String.Pos.Raw.byteIdx hSecond).symm
    · cases h
  · rintro ⟨before, after, rfl, rfl, rfl⟩
    have hStart : String.Pos.Raw.IsValid (before ++ part ++ after) before.rawEndPos :=
      String.Pos.Raw.isValid_iff_exists_append.mpr ⟨before, part ++ after, String.append_assoc, rfl⟩
    have hStop : String.Pos.Raw.IsValid (before ++ part ++ after) (before ++ part).rawEndPos :=
      String.Pos.Raw.isValid_iff_exists_append.mpr ⟨before ++ part, after, rfl, rfl⟩
    have hOrder : before.utf8ByteSize ≤ (before ++ part).utf8ByteSize := by
      rw [String.utf8ByteSize_append]
      exact Nat.le_add_right _ _
    rw [slice, dif_pos ⟨hOrder, hStart, hStop⟩, Except.ok.injEq]
    exact extract_eq_of_splits ⟨String.append_assoc, rfl⟩ ⟨rfl, rfl⟩

/-- The first character of this text takes two bytes. -/
example : slice "éa" 0 1 = .error (.crash (.cut "éa" 0 1)) := by
  rfl

end Slice

section Search

variable {word : List Char}

/-- A word of one-byte characters is the start of a text exactly if its bytes are. -/
theorem encode_prefix_iff
    (hWord : ∀ c ∈ word, c.utf8Size = 1) (text : List Char) :
    word.flatMap String.utf8EncodeChar <+: text.flatMap String.utf8EncodeChar ↔ word <+: text := by
  induction word generalizing text with
  | nil => simp
  | cons w word ih =>
      rw [List.forall_mem_cons] at hWord
      have hEncode := String.utf8EncodeChar_eq_singleton hWord.1
      cases text with
      | nil => simp [hEncode]
      | cons c text =>
          rw [List.cons_prefix_cons, List.flatMap_cons, List.flatMap_cons, ← ih hWord.2 text]
          constructor
          · intro h
            -- The first byte of the text is that of `w`, and so `w` is its first character.
            have hFirst : w = c := by
              cases hCode : String.utf8EncodeChar c with
              | nil => exact absurd hCode String.utf8EncodeChar_ne_nil
              | cons b bs =>
                  rw [hEncode, hCode, List.singleton_append, List.cons_append,
                    List.cons_prefix_cons] at h
                  refine (eq_of_mem_encode hWord.1 (b := b) ?_ ?_).symm
                  · rw [hEncode, h.1]
                    exact List.mem_singleton_self b
                  · rw [hCode]
                    exact List.mem_cons_self
            subst hFirst
            exact ⟨rfl, List.prefix_append_right_inj _ |>.mp h⟩
          · rintro ⟨rfl, h⟩
            exact List.prefix_append_right_inj _ |>.mpr h

/-- Bytes with which the word does not start are passed over. -/
theorem offsetOf?_append
    {b : UInt8} {bs : List UInt8} (piece rest : List UInt8)
    (h : b ∉ piece) :
    offsetOf? (b :: bs) (piece ++ rest) =
      (offsetOf? (b :: bs) rest).map fun i => i + piece.length := by
  induction piece with
  | nil => simp
  | cons p piece ih =>
      rw [List.mem_cons, not_or] at h
      have hNot : ¬ (b :: bs).isPrefixOf (p :: (piece ++ rest)) = true := by
        rw [List.isPrefixOf_iff_prefix, List.cons_prefix_cons]
        exact fun hHere => h.1 hHere.1
      rw [List.cons_append, offsetOf?, if_neg hNot, ih h.2, Option.map_map]
      rfl

/-- To look for the bytes of a word is to look for the word. -/
theorem offsetOf?_encode
    (hWord : ∀ c ∈ word, c.utf8Size = 1) (hNonempty : word ≠ []) (text : List Char) :
    offsetOf? (word.flatMap String.utf8EncodeChar) (text.flatMap String.utf8EncodeChar) =
      (Text.cutAt? word text).map fun cut => byteLength cut.1 := by
  obtain ⟨w, word, rfl⟩ := List.exists_cons_of_ne_nil hNonempty
  have hEncode := String.utf8EncodeChar_eq_singleton (hWord w List.mem_cons_self)
  induction text with
  | nil => simp [offsetOf?, Text.cutAt?, hEncode]
  | cons c text ih =>
      have hHere := encode_prefix_iff hWord (c :: text)
      rw [← List.isPrefixOf_iff_prefix, ← List.isPrefixOf_iff_prefix] at hHere
      cases hCode : String.utf8EncodeChar c with
      | nil => exact absurd hCode String.utf8EncodeChar_ne_nil
      | cons b bs =>
          have hBytes : (c :: text).flatMap String.utf8EncodeChar =
              b :: (bs ++ text.flatMap String.utf8EncodeChar) := by
            rw [List.flatMap_cons, hCode, List.cons_append]
          have hSize : c.utf8Size = bs.length + 1 := by
            rw [← String.length_utf8EncodeChar, hCode, List.length_cons]
          have hInside : w.val.toUInt8 ∉ bs := by
            -- It would be the byte of `w`, which takes only one byte.
            intro hMem
            have hSame : c = w := by
              refine eq_of_mem_encode (b := w.val.toUInt8) (hWord w List.mem_cons_self) ?_ ?_
              · rw [hEncode]
                exact List.mem_singleton_self _
              · rw [hCode]
                exact List.mem_cons_of_mem b hMem
            rw [hSame, hEncode, List.cons.injEq] at hCode
            rw [← hCode.2] at hMem
            cases hMem
          rw [hBytes] at hHere ⊢
          rw [offsetOf?, Text.cutAt?]
          by_cases hStarts : (w :: word).isPrefixOf (c :: text) = true
          · rw [if_pos (hHere.mpr hStarts), if_pos hStarts]
            rfl
          · rw [if_neg fun h => hStarts (hHere.mp h), if_neg hStarts]
            rw [List.flatMap_cons, hEncode, List.singleton_append] at ih ⊢
            rw [offsetOf?_append bs _ hInside, ih, Option.map_map, Option.map_map, Option.map_map]
            refine Option.map_congr fun cut _ => ?_
            simp only [Function.comp_apply, byteLength_cons, hSize]
            omega

/-- The byte offset of a word in a fragment is the length of the fragment before it. -/
theorem find?_eq
    (hWord : ∀ c ∈ word, c.utf8Size = 1) (hNonempty : word ≠ []) (f : Fragment) :
    find? (String.ofList word) (String.ofList f.chars) =
      (f.cutAt? word).map fun cut => byteLength cut.1.chars := by
  rw [find?, bytes_eq, bytes_eq, String.toList_ofList, String.toList_ofList,
    offsetOf?_encode hWord hNonempty, Fragment.cutAt?, Option.map_map]
  rfl

end Search

section Relations

variable {cs lhs rhs : List Char} {r : Comparison}

theorem relations_cons_of_none
    {c : Char} (start : Nat) (cs : List Char)
    (h : Comparison.ofChar? c = none) :
    relations start (c :: cs) = relations (start + c.utf8Size) cs := by
  simp [relations, charOffsets, h]

theorem relations_cons_of_some
    {c : Char} (start : Nat) (cs : List Char)
    (h : Comparison.ofChar? c = some r) :
    relations start (c :: cs) = (start, r) :: relations (start + c.utf8Size) cs := by
  simp [relations, charOffsets, h]

theorem utf8Size_of_ofChar?
    {c : Char}
    (h : Comparison.ofChar? c = some r) :
    c.utf8Size = 1 := by
  rw [Comparison.ofChar?_eq_some_iff.mp h]
  cases r <;> rfl

/-- A text without a relation sign has none at any offset. -/
theorem relations_of_cutWhere?_none
    (start : Nat)
    (h : Text.cutWhere? Comparison.ofChar? cs = none) :
    relations start cs = [] := by
  induction cs generalizing start with
  | nil => rfl
  | cons c cs ih =>
      cases hc : Comparison.ofChar? c with
      | some r => simp [Text.cutWhere?, hc] at h
      | none =>
          rw [relations_cons_of_none start cs hc]
          exact ih _ (by simpa [Text.cutWhere?, hc] using h)

/-- The first relation sign stands where the text is cut, and takes one byte. -/
theorem relations_of_cutWhere?
    (start : Nat)
    (h : Text.cutWhere? Comparison.ofChar? cs = some (lhs, r, rhs)) :
    relations start cs =
      (start + byteLength lhs, r) :: relations (start + byteLength lhs + 1) rhs := by
  induction cs generalizing start lhs with
  | nil => cases h
  | cons c cs ih =>
      cases hc : Comparison.ofChar? c with
      | some s =>
          simp only [Text.cutWhere?, hc, Option.some_inj, Prod.mk.injEq] at h
          obtain ⟨rfl, rfl, rfl⟩ := h
          rw [relations_cons_of_some start cs hc, utf8Size_of_ofChar? hc]
          rfl
      | none =>
          simp only [Text.cutWhere?, hc, Option.map_eq_some_iff, Prod.exists, Prod.mk.injEq] at h
          obtain ⟨before, s, after, hRest, rfl, rfl, rfl⟩ := h
          rw [relations_cons_of_none start cs hc, ih _ hRest, byteLength_cons, Nat.add_assoc start]

theorem relations_of_fragment
    {f before after : Fragment} (start : Nat)
    (h : f.cutWhere? Comparison.ofChar? = some (before, r, after)) :
    relations start f.chars =
      (start + byteLength before.chars, r) ::
        relations (start + byteLength before.chars + 1) after.chars := by
  rw [Fragment.cutWhere?, Option.map_eq_some_iff] at h
  obtain ⟨⟨b, s, a⟩, hText, hTriple⟩ := h
  simp only [Prod.mk.injEq] at hTriple
  obtain ⟨rfl, rfl, rfl⟩ := hTriple
  exact relations_of_cutWhere? start hText

/-- There is a relation sign at some offset exactly if some character is one. -/
theorem relations_eq_nil_iff
    (start : Nat) (cs : List Char) :
    relations start cs = [] ↔ cs.any (fun c => (Comparison.ofChar? c).isSome) = false := by
  induction cs generalizing start with
  | nil => exact ⟨fun _ => rfl, fun _ => rfl⟩
  | cons c cs ih =>
      cases hc : Comparison.ofChar? c with
      | some r => simp [relations_cons_of_some start cs hc, hc]
      | none => simp [relations_cons_of_none start cs hc, ih, hc]

end Relations

/-- The fragment is the part of the text between two byte offsets. -/
def Spans (text : String) (start stop : Nat) (f : Fragment) : Prop :=
  ∃ before after, text.toList = before ++ f.chars ++ after ∧ before.length = f.offset ∧
    byteLength before = start ∧ byteLength (before ++ f.chars) = stop

namespace Spans

variable {text : String} {start stop : Nat} {f before after : Fragment}

theorem whole
    (text : String) :
    Spans text 0 text.utf8ByteSize (.whole text.toList) :=
  ⟨[], [], by simp [Fragment.whole], rfl, rfl, byteLength_toList text⟩

/-- A fragment is the slice between its offsets. -/
theorem slice_eq
    (h : Spans text start stop f) :
    slice text start stop = .ok (String.ofList f.chars) := by
  obtain ⟨before, after, hText, -, hStart, hStop⟩ := h
  refine slice_eq_ok_iff.mpr ⟨String.ofList before, String.ofList after, ?_, hStart, ?_⟩
  · rw [← String.ofList_append, ← String.ofList_append, ← hText, String.ofList_toList]
  · rw [← String.ofList_append]
    exact hStop

/-- The number of characters before a fragment is the length of the slice up to it. -/
theorem exists_slice_before
    (h : Spans text start stop f) :
    ∃ passed, slice text 0 start = .ok passed ∧ passed.length = f.offset := by
  obtain ⟨before, after, hText, hOffset, hStart, -⟩ := h
  refine ⟨String.ofList before, ?_, by rw [String.length_ofList, hOffset]⟩
  refine slice_eq_ok_iff.mpr ⟨"", String.ofList (f.chars ++ after), ?_, rfl, ?_⟩
  · rw [String.empty_append, ← String.ofList_append, ← List.append_assoc, ← hText,
      String.ofList_toList]
  · rw [String.empty_append]
    exact hStart

/-- Leading characters of a fragment can be left out. -/
theorem drop
    {first rest : List Char}
    (h : Spans text start stop f) (hChars : f.chars = first ++ rest) :
    Spans text (start + byteLength first) stop ⟨f.offset + first.length, rest⟩ := by
  obtain ⟨before, after, hText, hOffset, rfl, rfl⟩ := h
  refine ⟨before ++ first, after, ?_, ?_, byteLength_append .., ?_⟩
  · rw [hText, hChars]
    simp
  · rw [List.length_append, hOffset]
  · simp [hChars]

/-- So can trailing characters. -/
theorem take
    {first rest : List Char}
    (h : Spans text start stop f) (hChars : f.chars = first ++ rest) :
    Spans text start (start + byteLength first) ⟨f.offset, first⟩ := by
  obtain ⟨before, after, hText, hOffset, rfl, -⟩ := h
  refine ⟨before, rest ++ after, ?_, hOffset, rfl, byteLength_append ..⟩
  rw [hText, hChars]
  simp

/-- Where a fragment is cut at a word. -/
theorem of_cutAt?
    {word : List Char}
    (h : Spans text start stop f) (hCut : f.cutAt? word = some (before, after)) :
    Spans text start (start + byteLength before.chars) before ∧
      Spans text (start + byteLength before.chars + byteLength word) stop after := by
  rw [Fragment.cutAt?, Option.map_eq_some_iff] at hCut
  obtain ⟨⟨b, a⟩, hText, hPair⟩ := hCut
  rw [Prod.mk.injEq] at hPair
  obtain ⟨rfl, rfl⟩ := hPair
  have hChars := Text.eq_append_of_cutAt? hText
  refine ⟨h.take (hChars.trans (List.append_assoc ..)), ?_⟩
  have hAfter := h.drop hChars
  rw [byteLength_append, List.length_append, ← Nat.add_assoc, ← Nat.add_assoc] at hAfter
  exact hAfter

/-- Where a fragment is cut at a relation sign. -/
theorem of_cutWhere?
    {r : Comparison}
    (h : Spans text start stop f)
    (hCut : f.cutWhere? Comparison.ofChar? = some (before, r, after)) :
    Spans text start (start + byteLength before.chars) before ∧
      Spans text (start + byteLength before.chars + 1) stop after := by
  rw [Fragment.cutWhere?, Option.map_eq_some_iff] at hCut
  obtain ⟨⟨b, s, a⟩, hText, hTriple⟩ := hCut
  simp only [Prod.mk.injEq] at hTriple
  obtain ⟨rfl, rfl, rfl⟩ := hTriple
  obtain ⟨c, hc, hChars⟩ := Text.eq_append_of_cutWhere? hText
  refine ⟨h.take hChars, ?_⟩
  have hSplit : f.chars = b ++ [c] ++ a := by rw [hChars, List.append_assoc, List.singleton_append]
  have hAfter := h.drop hSplit
  simp only [byteLength_append, byteLength_cons, byteLength_nil, utf8Size_of_ofChar? hc,
    List.length_append, List.length_singleton, ← Nat.add_assoc, Nat.add_zero] at hAfter
  exact hAfter

end Spans
end Guarded
end IntegerBasic
