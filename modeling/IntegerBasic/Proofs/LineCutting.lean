import IntegerBasic.Console.Pipe

/-!
# Cutting a stream into lines

**Definitions.**  `cutAfter` cuts a list after each element that ends a line; the last line may be
unended.  `byteLines` does so with the bytes of a stream, and `textLines` with the characters of a
text, of whose lines it drops the ends.  `TakesLines bytes lines rest` says that the first lines of
the bytes read like this, and that the rest follows.

**Argument.**  A stream is read line by line, so what is read are its first lines, in their order.
In UTF-8 the byte of a newline occurs in no other character.  Hence to cut the bytes of a text and
to decode the pieces is to cut the text.

**Results.**
* `flatten_cutAfter`: nothing is lost when a list is cut.
* `takesLines_readTextLine`: reading takes the next line, if there is one.
* `decodes_iff`: bytes are a text if they are what its characters are encoded to.
* `eq_of_mem_encode`: the byte of a one-byte character stands for that character wherever it occurs.
* `map_decodeLine_byteLines`: the lines of the bytes of a text have the lines of the text as texts.
-/

namespace IntegerBasic

section Cutting

variable {α β : Type}

/-- Puts a piece in front of the first line. -/
def prepend (piece : List α) : List (List α) → List (List α)
  | [] => [piece]
  | line :: lines => (piece ++ line) :: lines

/-- The lines of a list, each with the element that ends it. -/
def cutAfter (ends : α → Bool) : List α → List (List α)
  | [] => []
  | a :: rest => if ends a then [a] :: cutAfter ends rest else prepend [a] (cutAfter ends rest)

theorem flatten_prepend
    (piece : List α) (lines : List (List α)) :
    (prepend piece lines).flatten = piece ++ lines.flatten := by
  cases lines <;> simp [prepend]

/-- The lines of a list make up the list. -/
theorem flatten_cutAfter
    (ends : α → Bool) (as : List α) :
    (cutAfter ends as).flatten = as := by
  induction as with
  | nil => rfl
  | cons a rest ih =>
      rw [cutAfter]
      split
      · rw [List.flatten_cons, ih]
        rfl
      · rw [flatten_prepend, ih]
        rfl

/-- A piece without an end belongs to the first line. -/
theorem cutAfter_append
    {ends : α → Bool} {piece : List α} (rest : List α)
    (hPiece : piece ≠ []) (hInside : ∀ a ∈ piece, ends a = false) :
    cutAfter ends (piece ++ rest) = prepend piece (cutAfter ends rest) := by
  induction piece with
  | nil => contradiction
  | cons a piece ih =>
      rw [List.forall_mem_cons] at hInside
      rw [List.cons_append, cutAfter, hInside.1, if_neg Bool.false_ne_true]
      by_cases hLast : piece = []
      · rw [hLast]
        rfl
      · rw [ih hLast hInside.2]
        cases cutAfter ends rest <;> rfl

/-- If each element is encoded to a piece, and an end to an end alone, then the lines are encoded to
lines. -/
theorem cutAfter_flatMap
    {ends : α → Bool} {ends' : β → Bool} {encode : α → List β}
    (hEnd : ∀ a, ends a = true → ∃ b, encode a = [b] ∧ ends' b = true)
    (hInside : ∀ a, ends a = false → encode a ≠ [] ∧ ∀ b ∈ encode a, ends' b = false)
    (as : List α) :
    cutAfter ends' (as.flatMap encode) = (cutAfter ends as).map (List.flatMap encode) := by
  induction as with
  | nil => rfl
  | cons a rest ih =>
      rw [List.flatMap_cons]
      cases hEnds : ends a with
      | true =>
          obtain ⟨b, hEncode, hEnds'⟩ := hEnd a hEnds
          simp [cutAfter, hEncode, hEnds, hEnds', ih]
      | false =>
          obtain ⟨hPiece, hNone⟩ := hInside a hEnds
          rw [cutAfter_append _ hPiece hNone, ih, cutAfter, hEnds, if_neg Bool.false_ne_true]
          cases cutAfter ends rest <;> simp [prepend]

end Cutting

section Bytes

/-- The lines of the bytes, each with the newline that ends it. -/
def byteLines (bytes : List UInt8) : List (List UInt8) :=
  cutAfter (fun b => b == newlineByte) bytes

/-- The text of a line, without its end. -/
def decodeLine (line : List UInt8) : Except String String :=
  match String.fromUTF8? ⟨line.toArray⟩ with
  | some s => .ok (dropLineEnd s)
  | none => .error decodingFailure

theorem eq_decodingFailure_of_decodeLine
    {line : List UInt8} {failure : String}
    (h : decodeLine line = .error failure) :
    failure = decodingFailure := by
  unfold decodeLine at h
  split at h
  · cases h
  · cases h
    rfl

/-- The first line is the one that is taken. -/
theorem byteLines_eq_cons
    {bytes : List UInt8}
    (h : bytes ≠ []) :
    byteLines bytes = (takeLine bytes).1 :: byteLines (takeLine bytes).2 := by
  induction bytes with
  | nil => contradiction
  | cons b rest ih =>
      by_cases hNewline : b = newlineByte
      · simp [byteLines, cutAfter, takeLine, hNewline]
      · by_cases hLast : rest = []
        · simp [byteLines, cutAfter, takeLine, prepend, hNewline, hLast]
        · have ih : cutAfter (fun b => b == newlineByte) rest = _ := ih hLast
          simp [byteLines, cutAfter, takeLine, prepend, hNewline, ih]

theorem readTextLine_of_ne_nil
    {bytes : List UInt8}
    (h : bytes ≠ []) :
    readTextLine bytes = ((decodeLine (takeLine bytes).1).map some, (takeLine bytes).2) := by
  cases bytes with
  | nil => contradiction
  | cons b rest =>
      simp only [readTextLine, decodeLine]
      cases String.fromUTF8? ⟨(takeLine (b :: rest)).1.toArray⟩ <;> rfl

/-- The line that an answer consumes: there is none if the input has ended. -/
def answeredLine? : Except String (Option String) → Option (Except String String)
  | .ok none => none
  | .ok (some line) => some (.ok line)
  | .error failure => some (.error failure)

theorem answeredLine?_map_some
    (line : Except String String) :
    answeredLine? (line.map some) = some line := by
  cases line <;> rfl

/-- The first lines of the bytes have these texts, and the rest of the bytes follows them. -/
def TakesLines (bytes : List UInt8) (lines : List (Except String String)) (rest : List UInt8) :
    Prop :=
  ∃ cut, byteLines bytes = cut ++ byteLines rest ∧ cut.map decodeLine = lines

namespace TakesLines

variable {bytes between rest : List UInt8} {lines more : List (Except String String)}

theorem refl
    (bytes : List UInt8) :
    TakesLines bytes [] bytes :=
  ⟨[], rfl, rfl⟩

theorem trans
    (h : TakesLines bytes lines between) (hMore : TakesLines between more rest) :
    TakesLines bytes (lines ++ more) rest := by
  obtain ⟨cut, hBytes, rfl⟩ := h
  obtain ⟨cut', hBetween, rfl⟩ := hMore
  exact ⟨cut ++ cut', by rw [hBytes, hBetween, List.append_assoc], List.map_append⟩

/-- What is cut off and what follows are all the bytes. -/
theorem exists_append
    (h : TakesLines bytes lines rest) :
    ∃ cut, bytes = List.flatten cut ++ rest ∧ cut.map decodeLine = lines := by
  obtain ⟨cut, hBytes, hLines⟩ := h
  have hAll := congrArg List.flatten hBytes
  rw [List.flatten_append, byteLines, byteLines, flatten_cutAfter, flatten_cutAfter] at hAll
  exact ⟨cut, hAll, hLines⟩

end TakesLines

/-- Reading takes the next line, if there is one. -/
theorem takesLines_readTextLine
    (bytes : List UInt8) :
    TakesLines bytes (answeredLine? (readTextLine bytes).1).toList (readTextLine bytes).2 := by
  by_cases hEnd : bytes = []
  · rw [hEnd]
    exact .refl []
  · rw [readTextLine_of_ne_nil hEnd, answeredLine?_map_some]
    exact ⟨[(takeLine bytes).1], byteLines_eq_cons hEnd, rfl⟩

/-- There is no line only at the end of the bytes. -/
theorem eq_nil_of_readTextLine
    {bytes : List UInt8}
    (h : (readTextLine bytes).1 = .ok none) :
    bytes = [] ∧ (readTextLine bytes).2 = [] := by
  by_cases hEnd : bytes = []
  · subst hEnd
    exact ⟨rfl, rfl⟩
  · rw [readTextLine_of_ne_nil hEnd] at h
    cases hLine : decodeLine (takeLine bytes).1 <;> simp [hLine, Except.map] at h

theorem eq_decodingFailure_of_readTextLine
    {bytes : List UInt8} {failure : String}
    (h : (readTextLine bytes).1 = .error failure) :
    failure = decodingFailure := by
  by_cases hEnd : bytes = []
  · subst hEnd
    cases h
  · rw [readTextLine_of_ne_nil hEnd] at h
    cases hLine : decodeLine (takeLine bytes).1 with
    | ok line => simp [hLine, Except.map] at h
    | error failure' =>
        rw [hLine] at h
        cases h
        exact eq_decodingFailure_of_decodeLine hLine

end Bytes

section Text

/-- The lines of a text, without their ends. -/
def textLines (s : String) : List String :=
  (cutAfter (fun c => c == '\n') s.toList).map fun line => dropLineEnd (String.ofList line)

theorem toArray_encode
    (s : String) :
    s.toByteArray = ⟨(s.toList.flatMap String.utf8EncodeChar).toArray⟩ := by
  rw [← String.utf8Encode_toList, List.utf8Encode]
  apply ByteArray.ext
  rw [← Array.toList_inj, List.toList_data_toByteArray]

/-- Bytes are a text exactly if they are what its characters are encoded to. -/
theorem decodes_iff
    {bytes : List UInt8} {s : String} :
    String.fromUTF8? ⟨bytes.toArray⟩ = some s ↔ bytes = s.toList.flatMap String.utf8EncodeChar := by
  rw [String.fromUTF8?]
  constructor
  · intro h
    split at h
    · next hValid =>
        rw [Option.some_inj] at h
        subst h
        exact congrArg (fun array => array.data.toList) (toArray_encode (String.fromUTF8 _ hValid))
    · cases h
  · rintro rfl
    have hBytes := toArray_encode s
    have hValid := s.isValidUTF8
    rw [hBytes] at hValid
    rw [dif_pos hValid, Option.some_inj, ← String.toByteArray_inj, hBytes]
    rfl

theorem encode_newline :
    String.utf8EncodeChar '\n' = [newlineByte] := by
  rfl

/-- The byte of a character that takes one byte occurs in the code of no other character. -/
theorem eq_of_mem_encode
    {c d : Char} {b : UInt8}
    (hSize : c.utf8Size = 1) (hc : b ∈ String.utf8EncodeChar c) (hd : b ∈ String.utf8EncodeChar d) :
    d = c := by
  rw [String.utf8EncodeChar_eq_singleton hSize, List.mem_singleton] at hc
  have hSmall : c.val.toNat ≤ 127 := UInt32.le_iff_toNat_le.mp (Char.utf8Size_eq_one_iff.mp hSize)
  have hByte : ∀ n, b = UInt8.ofNat n → n % 256 = c.val.toNat := by
    intro n hEq
    have hNat := congrArg UInt8.toNat (hEq.symm.trans hc)
    rw [UInt8.toNat_ofNat', UInt32.toNat_toUInt8] at hNat
    omega
  dsimp only [String.utf8EncodeChar] at hd
  split at hd
  · have hValue := hByte _ (List.mem_singleton.mp hd)
    apply Char.ext
    apply UInt32.toNat_inj.mp
    omega
  · -- Every byte of a longer code is too large.
    split at hd
    · simp only [List.mem_cons, List.not_mem_nil, or_false] at hd
      rcases hd with h | h <;> have hValue := hByte _ h <;> omega
    · split at hd
      · simp only [List.mem_cons, List.not_mem_nil, or_false] at hd
        rcases hd with h | h | h <;> have hValue := hByte _ h <;> omega
      · simp only [List.mem_cons, List.not_mem_nil, or_false] at hd
        rcases hd with h | h | h | h <;> have hValue := hByte _ h <;> omega

/-- The lines of what is encoded are the encoded lines. -/
theorem byteLines_encode
    (cs : List Char) :
    byteLines (cs.flatMap String.utf8EncodeChar) =
      (cutAfter (fun c => c == '\n') cs).map (List.flatMap String.utf8EncodeChar) := by
  refine cutAfter_flatMap ?_ ?_ cs
  · intro c hNewline
    rw [beq_iff_eq] at hNewline
    subst hNewline
    exact ⟨newlineByte, encode_newline, rfl⟩
  · intro c hOther
    refine ⟨String.utf8EncodeChar_ne_nil, fun b hMem => ?_⟩
    rw [beq_eq_false_iff_ne] at hOther ⊢
    rintro rfl
    exact hOther (eq_of_mem_encode rfl (List.mem_singleton_self newlineByte) hMem)

/-- The lines of the bytes of a text have the lines of the text as their texts. -/
theorem map_decodeLine_byteLines
    {bytes : List UInt8} {s : String}
    (h : String.fromUTF8? ⟨bytes.toArray⟩ = some s) :
    (byteLines bytes).map decodeLine = (textLines s).map .ok := by
  rw [decodes_iff.mp h, byteLines_encode, textLines, List.map_map, List.map_map]
  refine List.map_congr_left fun line _ => ?_
  have hLine : String.fromUTF8? ⟨(line.flatMap String.utf8EncodeChar).toArray⟩ =
      some (String.ofList line) := by
    rw [decodes_iff, String.toList_ofList]
  simp only [Function.comp_apply, decodeLine, hLine]

end Text
end IntegerBasic
