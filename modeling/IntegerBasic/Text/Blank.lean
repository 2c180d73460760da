/-!
# White space and trimming

**Input.**  Texts are lists of characters.

**Definitions.**  `isWhiteSpace` is the Unicode property `White_Space`; `trim` removes such
characters from both ends of a text.  The blanks that separate tokens inside a statement are a
smaller class and belong to the lexer.  A text is `Solid` when neither of its ends is white space.

**Results.**
* `exists_eq_append_trim`: trimming only drops white space, and only at the ends.
* `trim_trim`: a trimmed text has nothing left to trim.
* `trim_append`, `Solid.append`: white space is trimmed off a text with solid ends, and only there.
-/

namespace IntegerBasic
namespace Text

/-- The ranges of code points with the Unicode property `White_Space`, ends included. -/
def whiteSpaceRanges : List (Nat × Nat) :=
  [(0x9, 0xD), (0x20, 0x20), (0x85, 0x85), (0xA0, 0xA0), (0x1680, 0x1680), (0x2000, 0x200A),
    (0x2028, 0x2029), (0x202F, 0x202F), (0x205F, 0x205F), (0x3000, 0x3000)]

/-- Membership in the Unicode property `White_Space`. -/
def isWhiteSpace (c : Char) : Bool :=
  whiteSpaceRanges.any fun range => range.1 ≤ c.toNat && c.toNat ≤ range.2

/-- Drops the white space a text starts with. -/
def trimStart (text : List Char) : List Char :=
  text.dropWhile isWhiteSpace

/-- Drops the white space a text ends with. -/
def trimEnd (text : List Char) : List Char :=
  (trimStart text.reverse).reverse

/-- Drops the white space at both ends of a text. -/
def trim (text : List Char) : List Char :=
  trimEnd (trimStart text)

theorem trimStart_eq_self_iff
    (text : List Char) :
    trimStart text = text ↔ ∀ c ∈ text.head?, isWhiteSpace c = false := by
  cases text with
  | nil => simp [trimStart]
  | cons c cs =>
      cases h : isWhiteSpace c with
      | false => simp [trimStart, h]
      | true =>
          have hLength : (cs.dropWhile isWhiteSpace).length ≤ cs.length :=
            (List.dropWhile_sublist isWhiteSpace).length_le
          simp only [trimStart, List.dropWhile_cons, h, if_true, List.head?_cons,
            Option.mem_some_iff, forall_eq', Bool.true_eq_false, iff_false]
          intro hEq
          have := congrArg List.length hEq
          simp only [List.length_cons] at this
          omega

theorem trimEnd_eq_self_iff
    (text : List Char) :
    trimEnd text = text ↔ ∀ c ∈ text.getLast?, isWhiteSpace c = false := by
  rw [← List.head?_reverse, ← trimStart_eq_self_iff, trimEnd]
  constructor
  · intro h
    simpa using congrArg List.reverse h
  · intro h
    simp [h]

theorem trimStart_trimStart
    (text : List Char) :
    trimStart (trimStart text) = trimStart text := by
  rw [trimStart_eq_self_iff]
  intro c hc
  have h := List.head?_dropWhile_not isWhiteSpace text
  rw [trimStart, Option.mem_def] at hc
  simpa [hc] using h

theorem trimEnd_trimEnd
    (text : List Char) :
    trimEnd (trimEnd text) = trimEnd text := by
  simp [trimEnd, trimStart_trimStart]

theorem eq_takeWhile_append_trimStart
    (text : List Char) :
    text = text.takeWhile isWhiteSpace ++ trimStart text :=
  List.takeWhile_append_dropWhile.symm

theorem eq_trimEnd_append
    (text : List Char) :
    text = trimEnd text ++ (text.reverse.takeWhile isWhiteSpace).reverse := by
  rw [trimEnd, ← List.reverse_append, ← eq_takeWhile_append_trimStart, List.reverse_reverse]

/-- Trimming drops white space before and after a text, and nothing else. -/
theorem exists_eq_append_trim
    (text : List Char) :
    ∃ before after, text = before ++ trim text ++ after ∧
      before.all isWhiteSpace ∧ after.all isWhiteSpace := by
  refine ⟨text.takeWhile isWhiteSpace,
    ((trimStart text).reverse.takeWhile isWhiteSpace).reverse, ?_, List.all_takeWhile, ?_⟩
  · rw [List.append_assoc, trim, ← eq_trimEnd_append, ← eq_takeWhile_append_trimStart]
  · rw [List.all_reverse]
    exact List.all_takeWhile

/-- A trimmed text does not start with white space. -/
theorem trimStart_trim
    (text : List Char) :
    trimStart (trim text) = trim text := by
  rw [trimStart_eq_self_iff]
  intro c hc
  have hOuter := (trimStart_eq_self_iff (trimStart text)).mp (trimStart_trimStart text)
  apply hOuter
  rw [eq_trimEnd_append (trimStart text), List.head?_append, ← trim, Option.mem_def.mp hc]
  rfl

/-- A trimmed text has nothing left to trim. -/
theorem trim_trim
    (text : List Char) :
    trim (trim text) = trim text := by
  rw [trim, trimStart_trim]
  exact trimEnd_trimEnd (trimStart text)

/-- What is left of a text was in it. -/
theorem mem_of_mem_trim
    {text : List Char} {c : Char}
    (h : c ∈ trim text) :
    c ∈ text := by
  obtain ⟨before, after, hText, _, _⟩ := exists_eq_append_trim text
  rw [hText]
  exact List.mem_append_left after (List.mem_append_right before h)

/-- The text has a first and a last character, and neither is white space. -/
def Solid (text : List Char) : Prop :=
  (∃ c, text.head? = some c ∧ isWhiteSpace c = false) ∧
    ∃ c, text.getLast? = some c ∧ isWhiteSpace c = false

theorem solid_of_forall
    {text : List Char}
    (hText : text ≠ [])
    (h : ∀ c ∈ text, isWhiteSpace c = false) :
    Solid text :=
  ⟨⟨text.head hText, List.head?_eq_some_head hText, h _ (List.head_mem hText)⟩,
    ⟨text.getLast hText, List.getLast?_eq_some_getLast hText, h _ (List.getLast_mem hText)⟩⟩

/-- A trimmed text is solid, unless nothing is left of it. -/
theorem solid_trim
    {text : List Char}
    (h : trim text ≠ []) :
    Solid (trim text) := by
  have hStart := (trimStart_eq_self_iff _).mp (trimStart_trim text)
  have hEnd := (trimEnd_eq_self_iff _).mp (trimEnd_trimEnd (trimStart text))
  exact ⟨⟨_, List.head?_eq_some_head h, hStart _ (List.head?_eq_some_head h)⟩,
    ⟨_, List.getLast?_eq_some_getLast h, hEnd _ (List.getLast?_eq_some_getLast h)⟩⟩

/-- Only the ends matter. -/
theorem Solid.append
    {a b : List Char}
    (ha : Solid a) (middle : List Char) (hb : Solid b) :
    Solid (a ++ middle ++ b) := by
  obtain ⟨⟨c, hc, hcSolid⟩, _⟩ := ha
  obtain ⟨_, d, hd, hdSolid⟩ := hb
  refine ⟨⟨c, ?_, hcSolid⟩, ⟨d, ?_, hdSolid⟩⟩
  · simp [List.head?_append, hc]
  · simp [List.getLast?_append, hd]

theorem trimStart_append
    {before : List Char}
    (hBefore : before.all isWhiteSpace) (text : List Char) :
    trimStart (before ++ text) = trimStart text :=
  List.dropWhile_append_of_pos (List.all_eq_true.mp hBefore)

theorem trimEnd_append
    {after : List Char}
    (hAfter : after.all isWhiteSpace) (text : List Char) :
    trimEnd (text ++ after) = trimEnd text := by
  have hReverse : after.reverse.all isWhiteSpace := by rwa [List.all_reverse]
  rw [trimEnd, List.reverse_append, trimStart_append hReverse, trimEnd]

/-- White space after a text is trimmed off, and so is the text if it is nothing else. -/
theorem trim_append_right
    {after : List Char}
    (hAfter : after.all isWhiteSpace) (text : List Char) :
    trim (text ++ after) = trim text := by
  have hNone : trimStart after = [] := by
    rw [← List.append_nil after, trimStart_append hAfter]
    rfl
  rw [trim, trimStart, List.dropWhile_append]
  split
  · next hEmpty =>
      rw [trim, trimStart, List.isEmpty_iff.mp hEmpty]
      exact congrArg trimEnd hNone
  · exact trimEnd_append hAfter _

/-- White space around a text is trimmed off, and nothing else. -/
theorem trim_append
    {before text after : List Char}
    (hBefore : before.all isWhiteSpace) (hText : Solid text) (hAfter : after.all isWhiteSpace) :
    trim (before ++ (text ++ after)) = text := by
  obtain ⟨⟨c, hc, hcSolid⟩, d, hd, hdSolid⟩ := hText
  have hStart : trimStart (text ++ after) = text ++ after := by
    rw [trimStart_eq_self_iff]
    simpa [List.head?_append, hc] using hcSolid
  have hEnd : trimEnd text = text := by
    rw [trimEnd_eq_self_iff]
    simpa [hd] using hdSolid
  rw [trim, trimStart_append hBefore, hStart, trimEnd_append hAfter, hEnd]

theorem Solid.trim_eq
    {text : List Char}
    (h : Solid text) :
    trim text = text := by
  have hTrim : trim ([] ++ (text ++ [])) = text := trim_append List.all_nil h List.all_nil
  rwa [List.nil_append, List.append_nil] at hTrim

/-- A space in front of a solid text is trimmed off. -/
theorem trim_space
    {text : List Char}
    (h : Solid text) :
    trim (' ' :: text) = text := by
  have hTrim : trim ([' '] ++ (text ++ [])) = text := trim_append rfl h rfl
  rwa [List.append_nil, List.singleton_append] at hTrim

end Text
end IntegerBasic
