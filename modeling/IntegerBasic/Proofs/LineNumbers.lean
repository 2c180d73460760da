import IntegerBasic.Proofs.Reentry

/-!
# The number that a line starts with

**Definitions.**  `LongestNumeral digits text` says that no longer string of digits stands at the
beginning of the text.  `IsLineNumber` holds of the numbers that lines can have,
which are 1 to 4294967295.

**Argument.**  A line is trimmed, cut behind its longest numeral, and trimmed again.  When it is
shown, the number is written without leading zeros and kept apart from the text by a space, so that
the longest numeral is the number alone, also if the text starts with digits or is empty.

**Results.**
* `longestNumeral_iff`: every text has one longest numeral, which may be empty.
* `parse_of_longestNumeral`, `exists_parse_error_of_longestNumeral`: when the number of a line is
  accepted.
* `render_reads_back`: a line is read back from the way it is shown.
* `number_is_longest_numeral`: all about a line that is typed.
-/

namespace IntegerBasic

namespace Text

/-- The digits are the longest string of digits that the text starts with. -/
structure LongestNumeral (digits text : List Char) : Prop where
  starts : digits <+: text
  all : digits.all Char.isDigit
  longest : ∀ other, other <+: text → other.all Char.isDigit → other.length ≤ digits.length

/-- Every text has one longest numeral. -/
theorem longestNumeral_iff
    {digits text : List Char} :
    LongestNumeral digits text ↔ digits = text.takeWhile Char.isDigit := by
  have hStarts : text.takeWhile Char.isDigit <+: text := ⟨_, List.takeWhile_append_dropWhile⟩
  have hLongest : ∀ other, other <+: text → other.all Char.isDigit →
      other.length ≤ (text.takeWhile Char.isDigit).length := by
    rintro other ⟨rest, rfl⟩ hAll
    rw [List.takeWhile_append_of_pos (List.all_eq_true.mp hAll), List.length_append]
    exact Nat.le_add_right _ _
  constructor
  · intro h
    have hLength : digits.length = (text.takeWhile Char.isDigit).length :=
      Nat.le_antisymm (hLongest digits h.starts h.all)
        (h.longest _ hStarts List.all_takeWhile)
    exact (List.prefix_of_prefix_length_le h.starts hStarts hLength.le).eq_of_length hLength
  · rintro rfl
    exact ⟨hStarts, List.all_takeWhile, hLongest⟩

/-- The longest numeral is empty unless the text starts with a digit. -/
theorem LongestNumeral.eq_nil_iff
    {digits text : List Char}
    (h : LongestNumeral digits text) :
    digits = [] ↔ ∀ c ∈ text.head?, c.isDigit = false := by
  rw [longestNumeral_iff.mp h]
  cases text with
  | nil => simp
  | cons c cs => cases hDigit : c.isDigit <;> simp [hDigit]

/-- What follows the longest numeral. -/
theorem LongestNumeral.drop_eq
    {digits text : List Char}
    (h : LongestNumeral digits text) :
    text.drop digits.length = text.dropWhile Char.isDigit := by
  have hText : text = digits ++ text.dropWhile Char.isDigit := by
    rw [longestNumeral_iff.mp h, List.takeWhile_append_dropWhile]
  conv_lhs => rw [hText]
  exact List.drop_left

end Text

namespace Line

variable {s text : String} {n : LineNumber} {digits : List Char}

/-- The number is one that a line can have. -/
def IsLineNumber (n : Nat) : Prop :=
  1 ≤ n ∧ n ≤ 4294967295

theorem parse_eq_parseNumbered
    (h : Text.LongestNumeral digits (Text.trim s.toList)) (hDigits : digits ≠ []) :
    parse s = parseNumbered digits ((Text.trim s.toList).drop digits.length) := by
  rw [h.drop_eq]
  rw [Text.longestNumeral_iff.mp h] at hDigits ⊢
  rw [parse]
  split
  · next hNone => exact absurd hNone hDigits
  · rfl

/-- If the longest numeral denotes a line number, the line has it, and the trimmed rest is its
text. -/
theorem parse_of_longestNumeral
    (h : Text.LongestNumeral digits (Text.trim s.toList)) (hDigits : digits ≠ [])
    (hNumber : IsLineNumber (Nat.ofDigitChars 10 digits 0)) :
    parse s = .ok ⟨some (Nat.ofDigitChars 10 digits 0),
      String.ofList (Text.trim ((Text.trim s.toList).drop digits.length))⟩ := by
  rw [parse_eq_parseNumbered h hDigits, parseNumbered_eq_ok_iff]
  exact ⟨hNumber, rfl⟩

/-- If it denotes no line number, the line is refused. -/
theorem exists_parse_error_of_longestNumeral
    (h : Text.LongestNumeral digits (Text.trim s.toList)) (hDigits : digits ≠ [])
    (hNumber : ¬ IsLineNumber (Nat.ofDigitChars 10 digits 0)) :
    ∃ e, parse s = .error e ∧ e.code = .syntaxError := by
  refine ⟨SyntaxFault.invalidLineNumber.error, ?_, rfl⟩
  rw [parse_eq_parseNumbered h hDigits, parseNumbered]
  exact if_neg hNumber

/-- A line that does not start with a digit is all text. -/
theorem parse_of_head?
    (h : ∀ c ∈ (Text.trim s.toList).head?, c.isDigit = false) :
    parse s = .ok ⟨none, String.ofList (Text.trim s.toList)⟩ := by
  rw [parse_eq_direct_iff, String.toList_ofList]
  refine ⟨rfl, ?_⟩
  exact (Text.longestNumeral_iff.mpr rfl).eq_nil_iff.mpr h

/-- A number without a text is read back, although a space follows it. -/
theorem parse_bare
    (hBounds : 1 ≤ n ∧ n ≤ greatestLineNumber) :
    parse (toString n ++ " ") = .ok ⟨some n, ""⟩ := by
  have hTrim : Text.trim ([] ++ ((toString n).toList ++ [' '])) = (toString n).toList :=
    Text.trim_append rfl (solid_toString n) rfl
  have hTyped : Text.trim (toString n ++ " ").toList = (toString n).toList := by
    rw [String.toList_append]
    exact hTrim
  rw [parse_eq_numbered_iff, hTyped]
  exact ⟨(toString n).toList, [], (List.append_nil _).symm, toList_toString_ne_nil n,
    isDigit_of_mem_toString n, by simp, hBounds, ofDigitChars_toString n, rfl⟩

/-- A line is read back from the way it is shown. -/
theorem render_reads_back
    {l : Line}
    (h : parse s = .ok l) :
    parse l.render = .ok l := by
  obtain ⟨number, text⟩ := l
  cases number with
  | none =>
      obtain ⟨hText, hDirect⟩ := parse_eq_direct_iff.mp h
      rw [render, parse_eq_direct_iff, ← hText, Text.trim_trim, hText]
      exact ⟨rfl, hDirect⟩
  | some n =>
      obtain ⟨_, _, _, _, _, _, hBounds, _⟩ := parse_eq_numbered_iff.mp h
      by_cases hText : text = ""
      · have hRender : render ⟨some n, text⟩ = toString n ++ " " := by
          rw [hText]
          exact String.append_empty
        rw [hRender, hText]
        exact parse_bare hBounds
      · exact parse_listed hBounds (trim_of_numbered h) hText

/-- A typed line that starts with a digit is read exactly if its longest numeral is the number of a
line, which then is its own; any other line is all text.  What is read is read again from the way it
is shown. -/
theorem number_is_longest_numeral
    (s : String) :
    (∃ digits, Text.LongestNumeral digits (Text.trim s.toList) ∧
      (digits = [] ↔ ∀ c ∈ (Text.trim s.toList).head?, c.isDigit = false) ∧
      (digits ≠ [] →
        ((∃ l, parse s = .ok l) ↔ IsLineNumber (Nat.ofDigitChars 10 digits 0)) ∧
        (IsLineNumber (Nat.ofDigitChars 10 digits 0) →
          parse s = .ok ⟨some (Nat.ofDigitChars 10 digits 0),
            String.ofList (Text.trim ((Text.trim s.toList).drop digits.length))⟩) ∧
        (¬ IsLineNumber (Nat.ofDigitChars 10 digits 0) →
          ∃ e, parse s = .error e ∧ e.code = .syntaxError))) ∧
    ((∀ c ∈ (Text.trim s.toList).head?, c.isDigit = false) →
      parse s = .ok ⟨none, String.ofList (Text.trim s.toList)⟩) ∧
    ∀ l, parse s = .ok l → parse l.render = .ok l := by
  have hNumeral : Text.LongestNumeral _ (Text.trim s.toList) := Text.longestNumeral_iff.mpr rfl
  refine ⟨⟨_, hNumeral, hNumeral.eq_nil_iff, fun hDigits => ⟨?_, ?_, ?_⟩⟩, parse_of_head?,
    fun l => render_reads_back⟩
  · constructor
    · rintro ⟨l, hLine⟩
      by_contra hNumber
      obtain ⟨e, hError, _⟩ := exists_parse_error_of_longestNumeral hNumeral hDigits hNumber
      cases hLine.symm.trans hError
    · exact fun hNumber => ⟨_, parse_of_longestNumeral hNumeral hDigits hNumber⟩
  · exact parse_of_longestNumeral hNumeral hDigits
  · exact exists_parse_error_of_longestNumeral hNumeral hDigits

/-- Leading zeros are not shown again, and a text that starts with a digit stays a text. -/
theorem number_is_longest_numeral_spaced :
    parse "\u3000007\u00a08 REM" = .ok ⟨some 7, "8 REM"⟩ ∧
      parse "7 8 REM" = .ok ⟨some 7, "8 REM"⟩ := by
  obtain ⟨_, _, hShown⟩ := number_is_longest_numeral "\u3000007\u00a08 REM"
  have hLine : parse "\u3000007\u00a08 REM" = .ok ⟨some 7, "8 REM"⟩ := by
    decide +kernel
  exact ⟨hLine, hShown _ hLine⟩

end Line
end IntegerBasic
