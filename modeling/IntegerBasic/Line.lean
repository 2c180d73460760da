import IntegerBasic.Error
import IntegerBasic.Text.Blank
import IntegerBasic.Text.Numeral

/-!
# Lines of input

**Input.**  A line as it was typed.

**Rule.**  A line that starts with an ASCII digit, white space apart, is numbered: its longest
string of digits is the number, which has to lie between 1 and 4294967295, and the trimmed rest
is the text.  Any other line is direct and all text.

**Results.**
* `parse_eq_direct_iff`, `parse_eq_numbered_iff`: what the number and the text of a line are.
-/

namespace IntegerBasic

/-- The greatest number a line can have. -/
def greatestLineNumber : LineNumber :=
  4294967295

/-- A line of input, cut into its number and its text. -/
structure Line where
  number : Option LineNumber
  text : String
deriving DecidableEq

namespace Line

/-- A line without a number is meant to be executed at once. -/
def isDirect (l : Line) : Bool :=
  l.number.isNone

/-- A numbered line may have no text. -/
def isEmpty (l : Line) : Bool :=
  l.text.isEmpty

/-- The number and the text of a line that starts with digits. -/
def parseNumbered (digits rest : List Char) : Except Error Line :=
  let n := Nat.ofDigitChars 10 digits 0
  if 1 ≤ n ∧ n ≤ greatestLineNumber then
    .ok ⟨some n, String.ofList (Text.trim rest)⟩
  else
    .error SyntaxFault.invalidLineNumber.error

/-- The number and the text of a line. -/
def parse (s : String) : Except Error Line :=
  let text := Text.trim s.toList
  match text.takeWhile Char.isDigit with
  | [] => .ok ⟨none, String.ofList text⟩
  | digits => parseNumbered digits (text.dropWhile Char.isDigit)

/-- The line as it is shown: a number is followed by one space, even if there is no text. -/
def render (l : Line) : String :=
  match l.number with
  | some n => toString n ++ " " ++ l.text
  | none => l.text

theorem parseNumbered_eq_ok_iff
    {digits rest : List Char} {l : Line} :
    parseNumbered digits rest = .ok l ↔
      (1 ≤ Nat.ofDigitChars 10 digits 0 ∧ Nat.ofDigitChars 10 digits 0 ≤ greatestLineNumber) ∧
      l = ⟨some (Nat.ofDigitChars 10 digits 0), String.ofList (Text.trim rest)⟩ := by
  by_cases h : 1 ≤ Nat.ofDigitChars 10 digits 0 ∧ Nat.ofDigitChars 10 digits 0 ≤ greatestLineNumber
  · simp [parseNumbered, h, eq_comm]
  · simp [parseNumbered, h]

/-- A direct line does not start with a digit, and it is all text. -/
theorem parse_eq_direct_iff
    {s text : String} :
    parse s = .ok ⟨none, text⟩ ↔
      Text.trim s.toList = text.toList ∧ text.toList.takeWhile Char.isDigit = [] := by
  rw [parse]
  split
  · next hDigits =>
      rw [Except.ok.injEq, Line.mk.injEq, ← String.toList_inj, String.toList_ofList]
      constructor
      · rintro ⟨_, hText⟩
        exact ⟨hText, hText ▸ hDigits⟩
      · rintro ⟨hText, _⟩
        exact ⟨rfl, hText⟩
  · next hDigits =>
      rw [parseNumbered_eq_ok_iff]
      constructor
      · rintro ⟨_, hLine⟩
        cases hLine
      · rintro ⟨hText, hNone⟩
        exact absurd (hText ▸ hNone) hDigits

/-- A numbered line starts with the digits of its number, and the trimmed rest is its text. -/
theorem parse_eq_numbered_iff
    {s text : String} {n : LineNumber} :
    parse s = .ok ⟨some n, text⟩ ↔
      ∃ digits rest, Text.trim s.toList = digits ++ rest ∧
        digits ≠ [] ∧ (∀ c ∈ digits, c.isDigit) ∧ (∀ c ∈ rest.head?, c.isDigit = false) ∧
        (1 ≤ n ∧ n ≤ greatestLineNumber) ∧ Nat.ofDigitChars 10 digits 0 = n ∧
        Text.trim rest = text.toList := by
  constructor
  · intro h
    rw [parse] at h
    split at h
    · cases h
    · next hDigits =>
        rw [parseNumbered_eq_ok_iff, Line.mk.injEq, Option.some_inj] at h
        obtain ⟨hBounds, hNumber, hText⟩ := h
        refine ⟨_, _, List.takeWhile_append_dropWhile.symm, hDigits, ?_, ?_, hNumber ▸ hBounds,
          hNumber.symm, ?_⟩
        · exact List.all_eq_true.mp List.all_takeWhile
        · intro c hc
          have hNot := List.head?_dropWhile_not Char.isDigit (Text.trim s.toList)
          simpa [Option.mem_def.mp hc] using hNot
        · rw [hText, String.toList_ofList]
  · rintro ⟨digits, rest, hTyped, hNonempty, hDigits, hRest, hBounds, rfl, hText⟩
    have hTyped₁ : (Text.trim s.toList).takeWhile Char.isDigit = digits := by
      rw [hTyped, Text.takeWhile_isDigit_append hDigits hRest]
    have hTyped₂ : (Text.trim s.toList).dropWhile Char.isDigit = rest := by
      rw [hTyped, Text.dropWhile_isDigit_append hDigits hRest]
    rw [parse]
    split
    · next hNone => exact absurd (hTyped₁.symm.trans hNone) hNonempty
    · rw [hTyped₁, hTyped₂, parseNumbered_eq_ok_iff]
      exact ⟨hBounds, by rw [hText, String.ofList_toList]⟩

end Line
end IntegerBasic
