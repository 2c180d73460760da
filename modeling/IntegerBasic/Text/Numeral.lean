/-!
# Decimal numerals

A string of ASCII digits denotes a number in the usual way, whatever its length and however many
zeros it starts with: this is `Nat.ofDigitChars 10`.

**Definitions.**  `unsigned?` reads a text that consists of digits alone; `signed?` allows one sign
in front of them.  `SpellsInt` says without reading which texts are integers with a sign, and which
integers they are.

**Results.**
* `takeWhile_isDigit_append`, `dropWhile_isDigit_append`: where a numeral ends in a text.
* `unsigned?_eq_some_iff`: exactly the non-empty texts of digits are read.
* `signed?_eq_some_iff`: exactly the texts that spell an integer are read.
-/

namespace IntegerBasic
namespace Text

/-- Reads a non-empty text of ASCII digits. -/
def unsigned? (text : List Char) : Option Nat :=
  if text ≠ [] ∧ text.all Char.isDigit then some (Nat.ofDigitChars 10 text 0) else none

/-- Reads a non-empty text of ASCII digits with at most one sign in front of it. -/
def signed? : List Char → Option Int
  | '+' :: digits => (unsigned? digits).map fun n => (n : Int)
  | '-' :: digits => (unsigned? digits).map fun n => -(n : Int)
  | digits => (unsigned? digits).map fun n => (n : Int)

/-- The text is at most one sign and then at least one ASCII digit, and the integer is what the
digits denote, with that sign. -/
inductive SpellsInt : List Char → Int → Prop
  | bare {digits : List Char} :
      digits ≠ [] →
      digits.all Char.isDigit →
      SpellsInt digits (Nat.ofDigitChars 10 digits 0)
  | plus {digits : List Char} :
      digits ≠ [] →
      digits.all Char.isDigit →
      SpellsInt ('+' :: digits) (Nat.ofDigitChars 10 digits 0)
  | minus {digits : List Char} :
      digits ≠ [] →
      digits.all Char.isDigit →
      SpellsInt ('-' :: digits) (-(Nat.ofDigitChars 10 digits 0 : Int))

section EndOfNumeral

variable {digits rest : List Char}

/-- The digits at the beginning of a text end where something else begins. -/
theorem takeWhile_isDigit_append
    (hDigits : ∀ c ∈ digits, c.isDigit) (hRest : ∀ c ∈ rest.head?, c.isDigit = false) :
    (digits ++ rest).takeWhile Char.isDigit = digits := by
  have hNone : rest.takeWhile Char.isDigit = [] := by
    cases rest with
    | nil => rfl
    | cons c cs => simp [hRest c rfl]
  rw [List.takeWhile_append_of_pos hDigits, hNone, List.append_nil]

theorem dropWhile_isDigit_append
    (hDigits : ∀ c ∈ digits, c.isDigit) (hRest : ∀ c ∈ rest.head?, c.isDigit = false) :
    (digits ++ rest).dropWhile Char.isDigit = rest := by
  have hText : (digits ++ rest).takeWhile Char.isDigit ++ (digits ++ rest).dropWhile Char.isDigit =
      digits ++ rest := List.takeWhile_append_dropWhile
  rw [takeWhile_isDigit_append hDigits hRest] at hText
  exact List.append_cancel_left hText

end EndOfNumeral

theorem unsigned?_eq_some_iff
    {text : List Char} {n : Nat} :
    unsigned? text = some n ↔
      text ≠ [] ∧ text.all Char.isDigit ∧ Nat.ofDigitChars 10 text 0 = n := by
  by_cases h : text ≠ [] ∧ text.all Char.isDigit
  · simp [unsigned?, h]
  · simp only [unsigned?, if_neg h, reduceCtorEq, false_iff]
    exact fun hAll => h ⟨hAll.1, hAll.2.1⟩

theorem unsigned?_of_digits
    {digits : List Char}
    (hNotNil : digits ≠ []) (hDigits : digits.all Char.isDigit) :
    unsigned? digits = some (Nat.ofDigitChars 10 digits 0) :=
  unsigned?_eq_some_iff.mpr ⟨hNotNil, hDigits, rfl⟩

/-- Whatever becomes of the number read, it is that of a non-empty text of digits. -/
theorem digits_of_map_unsigned?
    {digits : List Char} {f : Int → Int} {i : Int}
    (h : (unsigned? digits).map (fun n => f n) = some i) :
    digits ≠ [] ∧ digits.all Char.isDigit ∧ f (Nat.ofDigitChars 10 digits 0) = i := by
  obtain ⟨_, hRead, hResult⟩ := Option.map_eq_some_iff.mp h
  obtain ⟨n, hDigits, hEq⟩ := Option.bind_eq_some_iff.mp hRead
  cases hEq
  obtain ⟨hNotNil, hAll, rfl⟩ := unsigned?_eq_some_iff.mp hDigits
  exact ⟨hNotNil, hAll, hResult⟩

/-- A text of digits has no sign to be read. -/
theorem signed?_of_digits
    {digits : List Char}
    (hNotNil : digits ≠ []) (hDigits : digits.all Char.isDigit) :
    signed? digits = some (Nat.ofDigitChars 10 digits 0) := by
  unfold signed?
  split
  · contradiction
  · contradiction
  · rw [unsigned?_of_digits hNotNil hDigits]
    rfl

/-- Exactly the texts that spell an integer are read. -/
theorem signed?_eq_some_iff
    {text : List Char} {i : Int} :
    signed? text = some i ↔ SpellsInt text i := by
  constructor
  · intro h
    -- Only the text without a sign is left whole; the digits of the others follow the sign.
    unfold signed? at h
    split at h
    · obtain ⟨hNotNil, hDigits, rfl⟩ := digits_of_map_unsigned? h
      exact .plus hNotNil hDigits
    · obtain ⟨hNotNil, hDigits, rfl⟩ := digits_of_map_unsigned? h
      exact .minus hNotNil hDigits
    · obtain ⟨hNotNil, hDigits, rfl⟩ := digits_of_map_unsigned? h
      exact .bare hNotNil hDigits
  · intro h
    cases h with
    | bare hNotNil hDigits => exact signed?_of_digits hNotNil hDigits
    | plus hNotNil hDigits | minus hNotNil hDigits =>
        rw [signed?, unsigned?_of_digits hNotNil hDigits]
        rfl

end Text
end IntegerBasic
