import IntegerBasic.Token

/-!
# Splitting a text into tokens

**Input.**  Any list of characters.

**Algorithm.**  The first character starts a token.  Each further character either extends the
token under construction or ends it and starts the next one.  What extends a token depends on its
class alone: blanks take blanks, literals take digits, identifiers take letters, digits and
underscores, and an unknown run takes every character that could not start a token of another
class.

**Results.**
* `flatMap_chars_lex`: the tokens together are shown as the text, with spaces for its tabs.
* `length_flatMap_lex`: and so they are as long as the text.
-/

namespace IntegerBasic
namespace Token

/-- The characters that separate tokens. -/
def isBlankChar (c : Char) : Bool :=
  c == ' ' || c == '\t'

/-- The characters that an identifier may contain after its first letter. -/
def isNameChar (c : Char) : Bool :=
  c.isAlpha || c.isDigit || c == '_'

/-- The characters that belong to no token but an unknown run or, the underscore alone, the
inside of an identifier. -/
def isUnknownChar (c : Char) : Bool :=
  !c.isAlpha && !c.isDigit && !isBlankChar c && (ofChar? c).isNone

/-- The token that a character starts. -/
def start (c : Char) : Token :=
  if isBlankChar c then blank 1
  else if c.isDigit then literal (String.singleton c)
  else if c.isAlpha then ident (String.singleton c)
  else (ofChar? c).getD (unknown (String.singleton c))

/-- The token with one more character, if the character belongs to it. -/
def extend? (t : Token) (c : Char) : Option Token :=
  match t with
  | unknown text => if isUnknownChar c then some (unknown (text.push c)) else none
  | blank width => if isBlankChar c then some (blank (width + 1)) else none
  | literal digits => if c.isDigit then some (literal (digits.push c)) else none
  | ident name => if isNameChar c then some (ident (name.push c)) else none
  | operator _ | leftParen | rightParen => none

/-- The tokens of a text that goes on after an unfinished token. -/
def lexFrom (t : Token) : List Char → List Token
  | [] => [t]
  | c :: cs =>
      match t.extend? c with
      | some t' => lexFrom t' cs
      | none => t :: lexFrom (start c) cs

end Token

/-- The tokens of a text. -/
def lex : List Char → List Token
  | [] => []
  | c :: cs => Token.lexFrom (Token.start c) cs

namespace Token

section Characters

variable {c : Char}

theorem isBlankChar_of_isNameChar
    (h : isNameChar c = true) :
    isBlankChar c = false := by
  cases hBlank : isBlankChar c with
  | false => rfl
  | true =>
      rw [isBlankChar, Bool.or_eq_true, beq_iff_eq, beq_iff_eq] at hBlank
      rcases hBlank with rfl | rfl <;> contradiction

theorem isNameChar_of_isDigit
    (h : c.isDigit = true) :
    isNameChar c = true := by
  simp [isNameChar, h]

theorem isNameChar_of_isAlpha
    (h : c.isAlpha = true) :
    isNameChar c = true := by
  simp [isNameChar, h]

theorem isBlankChar_of_isUnknownChar
    (h : isUnknownChar c = true) :
    isBlankChar c = false := by
  simp only [isUnknownChar, Bool.and_eq_true, Bool.not_eq_true'] at h
  exact h.1.2

theorem isBlankChar_of_ofChar?
    {t : Token}
    (h : ofChar? c = some t) :
    isBlankChar c = false := by
  unfold ofChar? at h
  split at h <;> first | rfl | cases h

/-- Each character starts a token of its class. -/
theorem start_cases
    (c : Char) :
    (isBlankChar c = true ∧ start c = blank 1) ∨
    (c.isDigit = true ∧ start c = literal (String.singleton c)) ∨
    (c.isAlpha = true ∧ start c = ident (String.singleton c)) ∨
    ofChar? c = some (start c) ∨
    (isUnknownChar c = true ∧ start c = unknown (String.singleton c)) := by
  cases hBlank : isBlankChar c with
  | true => simp [start, hBlank]
  | false =>
      cases hDigit : c.isDigit with
      | true => simp [start, hBlank, hDigit]
      | false =>
          cases hAlpha : c.isAlpha with
          | true => simp [start, hBlank, hDigit, hAlpha]
          | false =>
              cases hOwn : ofChar? c <;>
                simp [start, isUnknownChar, hBlank, hDigit, hAlpha, hOwn]

end Characters

section Shown

/-- How a character is shown: blanks of any kind are shown as spaces. -/
def shownAs (c : Char) : Char :=
  if isBlankChar c then ' ' else c

theorem shownAs_eq_self
    {c : Char}
    (h : isBlankChar c = false) :
    shownAs c = c := by
  simp [shownAs, h]

/-- The token that a character starts is shown as this character. -/
theorem chars_start
    (c : Char) :
    (start c).chars = [shownAs c] := by
  rcases start_cases c with
    ⟨hBlank, hStart⟩ | ⟨hDigit, hStart⟩ | ⟨hAlpha, hStart⟩ | hOwn | ⟨hUnknown, hStart⟩
  · simp [hStart, chars, shownAs, hBlank]
  · have hBlank := isBlankChar_of_isNameChar (isNameChar_of_isDigit hDigit)
    simp [hStart, chars, shownAs_eq_self hBlank]
  · have hBlank := isBlankChar_of_isNameChar (isNameChar_of_isAlpha hAlpha)
    simp [hStart, chars, shownAs_eq_self hBlank]
  · rw [chars_of_ofChar? hOwn, shownAs_eq_self (isBlankChar_of_ofChar? hOwn)]
  · have hBlank := isBlankChar_of_isUnknownChar hUnknown
    simp [hStart, chars, shownAs_eq_self hBlank]

/-- A token is shown with each character that is added to it. -/
theorem chars_extend?
    {t t' : Token} {c : Char}
    (h : t.extend? c = some t') :
    t'.chars = t.chars ++ [shownAs c] := by
  cases t <;> simp only [extend?, reduceCtorEq, Option.ite_none_right_eq_some,
    Option.some_inj] at h <;> obtain ⟨hc, rfl⟩ := h
  case unknown =>
    simp [chars, shownAs_eq_self (isBlankChar_of_isUnknownChar hc)]
  case blank => simp [chars, shownAs, hc, List.replicate_succ']
  case literal =>
    simp [chars, shownAs_eq_self (isBlankChar_of_isNameChar (isNameChar_of_isDigit hc))]
  case ident => simp [chars, shownAs_eq_self (isBlankChar_of_isNameChar hc)]

theorem width_start
    (c : Char) :
    (start c).width = 1 := by
  simp [width, chars_start]

theorem width_extend?
    {t t' : Token} {c : Char}
    (h : t.extend? c = some t') :
    t'.width = t.width + 1 := by
  simp [width, chars_extend? h]

theorem flatMap_chars_lexFrom
    (t : Token) (cs : List Char) :
    (lexFrom t cs).flatMap chars = t.chars ++ cs.map shownAs := by
  induction cs generalizing t with
  | nil => simp [lexFrom]
  | cons c cs ih =>
      cases h : t.extend? c with
      | some t' => simp [lexFrom, h, ih, chars_extend? h]
      | none => simp [lexFrom, h, ih, chars_start]

end Shown

end Token

/-- The tokens together are shown as the text, apart from its blanks. -/
theorem flatMap_chars_lex
    (cs : List Char) :
    (lex cs).flatMap Token.chars = cs.map Token.shownAs := by
  cases cs with
  | nil => rfl
  | cons c cs =>
      rw [lex, Token.flatMap_chars_lexFrom, Token.chars_start]
      rfl

/-- The tokens together are as long as the text. -/
theorem length_flatMap_lex
    (cs : List Char) :
    ((lex cs).flatMap Token.chars).length = cs.length := by
  rw [flatMap_chars_lex, List.length_map]

end IntegerBasic
