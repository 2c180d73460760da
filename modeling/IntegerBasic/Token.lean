import IntegerBasic.Error

/-!
# Tokens

**Definitions.**  A `Token` is a maximal stretch of characters of one class: blanks, digits, an
identifier, a single operator or parenthesis, or a run of characters that mean nothing.
`Token.chars` is the text a token is shown as.  A `Lexeme` is a token in its place.

**Results.**
* `chars_of_ofChar?`: a one-character token is shown as its character.
* `map_token_lexemes`: places do not change which tokens there are.
-/

namespace IntegerBasic

/-- The operators, arithmetic and relational. -/
inductive Operator where
  | plus
  | minus
  | star
  | slash
  | equal
  | less
  | greater
deriving DecidableEq

/-- The character that an operator is written with. -/
def Operator.toChar : Operator → Char
  | plus => '+'
  | minus => '-'
  | star => '*'
  | slash => '/'
  | equal => '='
  | less => '<'
  | greater => '>'

/-- The smallest pieces of a statement. -/
inductive Token where
  | unknown (text : String)
  | blank (width : Nat)
  | literal (digits : String)
  | ident (name : String)
  | operator (op : Operator)
  | leftParen
  | rightParen
deriving DecidableEq

namespace Token

/-- The characters a token is shown as; blanks of any kind are shown as spaces. -/
def chars : Token → List Char
  | unknown text => text.toList
  | blank width => List.replicate width ' '
  | literal digits => digits.toList
  | ident name => name.toList
  | operator op => [op.toChar]
  | leftParen => ['(']
  | rightParen => [')']

/-- The text a token is shown as. -/
def text (t : Token) : String :=
  String.ofList t.chars

/-- How many characters a token takes. -/
def width (t : Token) : Nat :=
  t.chars.length

/-- Blanks separate tokens and mean nothing themselves. -/
def isBlank : Token → Bool
  | blank _ => true
  | _ => false

/-- The token that a character is on its own, wherever it stands. -/
def ofChar? : Char → Option Token
  | '(' => some leftParen
  | ')' => some rightParen
  | '+' => some (operator .plus)
  | '-' => some (operator .minus)
  | '*' => some (operator .star)
  | '/' => some (operator .slash)
  | '=' => some (operator .equal)
  | '<' => some (operator .less)
  | '>' => some (operator .greater)
  | _ => none

/-- A one-character token is shown as its character. -/
theorem chars_of_ofChar?
    {c : Char} {t : Token}
    (h : ofChar? c = some t) :
    t.chars = [c] := by
  unfold ofChar? at h
  split at h <;> simp_all <;> subst h <;> rfl

end Token

/-- A token and the columns it stands in. -/
structure Lexeme where
  token : Token
  column : Column
deriving DecidableEq

/-- The tokens in their places, without the blanks; `offset` is the place of the first character. -/
def lexemes (offset : Nat) : List Token → List Lexeme
  | [] => []
  | t :: ts =>
      let stop := offset + t.width
      if t.isBlank then lexemes stop ts
      else ⟨t, ⟨offset, stop⟩⟩ :: lexemes stop ts

/-- Places do not change which tokens there are. -/
theorem map_token_lexemes
    (offset : Nat) (ts : List Token) :
    (lexemes offset ts).map Lexeme.token = ts.filter fun t => !t.isBlank := by
  induction ts generalizing offset with
  | nil => rfl
  | cons t ts ih => cases h : t.isBlank <;> simp [lexemes, h, ih]

end IntegerBasic
