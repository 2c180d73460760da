import IntegerBasic.Expr
import IntegerBasic.Text.Fragment
import IntegerBasic.Text.Numeral
import IntegerBasic.Token.Lexer

/-!
# Parsing expressions

**Input.**  The lexemes of a text.

**Grammar.**  From the loosest to the tightest: assignment `name = e`, which associates to the
right; sums and differences; products and quotients, which all associate to the left; unary minus;
numbers, names and parentheses.

**Algorithm.**  The parser shifts and reduces.  Its state is the stack of constructs that are
still open, innermost first, and either waits for an operand or has just completed one.  Each
lexeme makes one step.  A lexeme that follows an operand first closes every construct that binds
at least as tightly as the lexeme does (`settle`); then it opens a construct, or closes a group,
or is an error.  Every lexeme is seen exactly once, so parsing ends, and an error always blames
the lexeme at hand, or no lexeme when the text ends too early.  The one exception is an assignment
to something that is no variable: it is noticed when the assignment is closed, and blames its `=`.

**Results.**
* `suffix_of_settle`: closing constructs takes them off the stack and leaves the rest alone.
* `level_lt_of_settle`: what stays open binds more loosely than the floor.
* `literalValue?_eq_some_iff`: which literals are numbers, and which numbers they are.
-/

namespace IntegerBasic
namespace Expr

/-- A construct whose last operand is still being read. -/
inductive Frame where
  | group
  | minus (column : Column)
  | binary (column : Column) (op : BinaryOp) (lhs : Expr)
  | assign (column : Column) (lhs : Expr)
deriving DecidableEq

end Expr

/-- How tightly an operation binds: products and quotients more than sums and differences. -/
def BinaryOp.level : BinaryOp → Nat
  | add | subtract => 2
  | multiply | divide => 3

/-- The arithmetic operation that an operator stands for between two operands. -/
def Operator.binaryOp? : Operator → Option BinaryOp
  | plus => some .add
  | minus => some .subtract
  | star => some .multiply
  | slash => some .divide
  | equal | less | greater => none

namespace Expr
namespace Frame

/-- How tightly an open construct binds.  A group is closed by its parenthesis only. -/
def level : Frame → Nat
  | group => 0
  | assign .. => 1
  | binary _ op _ => op.level
  | minus _ => 4

/-- The tree of the construct, its last operand being complete.  Only a variable can be assigned
to. -/
def close (operand : Expr) : Frame → Except Error Expr
  | group => .ok operand
  | minus c => .ok (.negation c operand)
  | binary c op lhs => .ok (.binary c op lhs operand)
  | assign c (.var _ x) => .ok (.assign c x operand)
  | assign c _ => .error (SyntaxFault.expectedVariable.errorIn c)

end Frame

/-- Closes the innermost constructs, as long as they bind at least as tightly as `floor`. -/
def settle (floor : Nat) : List Frame → Expr → Except Error (List Frame × Expr)
  | [], e => .ok ([], e)
  | f :: frames, e =>
      if floor ≤ f.level then do
        settle floor frames (← f.close e)
      else
        .ok (f :: frames, e)

theorem suffix_of_settle
    {floor : Nat} {frames frames' : List Frame} {e e' : Expr}
    (h : settle floor frames e = .ok (frames', e')) :
    frames' <:+ frames := by
  induction frames generalizing e with
  | nil => simp_all [settle]
  | cons f frames ih =>
      by_cases hLevel : floor ≤ f.level
      · rw [settle, if_pos hLevel] at h
        cases hClose : f.close e with
        | error => simp [hClose, bind, Except.bind] at h
        | ok closed =>
            rw [hClose] at h
            exact (ih h).trans (List.suffix_cons f frames)
      · rw [settle, if_neg hLevel] at h
        simp only [Except.ok.injEq, Prod.mk.injEq] at h
        exact h.1 ▸ List.suffix_rfl

theorem level_lt_of_settle
    {floor : Nat} {frames frames' : List Frame} {e e' : Expr}
    (h : settle floor frames e = .ok (frames', e')) :
    ∀ f ∈ frames'.head?, f.level < floor := by
  induction frames generalizing e with
  | nil => simp_all [settle]
  | cons f frames ih =>
      by_cases hLevel : floor ≤ f.level
      · rw [settle, if_pos hLevel] at h
        cases hClose : f.close e with
        | error => simp [hClose, bind, Except.bind] at h
        | ok closed =>
            rw [hClose] at h
            exact ih h
      · rw [settle, if_neg hLevel] at h
        simp only [Except.ok.injEq, Prod.mk.injEq] at h
        rw [← h.1]
        simpa using hLevel

/-- What the parser has read so far: the open constructs, and the last operand once it is
complete. -/
inductive Progress where
  | wanting (frames : List Frame)
  | holding (frames : List Frame) (operand : Expr)

/-- The value of a literal, unless it is too large. -/
def literalValue? (digits : String) : Option Value :=
  Value.ofInt? (Nat.ofDigitChars 10 digits.toList 0)

/-- Of the numbers without a sign, those up to 2147483647 are values. -/
theorem literalValue?_eq_some_iff
    {digits : String} {v : Value} :
    literalValue? digits = some v ↔
      Nat.ofDigitChars 10 digits.toList 0 ≤ 2147483647 ∧
      v.toInt = Nat.ofDigitChars 10 digits.toList 0 := by
  rw [literalValue?, Value.ofInt?_eq_some_iff]
  constructor
  · intro hValue
    have hBound : v.toInt ≤ 2147483647 := v.inRange.2
    exact ⟨by omega, hValue⟩
  · exact And.right

/-- One lexeme where an operand has to start. -/
def stepOperand (frames : List Frame) (l : Lexeme) : Except Error Progress :=
  match l.token with
  | .leftParen => .ok (.wanting (.group :: frames))
  | .operator .minus => .ok (.wanting (.minus l.column :: frames))
  | .ident name => .ok (.holding frames (.var l.column name))
  | .literal digits =>
      match literalValue? digits with
      | some v => .ok (.holding frames (.integer l.column v))
      | none => .error (SyntaxFault.numberTooLarge.errorIn l.column)
  | _ => .error (SyntaxFault.expectedExpression.errorIn l.column)

/-- The end of an expression at a lexeme that does not continue it: a closing parenthesis ends
the group around it, and anything else is an error. -/
def stepEnd (frames : List Frame) (operand : Expr) (l : Lexeme) : Except Error Progress := do
  match l.token, ← settle 1 frames operand with
  | .rightParen, (.group :: frames, e) => .ok (.holding frames e)
  | _, (.group :: _, _) => .error (SyntaxFault.expectedRightParenthesis.errorIn l.column)
  | _, _ => .error (SyntaxFault.unexpectedToken.errorIn l.column)

/-- One lexeme after a complete operand. -/
def stepOperator (frames : List Frame) (operand : Expr) (l : Lexeme) : Except Error Progress :=
  match l.token with
  | .operator .equal => do
      let (frames, e) ← settle 2 frames operand
      .ok (.wanting (.assign l.column e :: frames))
  | .operator o =>
      match o.binaryOp? with
      | some op => do
          let (frames, e) ← settle op.level frames operand
          .ok (.wanting (.binary l.column op e :: frames))
      | none => stepEnd frames operand l
  | _ => stepEnd frames operand l

/-- One step of the parser. -/
def step : Progress → Lexeme → Except Error Progress
  | .wanting frames, l => stepOperand frames l
  | .holding frames operand, l => stepOperator frames operand l

/-- The end of the text: the operand is complete and no group is left open. -/
def finish : Progress → Except Error Expr
  | .wanting _ => .error SyntaxFault.expectedExpression.error
  | .holding frames operand => do
      match ← settle 1 frames operand with
      | ([], e) => .ok e
      | _ => .error SyntaxFault.expectedRightParenthesis.error

/-- The expression that the lexemes spell. -/
def ofLexemes (ls : List Lexeme) : Except Error Expr := do
  finish (← ls.foldlM step (.wanting []))

/-- The expression that a fragment of a statement spells; columns count from the start of the
statement. -/
def parse (f : Fragment) : Except Error Expr :=
  ofLexemes (lexemes f.offset (lex f.chars))

end Expr
end IntegerBasic
