import IntegerBasic.Expr
import IntegerBasic.Text.Numeral
import IntegerBasic.Token

/-!
# The grammar of expressions

**Definitions.**  `Derives level ls e` says that the lexemes `ls` spell the tree `e` at a level of
the grammar.  It is written as the grammar is, one rule a constructor, and knows nothing of
parsing.

    assign         ::=  additive  |  variable "=" assign
    additive       ::=  multiplicative  |  additive ("+" | "-") multiplicative
    multiplicative ::=  unary  |  multiplicative ("*" | "/") unary
    unary          ::=  primary  |  "-" unary
    primary        ::=  name  |  number  |  "(" assign ")"

The variable in an assignment is an `additive` whose tree is a bare variable, so that it may stand
in parentheses.  A number is a string of digits of any length that denotes at most 2147483647.

**Results.**
* `Derives.ne_nil`: no expression is empty.
-/

namespace IntegerBasic
namespace Expr

/-- The nonterminals of the grammar, from the loosest to the tightest. -/
inductive Level where
  | assign
  | additive
  | multiplicative
  | unary
  | primary
deriving DecidableEq

/-- The lexemes spell the tree at a level of the grammar. -/
inductive Derives : Level → List Lexeme → Expr → Prop
  | assignOfAdditive {ls : List Lexeme} {e : Expr} :
      Derives .additive ls e →
      Derives .assign ls e
  | assign {ls rs : List Lexeme} {c d : Column} {x : Name} {rhs : Expr} :
      Derives .additive ls (.var d x) →
      Derives .assign rs rhs →
      Derives .assign (ls ++ ⟨.operator .equal, c⟩ :: rs) (.assign c x rhs)
  | additiveOfMultiplicative {ls : List Lexeme} {e : Expr} :
      Derives .multiplicative ls e →
      Derives .additive ls e
  | additive {ls rs : List Lexeme} {c : Column} {sign : Operator} {op : BinaryOp} {l r : Expr} :
      (sign, op) ∈ [(Operator.plus, BinaryOp.add), (.minus, .subtract)] →
      Derives .additive ls l →
      Derives .multiplicative rs r →
      Derives .additive (ls ++ ⟨.operator sign, c⟩ :: rs) (.binary c op l r)
  | multiplicativeOfUnary {ls : List Lexeme} {e : Expr} :
      Derives .unary ls e →
      Derives .multiplicative ls e
  | multiplicative {ls rs : List Lexeme} {c : Column} {sign : Operator} {op : BinaryOp}
      {l r : Expr} :
      (sign, op) ∈ [(Operator.star, BinaryOp.multiply), (.slash, .divide)] →
      Derives .multiplicative ls l →
      Derives .unary rs r →
      Derives .multiplicative (ls ++ ⟨.operator sign, c⟩ :: rs) (.binary c op l r)
  | unaryOfPrimary {ls : List Lexeme} {e : Expr} :
      Derives .primary ls e →
      Derives .unary ls e
  | unary {ls : List Lexeme} {c : Column} {e : Expr} :
      Derives .unary ls e →
      Derives .unary (⟨.operator .minus, c⟩ :: ls) (.negation c e)
  | name {c : Column} {x : Name} :
      Derives .primary [⟨.ident x, c⟩] (.var c x)
  | number {c : Column} {digits : String} {v : Value} :
      Nat.ofDigitChars 10 digits.toList 0 ≤ 2147483647 →
      v.toInt = Nat.ofDigitChars 10 digits.toList 0 →
      Derives .primary [⟨.literal digits, c⟩] (.integer c v)
  | group {ls : List Lexeme} {c d : Column} {e : Expr} :
      Derives .assign ls e →
      Derives .primary (⟨.leftParen, c⟩ :: ls ++ [⟨.rightParen, d⟩]) e

/-- No expression is empty. -/
theorem Derives.ne_nil
    {level : Level} {ls : List Lexeme} {e : Expr}
    (h : Derives level ls e) :
    ls ≠ [] := by
  induction h with
  | assignOfAdditive _ ih | additiveOfMultiplicative _ ih | multiplicativeOfUnary _ ih
  | unaryOfPrimary _ ih => exact ih
  | assign | additive | multiplicative | unary | name | number | group => simp

end Expr
end IntegerBasic
