import IntegerBasic.Expr.Parser

/-!
# Writing expressions

**Rule.**  An expression is written with one space around each binary operator and each `=`, none
after a unary minus, and with parentheses only where an operand binds more loosely than its place
requires.  The right operand of a sum, difference, product or quotient has to bind more tightly
than the operator, since these associate to the left; the right side of an assignment need not.

**Results.**
* `renderAt_of_le`, `renderAt_of_lt`: where parentheses are written.
-/

namespace IntegerBasic

/-- The character of an arithmetic operation. -/
def BinaryOp.toChar : BinaryOp → Char
  | add => '+'
  | subtract => '-'
  | multiply => '*'
  | divide => '/'

namespace Expr

/-- How tightly the root of an expression binds; numbers and names cannot be taken apart. -/
def level : Expr → Nat
  | assign .. => 1
  | binary _ op _ _ => op.level
  | negation .. => 4
  | integer .. | var .. => 5

/-- The text in parentheses, unless it may stand without them. -/
def parenthesize (bare : Bool) (text : String) : String :=
  if bare then text else "(" ++ text ++ ")"

/-- The text of an expression in a place that requires a level of at least `floor`. -/
def renderAt (floor : Nat) (e : Expr) : String :=
  parenthesize (decide (floor ≤ e.level)) <|
    match e with
    | integer _ v => v.render
    | var _ x => x
    | negation _ operand => "-" ++ operand.renderAt 4
    | binary _ op l r =>
        l.renderAt op.level ++ " " ++ String.singleton op.toChar ++ " " ++ r.renderAt (op.level + 1)
    | assign _ x rhs => x ++ " = " ++ rhs.renderAt 1

/-- The text of an expression. -/
def render (e : Expr) : String :=
  e.renderAt 1

theorem level_pos
    (e : Expr) :
    1 ≤ e.level := by
  cases e with
  | binary _ op => cases op <;> simp [level, BinaryOp.level]
  | integer | var | negation | assign => simp [level]

/-- A place that requires nothing more than the expression has gets no parentheses. -/
theorem renderAt_of_le
    {floor : Nat} {e : Expr}
    (h : floor ≤ e.level) :
    e.renderAt floor = e.render := by
  cases e <;> simp only [render, renderAt, parenthesize, h, level_pos, decide_true, if_true]

/-- A place that requires more gets parentheses. -/
theorem renderAt_of_lt
    {floor : Nat} {e : Expr}
    (h : e.level < floor) :
    e.renderAt floor = "(" ++ e.render ++ ")" := by
  have hNot : ¬ floor ≤ e.level := Nat.not_le.mpr h
  cases e <;> simp only [render, renderAt, parenthesize, hNot, level_pos, decide_true, if_true,
    decide_false, Bool.false_eq_true, if_false]

end Expr
end IntegerBasic
