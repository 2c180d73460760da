import IntegerBasic.Variables

/-!
# Evaluating expressions

**Input.**  An expression and the variables.

**Algorithm.**  Operands are evaluated from left to right.  The value of an assignment is bound
once its right side is complete.  Evaluation stops at the first fault; what was bound before stays
bound.  A fault is about the token of the node where it arises.
-/

namespace IntegerBasic

/-- A computation on the variables that may fail, and keeps their state when it does. -/
abbrev Eval (α : Type) : Type :=
  ExceptT Error (StateM Variables) α

namespace Expr

/-- The value of an expression. -/
def eval : Expr → Eval Value
  | integer _ v => pure v
  | var c x => do
      (← get).fetch x |>.mapError (Error.inColumn c)
  | negation c e => do
      let v ← e.eval
      v.negate.mapError (Error.inColumn c)
  | binary c op l r => do
      let a ← l.eval
      let b ← r.eval
      (op.apply a b).mapError (Error.inColumn c)
  | assign _ x e => do
      let v ← e.eval
      modify fun vars => vars.set x v
      pure v

end Expr
end IntegerBasic
