import IntegerBasic.Expr

/-!
# Exact evaluation

**Definitions.**  `exact` evaluates an expression over the integers without bounds, operands from
left to right and the right side of an assignment before its binding.  It never stops: a variable
without a value counts as zero, and so does a quotient whose divisor is zero.  Beside the value it
lists a `Visit` for each node that can be at fault, in the order of evaluation, with what is wrong
there and the bindings at that moment.  So up to the first offending visit everything is exact,
and evaluation with bounds has to stop exactly there.  The operations are those of the integers
(`BinaryOp.exact`), and the bounds are written out.

**Results.**
* `onInt?_eq_exact`: the arithmetic of the evaluator is exact wherever it is defined.
* `offenceOfResult_eq_none_iff`: the results free of fault are those in range.
-/

namespace IntegerBasic

/-- Bindings of names to integers without bounds. -/
abbrev Bindings : Type :=
  Name → Option Int

/-- The bindings with a further one. -/
def Bindings.bind (env : Bindings) (x : Name) (i : Int) : Bindings :=
  fun y => if y = x then some i else env y

/-- A node as exact evaluation passes it. -/
structure Visit where
  column : Column
  offence : Option ErrorCode
  bindings : Bindings

/-- The operation on the integers.  Division drops the fraction, and by zero it gives zero. -/
def BinaryOp.exact : BinaryOp → Int → Int → Int
  | add, a, b => a + b
  | subtract, a, b => a - b
  | multiply, a, b => a * b
  | divide, a, b => a.tdiv b

/-- The arithmetic of the evaluator is exact, and undefined for a divisor zero alone. -/
theorem BinaryOp.onInt?_eq_exact
    (op : BinaryOp) (a b : Int) :
    op.onInt? a b = if op = .divide ∧ b = 0 then none else some (op.exact a b) := by
  cases op <;> simp [onInt?, exact]

namespace Expr

/-- What is wrong with a result, given that it is defined. -/
def offenceOfResult (i : Int) : Option ErrorCode :=
  if -2147483648 ≤ i ∧ i ≤ 2147483647 then none else some .overflow

/-- What is wrong with an operation: a zero divisor comes before a result out of range. -/
def offenceOfBinary (op : BinaryOp) (a b : Int) : Option ErrorCode :=
  if op = .divide ∧ b = 0 then some .divisionByZero else offenceOfResult (op.exact a b)

/-- The exact value of an expression, the bindings after it, and the nodes on the way. -/
def exact : Expr → Bindings → Int × Bindings × List Visit
  | integer _ v, env => (v.toInt, env, [])
  | var c x, env =>
      ((env x).getD 0, env, [⟨c, if (env x).isNone then some .undefinedVariable else none, env⟩])
  | negation c e, env =>
      let (i, env, visits) := e.exact env
      (-i, env, visits ++ [⟨c, offenceOfResult (-i), env⟩])
  | binary c op l r, env =>
      let (a, env, left) := l.exact env
      let (b, env, right) := r.exact env
      (op.exact a b, env, left ++ right ++ [⟨c, offenceOfBinary op a b, env⟩])
  | assign _ x e, env =>
      let (i, env, visits) := e.exact env
      (i, env.bind x i, visits)

/-- The first node at fault. -/
def firstOffence? (visits : List Visit) : Option (Visit × ErrorCode) :=
  visits.findSome? fun visit => visit.offence.map fun code => (visit, code)

/-- The results free of fault are those that a value can hold. -/
theorem offenceOfResult_eq_none_iff
    {i : Int} :
    offenceOfResult i = none ↔ InRange i := by
  simp [offenceOfResult, InRange]

end Expr
end IntegerBasic
