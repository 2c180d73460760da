import IntegerBasic.Expr.Parser
import IntegerBasic.Instruction
import IntegerBasic.Instruction.Keyword

/-!
# Parsing instructions

**Input.**  The trimmed text of one statement.

**Algorithm.**  The text is recognised by its keyword; then the clauses are parsed as
expressions.  `REM` and `END` look at nothing further.  The root of a `LET` has to be an
assignment, that of an `INPUT` a variable and that of a jump target a number.  The clause of an
`IF` is cut at its first `THEN`; the target is parsed before the condition, and the condition has
to contain exactly one relation sign.

All columns count characters from the start of the text.
-/

namespace IntegerBasic
namespace Instruction

/-- The expression that a clause spells, apart from the white space around it. -/
def clauseExpr (clause : Fragment) : Except Error Expr :=
  Expr.parse clause.trim

/-- The assignment of a `LET`. -/
def parseAssign (clause : Fragment) : Except Error Instruction := do
  match ← clauseExpr clause with
  | .assign c x e => .ok (.assign (.assign c x e))
  | e => .error (SyntaxFault.expectedAssignment.errorIn e.column)

/-- The variable of an `INPUT`. -/
def parseInput (clause : Fragment) : Except Error Instruction := do
  match ← clauseExpr clause with
  | .var c x => .ok (.input c x)
  | e => .error (SyntaxFault.expectedVariable.errorIn e.column)

/-- The target of a jump and its columns. -/
def parseTarget (clause : Fragment) : Except Error (Column × LineNumber) := do
  match ← clauseExpr clause with
  | .integer c v =>
      if 0 ≤ v.toInt then .ok (c, v.toInt.toNat)
      else .error (SyntaxFault.expectedLineNumber.errorIn c)
  | e => .error (SyntaxFault.expectedLineNumber.errorIn e.column)

/-- The condition of a branch, cut at its only relation sign. -/
def cutCondition (condition : Fragment) : Except Error (Fragment × Comparison × Fragment) :=
  match condition.cutWhere? Comparison.ofChar? with
  | none => .error SyntaxFault.noComparison.error
  | some (lhs, relation, rhs) =>
      if rhs.chars.any fun c => (Comparison.ofChar? c).isSome then
        .error SyntaxFault.multipleComparisons.error
      else
        .ok (lhs, relation, rhs)

/-- The condition and the target of an `IF`. -/
def parseBranch (clause : Fragment) : Except Error Instruction := do
  match clause.cutAt? Keyword.thenWord with
  | none => .error SyntaxFault.expectedThen.error
  | some (condition, targetClause) =>
      let (column, target) ← parseTarget targetClause
      let (lhsClause, relation, rhsClause) ← cutCondition condition
      let lhs ← clauseExpr lhsClause
      let rhs ← clauseExpr rhsClause
      .ok (.branch lhs relation rhs column target)

/-- The instruction with a keyword and the clause it governs. -/
def ofClause (k : Keyword) (clause : Fragment) : Except Error Instruction :=
  match k with
  | .remark => .ok .remark
  | .assign => parseAssign clause
  | .print => do .ok (.print (← clauseExpr clause))
  | .input => parseInput clause
  | .stop => .ok .stop
  | .jump => do
      let (column, target) ← parseTarget clause
      .ok (.jump column target)
  | .branch => parseBranch clause

/-- The instruction that a text spells. -/
def parse (text : List Char) : Except Error Instruction :=
  match Keyword.classify? (.whole text) with
  | none => .error SyntaxFault.unrecognizedStatement.error
  | some (k, clause) => ofClause k clause

end Instruction

end IntegerBasic
