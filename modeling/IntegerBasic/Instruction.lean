import IntegerBasic.Expr

/-!
# Instructions

**Definitions.**  An `Instruction` is what a statement does.  The columns kept in it are those of
its own operand: the variable of an `INPUT` and the target of a jump.

**Results.**
* `category_of_allowedDirect`: what may be executed outside a program never jumps or stops.
-/

namespace IntegerBasic

/-- What a statement does. -/
inductive Instruction where
  | remark
  | assign (assignment : Expr)
  | print (e : Expr)
  | input (column : Column) (name : Name)
  | stop
  | jump (column : Column) (target : LineNumber)
  | branch (lhs : Expr) (relation : Comparison) (rhs : Expr)
      (column : Column) (target : LineNumber)
deriving DecidableEq

namespace Instruction

/-- How a statement can change the flow of control: a sequential one always goes on to the next
line, a control statement may jump or stop. -/
inductive Category where
  | sequential
  | control
deriving DecidableEq

/-- The category of an instruction. -/
def category : Instruction → Category
  | remark | assign _ | print _ | input .. => .sequential
  | stop | jump .. | branch .. => .control

/-- Only assignment, output and input make sense outside a program. -/
def allowedDirect : Instruction → Bool
  | assign _ | print _ | input .. => true
  | remark | stop | jump .. | branch .. => false

/-- The line an instruction may jump to. -/
def target? : Instruction → Option LineNumber
  | jump _ n | branch _ _ _ _ n => some n
  | remark | assign _ | print _ | input .. | stop => none

/-- The expressions of an instruction, in the order in which they are evaluated. -/
def exprs : Instruction → List Expr
  | assign e | print e => [e]
  | branch l _ r _ _ => [l, r]
  | remark | input .. | stop | jump .. => []

/-- The columns of all parts of an instruction, in the order in which they stand in the text. -/
def walk : Instruction → List Column
  | remark | stop => []
  | assign e | print e => e.walk
  | input c _ | jump c _ => [c]
  | branch l _ r c _ => l.walk ++ r.walk ++ [c]

/-- The instruction with all its columns forgotten. -/
def eraseColumns : Instruction → Instruction
  | remark => remark
  | assign e => assign e.eraseColumns
  | print e => print e.eraseColumns
  | input _ x => input ⟨0, 0⟩ x
  | stop => stop
  | jump _ n => jump ⟨0, 0⟩ n
  | branch l c r _ n => branch l.eraseColumns c r.eraseColumns ⟨0, 0⟩ n

theorem category_of_allowedDirect
    {i : Instruction}
    (h : i.allowedDirect = true) :
    i.category = .sequential := by
  cases i <;> simp_all [allowedDirect, category]

end Instruction

end IntegerBasic
