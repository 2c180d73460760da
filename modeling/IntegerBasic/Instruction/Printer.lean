import IntegerBasic.Expr.Printer
import IntegerBasic.Instruction.Parser

/-!
# Writing instructions

**Rule.**  An instruction is written as its keyword and its clause with one space between them.  The
operands and the relation sign of a condition are set apart by single spaces as well.
-/

namespace IntegerBasic

/-- The word of a keyword as a string. -/
def Keyword.render (k : Keyword) : String :=
  String.ofList k.word

namespace Instruction

/-- The keyword that an instruction is written with. -/
def keyword : Instruction → Keyword
  | remark => .remark
  | assign _ => .assign
  | print _ => .print
  | input .. => .input
  | stop => .stop
  | jump .. => .jump
  | branch .. => .branch

/-- The text of what follows the keyword. -/
def renderClause : Instruction → String
  | remark | stop => ""
  | assign e | print e => " " ++ e.render
  | input _ x => " " ++ x
  | jump _ n => " " ++ toString n
  | branch l relation r _ n =>
      " " ++ l.render ++ " " ++ String.singleton relation.toChar ++ " " ++ r.render ++ " " ++
        String.ofList Keyword.thenWord ++ " " ++ toString n

/-- The canonical text of an instruction. -/
def render (i : Instruction) : String :=
  i.keyword.render ++ i.renderClause

end Instruction
end IntegerBasic
