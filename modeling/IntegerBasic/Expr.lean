import IntegerBasic.Value

/-!
# Expressions

**Definitions.**  An `Expr` is the tree of an expression.  Each node keeps the columns of its own
token: an operator node those of the operator, not of its operands, so that errors can point at
the token to blame.  Parentheses leave no node.  An assignment is an expression whose value is the
value assigned.

`Expr.walk` lists the columns of a tree in the order in which its tokens stand in the text;
`Expr.eraseColumns` forgets them, for comparing trees up to their columns.
-/

namespace IntegerBasic

/-- Variables are known by their names. -/
abbrev Name := String

/-- The tree of an expression; each node has the columns of its own token. -/
inductive Expr where
  | integer (column : Column) (value : Value)
  | var (column : Column) (name : Name)
  | negation (column : Column) (operand : Expr)
  | binary (column : Column) (op : BinaryOp) (lhs rhs : Expr)
  | assign (column : Column) (name : Name) (rhs : Expr)
deriving DecidableEq

namespace Expr

/-- A rough division of expressions: constants, bare variables and all others. -/
inductive Kind where
  | constant
  | identifier
  | compound
deriving DecidableEq

/-- The kind of an expression is decided by its root. -/
def kind : Expr → Kind
  | integer .. => .constant
  | var .. => .identifier
  | negation .. | binary .. | assign .. => .compound

/-- The columns of the root's own token. -/
def column : Expr → Column
  | integer c _ | var c _ | negation c _ | binary c _ _ _ | assign c _ _ => c

/-- Applies a function to the columns of every node. -/
def mapColumns (f : Column → Column) : Expr → Expr
  | integer c v => integer (f c) v
  | var c x => var (f c) x
  | negation c e => negation (f c) (e.mapColumns f)
  | binary c op l r => binary (f c) op (l.mapColumns f) (r.mapColumns f)
  | assign c x e => assign (f c) x (e.mapColumns f)

/-- The tree with all its columns forgotten. -/
def eraseColumns (e : Expr) : Expr :=
  e.mapColumns fun _ => ⟨0, 0⟩

/-- The columns of all nodes, in the order in which their tokens stand in the text. -/
def walk : Expr → List Column
  | integer c _ | var c _ => [c]
  | negation c e | assign c _ e => c :: e.walk
  | binary c _ l r => l.walk ++ c :: r.walk

/-- The names read anywhere in the expression. -/
def readNames : Expr → List Name
  | integer .. => []
  | var _ x => [x]
  | negation _ e | assign _ _ e => e.readNames
  | binary _ _ l r => l.readNames ++ r.readNames

/-- The names assigned anywhere in the expression. -/
def assignedNames : Expr → List Name
  | integer .. | var .. => []
  | negation _ e => e.assignedNames
  | binary _ _ l r => l.assignedNames ++ r.assignedNames
  | assign _ x e => e.assignedNames ++ [x]

end Expr
end IntegerBasic
