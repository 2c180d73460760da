import IntegerBasic.Proofs.BlamedTokens
import IntegerBasic.Proofs.Guarded.Failure

/-!
# Tags put on the faults of expressions

While an expression is parsed, most faults are raised without a column; whoever reads the lexemes
puts the columns of the lexeme at hand on those that have none.  Two faults are raised with the
columns of a token: a number that is too large, and an assignment to something that is no variable.

**Definitions.**  The functions of the parser again, with faults as failures to which tags are put.

**Argument.**  A construct that cannot be closed is an assignment, and the fault has the columns of
its `=` already.  So it is left alone when the lexeme at hand is blamed.

**Results.**
* `step_eq`: one step puts each tag on a fault that has none of its kind.
* `parseExpr_eq`: so does the parser.
-/

namespace IntegerBasic
namespace Guarded

open IntegerBasic.Expr (Frame Progress)

variable {α β : Type}

/-- The tree of a construct, its last operand being complete. -/
def close (operand : Expr) : Frame → Guarded Expr
  | .group => .ok operand
  | .minus c => .ok (.negation c operand)
  | .binary c op lhs => .ok (.binary c op lhs operand)
  | .assign c (.var _ x) => .ok (.assign c x operand)
  | .assign c _ => .error (SyntaxFault.expectedVariable.failureIn c)

/-- Closes the innermost constructs, as long as they bind at least as tightly as `floor`. -/
def settle (floor : Nat) : List Frame → Expr → Guarded (List Frame × Expr)
  | [], e => .ok ([], e)
  | f :: frames, e =>
      if floor ≤ f.level then do
        settle floor frames (← close e f)
      else
        .ok (f :: frames, e)

/-- One lexeme where an operand has to start. -/
def stepOperand (frames : List Frame) (l : Lexeme) : Guarded Progress :=
  match l.token with
  | .leftParen => .ok (.wanting (.group :: frames))
  | .operator .minus => .ok (.wanting (.minus l.column :: frames))
  | .ident name => .ok (.holding frames (.var l.column name))
  | .literal digits =>
      match Expr.literalValue? digits with
      | some v => .ok (.holding frames (.integer l.column v))
      | none => .error (SyntaxFault.numberTooLarge.failureIn l.column)
  | _ => .error SyntaxFault.expectedExpression.failure

/-- The end of an expression at a lexeme that does not continue it. -/
def stepEnd (frames : List Frame) (operand : Expr) (l : Lexeme) : Guarded Progress := do
  match l.token, ← settle 1 frames operand with
  | .rightParen, (.group :: frames, e) => .ok (.holding frames e)
  | _, (.group :: _, _) => .error SyntaxFault.expectedRightParenthesis.failure
  | _, _ => .error SyntaxFault.unexpectedToken.failure

/-- One lexeme after a complete operand. -/
def stepOperator (frames : List Frame) (operand : Expr) (l : Lexeme) : Guarded Progress :=
  match l.token with
  | .operator .equal => do
      let (frames, e) ← settle 2 frames operand
      .ok (.wanting (.assign l.column e :: frames))
  | .operator o =>
      match o.binaryOp? with
      | some op => do
          let (frames, e) ← settle op.level frames operand
          .ok (.wanting (.binary l.column op e :: frames))
      | none => stepEnd frames operand l
  | _ => stepEnd frames operand l

/-- One step of the parser; a fault that is about no token yet is about the one at hand. -/
def step (p : Progress) (l : Lexeme) : Guarded Progress :=
  Except.mapError (Failure.blame l.column) <|
    match p with
    | .wanting frames => stepOperand frames l
    | .holding frames operand => stepOperator frames operand l

/-- The end of the text: the operand is complete and no group is left open. -/
def finish : Progress → Guarded Expr
  | .wanting _ => .error SyntaxFault.expectedExpression.failure
  | .holding frames operand => do
      match ← settle 1 frames operand with
      | ([], e) => .ok e
      | _ => .error SyntaxFault.expectedRightParenthesis.failure

/-- The expression that a text spells, which starts at the given character of its statement. -/
def parseExpr (text : String) (offset : Nat) : Guarded Expr := do
  finish (← (lexemes offset (lex text.toList)).foldlM step (.wanting []))

theorem close_eq
    (operand : Expr) (f : Frame) :
    close operand f = safe (f.close operand) := by
  cases f with
  | group | minus | binary => rfl
  | assign c lhs => cases lhs <;> rfl

theorem settle_eq
    (floor : Nat) (frames : List Frame) (e : Expr) :
    settle floor frames e = safe (Expr.settle floor frames e) := by
  induction frames generalizing e with
  | nil => rfl
  | cons f frames ih =>
      rw [settle, Expr.settle]
      split
      · rw [close_eq, safe_bind]
        exact congrArg _ (funext ih)
      · rfl

section Blaming

variable {frames : List Frame} {operand : Expr} {l : Lexeme}

theorem stepOperand_eq :
    (stepOperand frames l).mapError (Failure.blame l.column) =
      safe (Expr.stepOperand frames l) := by
  obtain ⟨t, c⟩ := l
  cases t with
  | unknown | blank | ident | leftParen | rightParen => rfl
  | operator o => cases o <;> rfl
  | literal digits =>
      simp only [stepOperand, Expr.stepOperand]
      cases Expr.literalValue? digits <;> rfl

/-- Constructs that cannot be closed have been blamed on a token already. -/
theorem mapError_blame_settle
    (floor : Nat) (f : List Frame × Expr → Guarded α) :
    (settle floor frames operand >>= f).mapError (Failure.blame l.column) =
      safe (Expr.settle floor frames operand) >>= fun settled =>
        (f settled).mapError (Failure.blame l.column) := by
  rw [settle_eq]
  cases hSettle : Expr.settle floor frames operand with
  | ok settled => rfl
  | error e =>
      obtain ⟨c, -, hColumn⟩ := Expr.settle_blames hSettle
      exact congrArg Except.error (Failure.blame_error hColumn l.column)

theorem stepEnd_eq :
    (stepEnd frames operand l).mapError (Failure.blame l.column) =
      safe (Expr.stepEnd frames operand l) := by
  rw [stepEnd, mapError_blame_settle, Expr.stepEnd, safe_bind]
  refine congrArg _ (funext fun settled => ?_)
  obtain ⟨frames, e⟩ := settled
  obtain ⟨t, c⟩ := l
  rcases frames with _ | ⟨_ | _ | _ | _, frames⟩ <;> cases t <;> rfl

/-- An operator closes constructs and opens one. -/
theorem opening_eq
    (floor : Nat) (construct : Expr → Frame) :
    Except.mapError (Failure.blame l.column) (do
        let (frames, e) ← settle floor frames operand
        .ok (.wanting (construct e :: frames))) =
      safe (do
        let (frames, e) ← Expr.settle floor frames operand
        .ok (Progress.wanting (construct e :: frames))) := by
  rw [mapError_blame_settle, safe_bind]
  rfl

theorem stepOperator_eq :
    (stepOperator frames operand l).mapError (Failure.blame l.column) =
      safe (Expr.stepOperator frames operand l) := by
  obtain ⟨t, c⟩ := l
  cases t with
  | unknown | blank | literal | ident | leftParen | rightParen => exact stepEnd_eq
  | operator o =>
      cases o with
      | less | greater => exact stepEnd_eq
      | plus | minus | star | slash => exact opening_eq _ (Frame.binary c _)
      | equal => exact opening_eq 2 (Frame.assign c)

end Blaming

/-- One step puts each tag on a fault that has none of its kind. -/
theorem step_eq
    (p : Progress) (l : Lexeme) :
    step p l = safe (Expr.step p l) := by
  cases p with
  | wanting frames => exact stepOperand_eq
  | holding frames operand => exact stepOperator_eq

theorem finish_eq
    (p : Progress) :
    finish p = safe (Expr.finish p) := by
  cases p with
  | wanting frames => rfl
  | holding frames operand =>
      rw [finish, Expr.finish, safe_bind, settle_eq]
      refine congrArg _ (funext fun settled => ?_)
      obtain ⟨frames, e⟩ := settled
      cases frames <;> rfl

/-- If no step crashes then no run does. -/
theorem foldlM_eq
    {f : β → α → Except Error β} {g : β → α → Guarded β}
    (h : ∀ b a, g b a = safe (f b a)) (as : List α) (b : β) :
    as.foldlM g b = safe (as.foldlM f b) := by
  induction as generalizing b with
  | nil => rfl
  | cons a as ih =>
      rw [List.foldlM_cons, List.foldlM_cons, safe_bind, h]
      exact congrArg _ (funext ih)

/-- An expression is parsed without a tag being put on another. -/
theorem parseExpr_eq
    (text : String) (offset : Nat) :
    parseExpr text offset = safe (Expr.parse ⟨offset, text.toList⟩) := by
  rw [parseExpr, foldlM_eq step_eq, Expr.parse, Expr.ofLexemes, safe_bind]
  exact congrArg _ (funext finish_eq)

end Guarded
end IntegerBasic
