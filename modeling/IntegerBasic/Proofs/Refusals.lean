import IntegerBasic.Line
import IntegerBasic.Proofs.Outcome
import IntegerBasic.Statement

/-!
# What the parsers refuse

**Definition.**  `Refuses x` says that the computation `x` fails, if it does, with a syntax error
that has one of the known explanations and no line number.  Sequences inherit it from their parts,
and so it is shown of the parser of expressions step by step, and then of those of instructions,
statements and lines.

**Results.**
* `Expr.refuses_ofLexemes`, `Instruction.refuses_parse`, `Statement.refuses_parse`,
  `Line.refuses_parse`: nothing but syntax errors comes from parsing.
-/

namespace IntegerBasic

/-- The error is a syntax error with one of the known explanations.  It may be about certain
characters, and it has no line number. -/
def Error.IsSyntaxFault (e : Error) : Prop :=
  ∃ (fault : SyntaxFault) (column : Option Column), e = { fault.error with column := column }

namespace Error.IsSyntaxFault

variable {e : Error}

theorem code_eq
    (h : e.IsSyntaxFault) :
    e.code = .syntaxError := by
  obtain ⟨fault, column, rfl⟩ := h
  rfl

theorem line_eq_none
    (h : e.IsSyntaxFault) :
    e.line = none := by
  obtain ⟨fault, column, rfl⟩ := h
  rfl

end Error.IsSyntaxFault

/-- If the computation fails, then with a syntax error. -/
def Refuses {α : Type} (x : Except Error α) : Prop :=
  ∀ e, x = .error e → e.IsSyntaxFault

section Refuses

variable {α β : Type}

theorem refuses_ok
    (a : α) :
    Refuses (.ok a) := by
  intro e h
  cases h

theorem refuses_fault
    (fault : SyntaxFault) :
    Refuses (.error fault.error : Except Error α) := by
  intro e h
  cases h
  exact ⟨fault, none, rfl⟩

theorem refuses_faultIn
    (fault : SyntaxFault) (column : Column) :
    Refuses (.error (fault.errorIn column) : Except Error α) := by
  intro e h
  cases h
  exact ⟨fault, some column, rfl⟩

theorem Refuses.bind
    {x : Except Error α} {f : α → Except Error β}
    (hx : Refuses x) (hf : ∀ a, Refuses (f a)) :
    Refuses (x >>= f) := by
  intro e h
  rcases bind_eq_error_iff.mp h with hFirst | ⟨a, _, hRest⟩
  · exact hx e hFirst
  · exact hf a e hRest

end Refuses

namespace Expr

theorem refuses_close
    (operand : Expr) (f : Frame) :
    Refuses (f.close operand) := by
  cases f with
  | group | minus | binary => exact refuses_ok _
  | assign c lhs =>
      cases lhs with
      | var => exact refuses_ok _
      | integer | negation | binary | assign => exact refuses_faultIn _ c

theorem refuses_settle
    (floor : Nat) (frames : List Frame) (e : Expr) :
    Refuses (settle floor frames e) := by
  induction frames generalizing e with
  | nil => exact refuses_ok _
  | cons f frames ih =>
      rw [settle]
      split
      · exact (refuses_close e f).bind ih
      · exact refuses_ok _

theorem refuses_stepOperand
    (frames : List Frame) (l : Lexeme) :
    Refuses (stepOperand frames l) := by
  unfold stepOperand
  split
  · exact refuses_ok _
  · exact refuses_ok _
  · exact refuses_ok _
  · split
    · exact refuses_ok _
    · exact refuses_faultIn _ _
  · exact refuses_faultIn _ _

theorem refuses_stepEnd
    (frames : List Frame) (e : Expr) (l : Lexeme) :
    Refuses (stepEnd frames e l) := by
  refine (refuses_settle 1 frames e).bind fun closed => ?_
  split
  · exact refuses_ok _
  · exact refuses_faultIn _ _
  · exact refuses_faultIn _ _

theorem refuses_stepOperator
    (frames : List Frame) (e : Expr) (l : Lexeme) :
    Refuses (stepOperator frames e l) := by
  unfold stepOperator
  split
  · exact (refuses_settle 2 frames e).bind fun _ => refuses_ok _
  · split
    · next op _ => exact (refuses_settle op.level frames e).bind fun _ => refuses_ok _
    · exact refuses_stepEnd frames e l
  · exact refuses_stepEnd frames e l

theorem refuses_step
    (p : Progress) (l : Lexeme) :
    Refuses (step p l) := by
  cases p with
  | wanting frames => exact refuses_stepOperand frames l
  | holding frames e => exact refuses_stepOperator frames e l

theorem refuses_foldlM_step
    (ls : List Lexeme) (p : Progress) :
    Refuses (ls.foldlM step p) := by
  induction ls generalizing p with
  | nil => exact refuses_ok p
  | cons l ls ih =>
      rw [List.foldlM_cons]
      exact (refuses_step p l).bind ih

theorem refuses_finish
    (p : Progress) :
    Refuses (finish p) := by
  cases p with
  | wanting frames => exact refuses_fault _
  | holding frames e =>
      refine (refuses_settle 1 frames e).bind fun closed => ?_
      split
      · exact refuses_ok _
      · exact refuses_fault _

/-- Whatever lexemes are refused, it is for a syntax error. -/
theorem refuses_ofLexemes
    (ls : List Lexeme) :
    Refuses (ofLexemes ls) :=
  (refuses_foldlM_step ls _).bind refuses_finish

theorem refuses_parse
    (f : Fragment) :
    Refuses (parse f) :=
  refuses_ofLexemes _

end Expr

namespace Instruction

theorem refuses_parseAssign
    (clause : Fragment) :
    Refuses (parseAssign clause) := by
  refine (Expr.refuses_parse clause.trim).bind fun e => ?_
  split
  · exact refuses_ok _
  · exact refuses_faultIn _ _

theorem refuses_parseInput
    (clause : Fragment) :
    Refuses (parseInput clause) := by
  refine (Expr.refuses_parse clause.trim).bind fun e => ?_
  split
  · exact refuses_ok _
  · exact refuses_faultIn _ _

theorem refuses_parseTarget
    (clause : Fragment) :
    Refuses (parseTarget clause) := by
  refine (Expr.refuses_parse clause.trim).bind fun e => ?_
  split
  · split
    · exact refuses_ok _
    · exact refuses_faultIn _ _
  · exact refuses_faultIn _ _

theorem refuses_cutCondition
    (condition : Fragment) :
    Refuses (cutCondition condition) := by
  unfold cutCondition
  split
  · exact refuses_fault _
  · split
    · exact refuses_fault _
    · exact refuses_ok _

theorem refuses_parseBranch
    (clause : Fragment) :
    Refuses (parseBranch clause) := by
  unfold parseBranch
  split
  · exact refuses_fault _
  · next condition targetClause _ =>
      exact (refuses_parseTarget targetClause).bind fun _ =>
        (refuses_cutCondition condition).bind fun cut =>
          (Expr.refuses_parse cut.1.trim).bind fun _ =>
            (Expr.refuses_parse cut.2.2.trim).bind fun _ => refuses_ok _

theorem refuses_ofClause
    (k : Keyword) (clause : Fragment) :
    Refuses (ofClause k clause) := by
  cases k with
  | remark | stop => exact refuses_ok _
  | assign => exact refuses_parseAssign clause
  | print => exact (Expr.refuses_parse clause.trim).bind fun _ => refuses_ok _
  | input => exact refuses_parseInput clause
  | jump => exact (refuses_parseTarget clause).bind fun _ => refuses_ok _
  | branch => exact refuses_parseBranch clause

/-- Whatever text is refused as an instruction, it is for a syntax error. -/
theorem refuses_parse
    (text : List Char) :
    Refuses (parse text) := by
  unfold parse
  split
  · exact refuses_fault _
  · exact refuses_ofClause _ _

end Instruction

/-- Whatever text is refused as a statement, it is for a syntax error. -/
theorem Statement.refuses_parse
    (source : String) :
    Refuses (parse source) := by
  intro e h
  exact Instruction.refuses_parse _ e (parse_eq_error_iff.mp h)

/-- Whatever line is refused, it is for its number. -/
theorem Line.refuses_parse
    (s : String) :
    Refuses (parse s) := by
  rw [parse]
  split
  · exact refuses_ok _
  · rw [parseNumbered]
    split
    · exact refuses_ok _
    · exact refuses_fault _

end IntegerBasic
