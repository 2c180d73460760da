import IntegerBasic.Line
import IntegerBasic.Proofs.RoundTrip

/-!
# Which lines can be jumped to

Lines are numbered up to 4294967295, but the target of a jump is read as a number of an
expression, and those end at 2147483647.  A line with a greater number can be stored and run, and
no `GOTO` and no `IF` can name it.

**Results.**
* `parse_toString`, `ofLexemes_literal`: a number is one literal, if it fits.
* `parseTarget_of_lt`: a target that is too great is refused as a number that is too large.
* `target_written_iff`: a jump to a line can be written exactly if its number is a value.
* `unreachable_line`: there is a line that no jump can name.
-/

namespace IntegerBasic

/-- The columns of a number that is written without leading zeros. -/
def Instruction.numeralColumn (offset : Nat) (n : LineNumber) : Column :=
  ⟨offset, offset + (toString n).length⟩

namespace Expr

/-- The value of a literal that was written for a number. -/
theorem literalValue?_toString
    (n : Nat) :
    literalValue? (toString n) = Value.ofInt? n := by
  rw [literalValue?, ofDigitChars_toString]

theorem step_literal
    (frames : List Frame) (digits : String) (c : Column) :
    step (.wanting frames) ⟨.literal digits, c⟩ =
      match literalValue? digits with
      | some v => .ok (.holding frames (.integer c v))
      | none => .error (SyntaxFault.numberTooLarge.errorIn c) := by
  rfl

/-- A literal is an expression if its number fits. -/
theorem ofLexemes_literal
    (digits : String) (c : Column) :
    ofLexemes [⟨.literal digits, c⟩] =
      match literalValue? digits with
      | some v => .ok (.integer c v)
      | none => .error (SyntaxFault.numberTooLarge.errorIn c) := by
  rw [ofLexemes, List.foldlM_cons, step_literal]
  cases literalValue? digits <;> rfl

/-- A number is one literal. -/
theorem parse_toString
    (offset n : Nat) :
    parse ⟨offset, (toString n).toList⟩ =
      ofLexemes [⟨.literal (toString n), Instruction.numeralColumn offset n⟩] := by
  rw [parse, lex_toString]
  rfl

end Expr

namespace Instruction

/-- A number behind a space is one literal. -/
theorem clauseExpr_space_toString
    (offset : Nat) (n : LineNumber) :
    clauseExpr ⟨offset, ' ' :: (toString n).toList⟩ =
      Expr.ofLexemes [⟨.literal (toString n), numeralColumn (offset + 1) n⟩] := by
  rw [clauseExpr, Fragment.trim_space_cons (solid_toString n), Expr.parse_toString]

/-- A target that is no value is refused, and the number is to blame. -/
theorem parseTarget_of_lt
    {n : LineNumber}
    (h : 2147483647 < n) (offset : Nat) :
    parseTarget ⟨offset, ' ' :: (toString n).toList⟩ =
      .error (SyntaxFault.numberTooLarge.errorIn (numeralColumn (offset + 1) n)) := by
  have hLiteral : Expr.literalValue? (toString n) = none := by
    rw [Expr.literalValue?_toString, Value.ofInt?_eq_none_iff]
    rintro ⟨_, hMax⟩
    exact absurd (Int.ofNat_le.mp hMax) (Nat.not_le.mpr h)
  rw [parseTarget, clauseExpr_space_toString, Expr.ofLexemes_literal, hLiteral]
  rfl

section Statements

variable {i : Instruction}

theorem exists_parse_of_ofClause
    {i' : Instruction}
    (h : i.Legible)
    (hClause : ofClause i.keyword ⟨i.keyword.word.length, i.renderClause.toList⟩ = .ok i') :
    ∃ s, Statement.parse i.render = .ok s ∧ s.instruction = i' := by
  have hParse : parse i.render.toList = .ok i' := by
    rw [parse, classify?_of_legible h]
    exact hClause
  let s : Statement := ⟨i.render, i', (solid_of_legible h).trim_eq, hParse⟩
  exact ⟨s, s.parse_text, rfl⟩

theorem parse_of_ofClause_error
    {e : Error}
    (h : i.Legible)
    (hClause : ofClause i.keyword ⟨i.keyword.word.length, i.renderClause.toList⟩ = .error e) :
    Statement.parse i.render = .error e := by
  rw [Statement.parse_eq_error_iff, (solid_of_legible h).trim_eq, parse, classify?_of_legible h]
  exact hClause

end Statements

/-- The statement that jumps to a line. -/
def jumpText (n : LineNumber) : String :=
  "GOTO " ++ toString n

/-- A statement that jumps to a line on a condition. -/
def branchText (n : LineNumber) : String :=
  "IF X = X THEN " ++ toString n

theorem render_jump
    (c : Column) (n : LineNumber) :
    (jump c n).render = jumpText n := by
  have hText : (jumpText n).toList = "GOTO ".toList ++ (toString n).toList := String.toList_append
  rw [← String.toList_inj, toList_render, toList_renderClause_jump, hText]
  rfl

/-- A branch whose condition compares `X` to itself. -/
def selfBranch (n : LineNumber) : Instruction :=
  branch (.var ⟨0, 0⟩ "X") .equal (.var ⟨0, 0⟩ "X") ⟨0, 0⟩ n

theorem render_selfBranch
    (n : LineNumber) :
    (selfBranch n).render = branchText n := by
  have hText : (branchText n).toList = "IF X = X THEN ".toList ++ (toString n).toList :=
    String.toList_append
  rw [← String.toList_inj, toList_render, selfBranch, toList_renderClause_branch, hText,
    renderCondition, Expr.render_var]
  rfl

theorem plain_x :
    (Expr.var ⟨0, 0⟩ "X").Plain :=
  ⟨⟨'X', [], rfl, rfl, List.forall_mem_nil _⟩, by decide +kernel⟩

theorem legible_selfBranch
    (n : LineNumber) :
    (selfBranch n).Legible :=
  ⟨plain_x, plain_x⟩

section Written

variable {n : LineNumber}

theorem exists_parse_jumpText
    (h : n ≤ 2147483647) :
    ∃ s, Statement.parse (jumpText n) = .ok s ∧ s.instruction.target? = some n := by
  obtain ⟨c, hTarget⟩ := exists_parseTarget_toString h Keyword.jump.word.length
  have hClause : ofClause .jump ⟨Keyword.jump.word.length, (jump c n).renderClause.toList⟩ =
      .ok (jump c n) := by
    rw [toList_renderClause_jump, ofClause, hTarget]
    rfl
  have hLegible : (jump c n).Legible := trivial
  obtain ⟨s, hParse, hJump⟩ := exists_parse_of_ofClause hLegible hClause
  rw [render_jump] at hParse
  exact ⟨s, hParse, by rw [hJump, target?]⟩

theorem exists_parse_branchText
    (h : n ≤ 2147483647) :
    ∃ s, Statement.parse (branchText n) = .ok s ∧ s.instruction.target? = some n := by
  obtain ⟨l, r, c, hClause, _⟩ := exists_parseBranch_render ⟨plain_x, rfl⟩ .equal ⟨plain_x, rfl⟩ h
    Keyword.branch.word.length
  rw [← toList_renderClause_branch _ _ _ ⟨0, 0⟩] at hClause
  obtain ⟨s, hParse, hBranch⟩ := exists_parse_of_ofClause (legible_selfBranch n) hClause
  rw [render_selfBranch] at hParse
  exact ⟨s, hParse, by rw [hBranch, target?]⟩

theorem parse_jumpText_of_lt
    (h : 2147483647 < n) :
    ∃ c, Statement.parse (jumpText n) = .error (SyntaxFault.numberTooLarge.errorIn c) := by
  have hTarget := parseTarget_of_lt h Keyword.jump.word.length
  generalize numeralColumn _ n = c at hTarget
  have hClause : ofClause .jump ⟨Keyword.jump.word.length, (jump c n).renderClause.toList⟩ =
      .error (SyntaxFault.numberTooLarge.errorIn c) := by
    rw [toList_renderClause_jump, ofClause, hTarget]
    rfl
  have hLegible : (jump c n).Legible := trivial
  rw [← render_jump c n]
  exact ⟨c, parse_of_ofClause_error hLegible hClause⟩

theorem parse_branchText_of_lt
    (h : 2147483647 < n) :
    ∃ c, Statement.parse (branchText n) = .error (SyntaxFault.numberTooLarge.errorIn c) := by
  obtain ⟨offset, hThen⟩ := cutAt?_renderClause_branch plain_x .equal plain_x n
    Keyword.branch.word.length
  have hTarget := parseTarget_of_lt h offset
  generalize numeralColumn _ n = c at hTarget
  have hClause : parseBranch ⟨Keyword.branch.word.length, (selfBranch n).renderClause.toList⟩ =
      .error (SyntaxFault.numberTooLarge.errorIn c) := by
    rw [selfBranch, toList_renderClause_branch, parseBranch, hThen]
    simp only [hTarget]
    rfl
  rw [← render_selfBranch n]
  exact ⟨c, parse_of_ofClause_error (legible_selfBranch n) hClause⟩

end Written

/-- A jump to a line can be written exactly if the number of the line is a value; every greater
number is refused as too large. -/
theorem target_written_iff
    (n : LineNumber) :
    ((∃ s, Statement.parse (jumpText n) = .ok s ∧ s.instruction.target? = some n) ↔
      n ≤ 2147483647) ∧
    ((∃ s, Statement.parse (branchText n) = .ok s ∧ s.instruction.target? = some n) ↔
      n ≤ 2147483647) ∧
    (2147483647 < n →
      (∃ c, Statement.parse (jumpText n) = .error (SyntaxFault.numberTooLarge.errorIn c)) ∧
      ∃ c, Statement.parse (branchText n) = .error (SyntaxFault.numberTooLarge.errorIn c)) := by
  refine ⟨⟨?_, exists_parse_jumpText⟩, ⟨?_, exists_parse_branchText⟩, ?_⟩
  · rintro ⟨s, hParse, _⟩
    apply Nat.le_of_not_lt
    intro hLarge
    obtain ⟨c, hError⟩ := parse_jumpText_of_lt hLarge
    rw [hParse] at hError
    cases hError
  · rintro ⟨s, hParse, _⟩
    apply Nat.le_of_not_lt
    intro hLarge
    obtain ⟨c, hError⟩ := parse_branchText_of_lt hLarge
    rw [hParse] at hError
    cases hError
  · intro hLarge
    exact ⟨parse_jumpText_of_lt hLarge, parse_branchText_of_lt hLarge⟩

/-- Line 2147483648 can be stored, but neither `GOTO` nor `IF` can name it. -/
theorem unreachable_line :
    Line.parse "2147483648 END" = .ok ⟨some 2147483648, "END"⟩ ∧
    Statement.parse "GOTO 2147483648" = .error (SyntaxFault.numberTooLarge.errorIn ⟨5, 15⟩) ∧
    Statement.parse "IF X = X THEN 2147483648" =
      .error (SyntaxFault.numberTooLarge.errorIn ⟨14, 24⟩) ∧
    ¬ ∀ n, 1 ≤ n → n ≤ greatestLineNumber →
      (∃ s, Statement.parse (jumpText n) = .ok s ∧ s.instruction.target? = some n) ∧
      ∃ s, Statement.parse (branchText n) = .ok s ∧ s.instruction.target? = some n := by
  refine ⟨rfl, rfl, rfl, ?_⟩
  intro hAll
  obtain ⟨⟨s, hParse, _⟩, _⟩ := hAll 2147483648 (by decide) (by decide)
  obtain ⟨c, hError⟩ := parse_jumpText_of_lt (Nat.lt_add_one 2147483647)
  rw [hParse] at hError
  cases hError

end Instruction
end IntegerBasic
