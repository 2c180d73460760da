import IntegerBasic.Proofs.Asking
import IntegerBasic.Proofs.JumpTargets

/-!
# Printed values are read back

A value is written in one way and read in two.  An `INPUT` reads its text as a whole, sign included;
an expression reads the digits as a number of its own, which the sign then negates.

**Argument.**  The text of a value is a numeral, after a minus sign if the value is negative
(`render_cases`).  A numeral denotes the number it was written for, so an `INPUT` is answered at
once.  As an expression, the numeral is one literal and the sign one operator.  The literal fits
unless the value is the least one, whose digits denote one more than the greatest value.

**Results.**
* `denotes_of_trim`: the text of a value, with white space around it, denotes the value.
* `exists_parse_render`, `parse_render_least`: what the text is as an expression.
* `printed_value_reads_back`: the text of every value, in both ways of reading.
-/

namespace IntegerBasic

namespace Value

/-- The text of a value is a numeral, or a numeral after a minus sign. -/
theorem render_cases
    (v : Value) :
    (∃ n : Nat, v.toInt = n ∧ v.render.toList = (toString n).toList) ∨
      ∃ n : Nat, v.toInt = -(n : Int) ∧ v.render.toList = '-' :: (toString n).toList := by
  cases hInt : v.toInt with
  | ofNat n =>
      refine .inl ⟨n, rfl, ?_⟩
      rw [render, hInt]
      rfl
  | negSucc n =>
      refine .inr ⟨n + 1, rfl, ?_⟩
      have hText : toString (Int.negSucc n) = "-" ++ toString (n + 1) := rfl
      rw [render, hInt, hText, String.toList_append]
      rfl

/-- There is no white space in the text of a value. -/
theorem solid_render
    (v : Value) :
    Text.Solid v.render.toList := by
  have hNumeral : ∀ n : Nat, ∀ c ∈ (toString n).toList, Text.isWhiteSpace c = false :=
    fun n c hc => isWhiteSpace_of_isNameChar (isNameChar_of_mem_toString n c hc)
  rcases v.render_cases with ⟨n, _, hText⟩ | ⟨n, _, hText⟩
  · rw [hText]
    exact solid_toString n
  · rw [hText]
    refine Text.solid_of_forall (List.cons_ne_nil _ _) ?_
    exact List.forall_mem_cons.mpr ⟨rfl, hNumeral n⟩

/-- The text of a value spells its integer. -/
theorem spellsInt_render
    (v : Value) :
    Text.SpellsInt v.render.toList v.toInt := by
  have hDigits : ∀ n : Nat, (toString n).toList.all Char.isDigit :=
    fun n => List.all_eq_true.mpr (isDigit_of_mem_toString n)
  rcases v.render_cases with ⟨n, hInt, hText⟩ | ⟨n, hInt, hText⟩
  · have hSpells := Text.SpellsInt.bare (toList_toString_ne_nil n) (hDigits n)
    rwa [ofDigitChars_toString, ← hInt, ← hText] at hSpells
  · have hSpells := Text.SpellsInt.minus (toList_toString_ne_nil n) (hDigits n)
    rwa [ofDigitChars_toString, ← hInt, ← hText] at hSpells

end Value

namespace Expr

/-- A minus sign makes no difference to which numbers fit. -/
theorem ofLexemes_minus_literal
    (digits : String) (c d : Column) :
    ofLexemes [⟨.operator .minus, c⟩, ⟨.literal digits, d⟩] =
      match literalValue? digits with
      | some v => .ok (.negation c (.integer d v))
      | none => .error (SyntaxFault.numberTooLarge.errorIn d) := by
  have hMinus : step (.wanting []) ⟨.operator .minus, c⟩ = .ok (.wanting [.minus c]) := rfl
  rw [ofLexemes, List.foldlM_cons, hMinus]
  change ((List.foldlM step (.wanting [.minus c]) [⟨.literal digits, d⟩]) >>= finish) = _
  rw [List.foldlM_cons, step_literal]
  cases literalValue? digits <;> rfl

theorem parse_minus_toString
    (offset n : Nat) :
    parse ⟨offset, '-' :: (toString n).toList⟩ =
      ofLexemes [⟨.operator .minus, ⟨offset, offset + 1⟩⟩,
        ⟨.literal (toString n), Instruction.numeralColumn (offset + 1) n⟩] := by
  have hMinus : Token.ofChar? '-' = some (.operator .minus) := rfl
  have hTokens := lex_append_operator hMinus [] (toString n).toList
  rw [List.nil_append, lex_toString] at hTokens
  rw [parse, hTokens]
  rfl

/-- The text of any value but the least one is an expression with this value. -/
theorem exists_parse_render
    {v : Value}
    (h : v.toInt ≠ -2147483648) (offset : Nat) :
    ∃ e, parse ⟨offset, v.render.toList⟩ = .ok e ∧
      ∀ vars, e.eval.run.run vars = (.ok v, vars) := by
  rcases v.render_cases with ⟨n, hInt, hText⟩ | ⟨n, hInt, hText⟩
  · have hLiteral : literalValue? (toString n) = some v := by
      rw [literalValue?_toString, ← hInt, Value.ofInt?_toInt]
    refine ⟨.integer (Instruction.numeralColumn offset n) v, ?_, fun vars => rfl⟩
    rw [hText, parse_toString, ofLexemes_literal, hLiteral]
  · have hRange : InRange n := by
      obtain ⟨hMin, hMax⟩ := v.inRange
      constructor <;> omega
    have hLiteral : literalValue? (toString n) = some ⟨n, hRange⟩ := by
      rw [literalValue?_toString, Value.ofInt?_eq_some_iff]
    have hNegate : Value.negate ⟨n, hRange⟩ = .ok v := by
      rw [Value.negate, Value.checked, Value.ofInt?_eq_some_iff.mpr hInt]
    refine ⟨.negation ⟨offset, offset + 1⟩
      (.integer (Instruction.numeralColumn (offset + 1) n) ⟨n, hRange⟩), ?_, fun vars => ?_⟩
    · rw [hText, parse_minus_toString, ofLexemes_minus_literal, hLiteral]
    · change ((Value.negate ⟨n, hRange⟩).mapError _, vars) = _
      rw [hNegate]
      rfl

/-- The digits of the least value are too large for a literal. -/
theorem parse_render_least
    {v : Value}
    (h : v.toInt = -2147483648) (offset : Nat) :
    parse ⟨offset, v.render.toList⟩ =
      .error (SyntaxFault.numberTooLarge.errorIn ⟨offset + 1, offset + 11⟩) := by
  rcases v.render_cases with ⟨n, hInt, _⟩ | ⟨n, hInt, hText⟩
  · omega
  · obtain rfl : n = 2147483648 := by omega
    have hLiteral : literalValue? (toString 2147483648) = none := by
      rw [literalValue?_toString]
      rfl
    rw [hText, parse_minus_toString, ofLexemes_minus_literal, hLiteral]
    rfl

end Expr

namespace Machine

/-- The text of a value, with white space around it, denotes the value. -/
theorem denotes_of_trim
    {before after : List Char} {line : String} {v : Value}
    (hBefore : before.all Text.isWhiteSpace) (hAfter : after.all Text.isWhiteSpace)
    (hLine : line.toList = before ++ (v.render.toList ++ after)) :
    Denotes line v := by
  rw [Denotes, hLine, Text.trim_append hBefore v.solid_render hAfter]
  exact v.spellsInt_render

/-- An answer that denotes a value is accepted at once. -/
theorem run_readInteger_of_denotes
    {σ : Type} [Console σ] {m : Machine σ} {line : String} {c' : σ} {v : Value}
    (hRead : Console.readLine inputPrompt m.console = (.ok (some line), c'))
    (hLine : Denotes line v) (fuel : Nat) :
    (readInteger (fuel + 1)).run.run m = some (.ok v, { m with console := c' }) := by
  rw [run_readInteger_succ, hRead]
  simp only [denotes_iff.mp hLine]

/-- The printed text of a value, with any white space around it, answers an `INPUT` with this value;
and as an expression it has the value, unless it is the least one, which is refused. -/
theorem printed_value_reads_back
    (v : Value) :
    (∀ (σ : Type) [Console σ] (m : Machine σ),
      (print v).run.run m =
        some ((Console.printLine v.render m.console).1.mapError Error.ofConsole,
          { m with console := (Console.printLine v.render m.console).2 })) ∧
    (∀ (σ : Type) [Console σ] (m : Machine σ) (c' : σ) (before after : List Char) (line : String),
      before.all Text.isWhiteSpace → after.all Text.isWhiteSpace →
      line.toList = before ++ (v.render.toList ++ after) →
      Console.readLine inputPrompt m.console = (.ok (some line), c') →
      ∀ fuel, (readInteger (fuel + 1)).run.run m = some (.ok v, { m with console := c' })) ∧
    (v.toInt ≠ -2147483648 → ∀ offset, ∃ e, Expr.parse ⟨offset, v.render.toList⟩ = .ok e ∧
      ∀ vars, e.eval.run.run vars = (.ok v, vars)) ∧
    (v.toInt = -2147483648 → ∀ offset, ∃ e, Expr.parse ⟨offset, v.render.toList⟩ = .error e ∧
      e.code = .syntaxError ∧ e.message = "NUMBER TOO LARGE" ∧
      e.column = some ⟨offset + 1, offset + 11⟩) := by
  refine ⟨fun σ _ m => run_useConsole _ m, ?_, fun h => Expr.exists_parse_render h, ?_⟩
  · intro σ _ m c' before after line hBefore hAfter hLine hRead
    exact run_readInteger_of_denotes hRead (denotes_of_trim hBefore hAfter hLine)
  · intro h offset
    exact ⟨_, Expr.parse_render_least h offset, rfl, rfl, rfl⟩

/-- The least value, printed and given in answer with white space of two other kinds around it. -/
theorem printed_value_reads_back_least :
    ∃ v : Value, v.toInt = -2147483648 ∧
      (readInteger 1).run.run (idle (⟨["\u00a0-2147483648\u3000"], ""⟩ : Transcript)) =
        some (.ok v, idle ⟨[], " ? \u00a0-2147483648\u3000\n"⟩) ∧
      ∃ e, Expr.parse ⟨6, v.render.toList⟩ = .error e ∧ e.column = some ⟨7, 17⟩ := by
  let v : Value := ⟨-2147483648, by decide⟩
  obtain ⟨_, hAnswers, _, hLeast⟩ := printed_value_reads_back v
  obtain ⟨e, hParse, _, _, hColumn⟩ := hLeast rfl 6
  have hLine : "\u00a0-2147483648\u3000".toList = ['\u00a0'] ++ (v.render.toList ++ ['\u3000']) := by
    decide +kernel
  exact ⟨v, rfl, hAnswers Transcript _ _ _ _ _ rfl rfl hLine rfl 0, e, hParse, hColumn⟩

end Machine
end IntegerBasic
