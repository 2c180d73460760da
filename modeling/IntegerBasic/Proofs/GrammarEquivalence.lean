import IntegerBasic.Proofs.Refusals
import IntegerBasic.Proofs.ShiftReduce

/-!
# The parser returns exactly what the grammar derives

**Argument.**  A derivation drives the parser: reading the lexemes of an expression with the
constructs `frames` open leads to a state that differs from holding that expression under `frames`
only by constructs which any later lexeme closes first (`Absorbs`).  This is shown by induction on
the derivation.  At the end of the text everything is closed, and the derived tree is returned.

**Results.**
* `ofLexemes_eq_ok_iff`: the parser returns a tree exactly if it is derived.
* `code_of_ofLexemes`: whatever it refuses is refused as a syntax error.
* `Spells.unique`: tokens spell at most one tree.
* `parse_eq_ok_iff_spells`: the same for the text of an expression at any offset.
-/

namespace IntegerBasic
namespace Expr

/-- The binding strength of a nonterminal. -/
def Level.strength : Level → Nat
  | assign => 1
  | additive => 2
  | multiplicative => 3
  | unary => 4
  | primary => 5

/-- After `ls` the parser holds what `e` is under `frames`, as far as every construct is concerned
that binds no more tightly than `strength`. -/
def Absorbs (strength : Nat) (frames : List Frame) (ls : List Lexeme) (e : Expr) : Prop :=
  ∃ frames' e', ls.foldlM step (.wanting frames) = .ok (.holding frames' e') ∧
    ∀ floor ≤ strength, settle floor frames' e' = settle floor frames e

theorem Absorbs.loosen
    {floor strength : Nat} {frames : List Frame} {ls : List Lexeme} {e : Expr}
    (h : Absorbs strength frames ls e) (hLe : floor ≤ strength) :
    Absorbs floor frames ls e := by
  obtain ⟨frames', e', hRun, hSettle⟩ := h
  exact ⟨frames', e', hRun, fun n hn => hSettle n (Nat.le_trans hn hLe)⟩

theorem foldlM_step_append
    {p p' : Progress} {ls rs : List Lexeme}
    (h : ls.foldlM step p = .ok p') :
    (ls ++ rs).foldlM step p = rs.foldlM step p' := by
  rw [List.foldlM_append, h]
  rfl

theorem foldlM_step_cons
    {p p' : Progress} {l : Lexeme} {rs : List Lexeme}
    (h : step p l = .ok p') :
    (l :: rs).foldlM step p = rs.foldlM step p' := by
  rw [List.foldlM_cons, h]
  rfl

theorem settle_cons_of_le
    {floor : Nat} {f : Frame} {frames : List Frame} {e e' : Expr}
    (hLe : floor ≤ f.level)
    (hClose : f.close e = .ok e') :
    settle floor (f :: frames) e = settle floor frames e' := by
  rw [settle, if_pos hLe, hClose]
  rfl

/-- Sums and products close none of the constructs that they may stand in. -/
theorem settle_of_fits
    {strength : Nat} {frames : List Frame}
    (hFits : Fits strength frames)
    (hLow : 2 ≤ strength) (hHigh : strength ≤ 3) (e : Expr) :
    settle strength frames e = .ok (frames, e) := by
  cases frames with
  | nil => rfl
  | cons f frames =>
      have hDemand := hFits f rfl
      have hNot : ¬ strength ≤ f.level := by
        cases f <;> simp only [Frame.demand, Frame.level] at * <;> omega
      rw [settle, if_neg hNot]

theorem binaryOp?_of_mem_sums
    {sign : Operator} {op : BinaryOp}
    (h : (sign, op) ∈ [(Operator.plus, BinaryOp.add), (.minus, .subtract)]) :
    sign.binaryOp? = some op ∧ op.level = 2 := by
  simp only [List.mem_cons, Prod.mk.injEq, List.not_mem_nil, or_false] at h
  rcases h with ⟨rfl, rfl⟩ | ⟨rfl, rfl⟩ <;> exact ⟨rfl, rfl⟩

theorem binaryOp?_of_mem_products
    {sign : Operator} {op : BinaryOp}
    (h : (sign, op) ∈ [(Operator.star, BinaryOp.multiply), (.slash, .divide)]) :
    sign.binaryOp? = some op ∧ op.level = 3 := by
  simp only [List.mem_cons, Prod.mk.injEq, List.not_mem_nil, or_false] at h
  rcases h with ⟨rfl, rfl⟩ | ⟨rfl, rfl⟩ <;> exact ⟨rfl, rfl⟩

theorem stepOperator_equal
    (frames : List Frame) (e : Expr) (c : Column) :
    stepOperator frames e ⟨.operator .equal, c⟩ =
      (settle 2 frames e).bind fun (frames, e) => .ok (.wanting (.assign c e :: frames)) := by
  rfl

theorem stepOperator_binary
    {sign : Operator} {op : BinaryOp}
    (hSign : sign.binaryOp? = some op)
    (frames : List Frame) (e : Expr) (c : Column) :
    stepOperator frames e ⟨.operator sign, c⟩ =
      (settle op.level frames e).bind fun (frames, e) =>
        .ok (.wanting (.binary c op e :: frames)) := by
  cases sign <;> simp only [Operator.binaryOp?, reduceCtorEq, Option.some_inj] at hSign <;>
    subst hSign <;> rfl

theorem Absorbs.binary
    {strength : Nat} {sign : Operator} {op : BinaryOp} {frames : List Frame} {ls rs : List Lexeme}
    {c : Column} {l r : Expr}
    (hSign : sign.binaryOp? = some op)
    (hLevel : op.level = strength)
    (hFits : Fits strength frames)
    (hl : Absorbs strength frames ls l)
    (hr : ∀ {frames' : List Frame},
      Fits (strength + 1) frames' → Absorbs (strength + 1) frames' rs r) :
    Absorbs strength frames (ls ++ ⟨.operator sign, c⟩ :: rs) (.binary c op l r) := by
  subst hLevel
  have hOpen : Fits (op.level + 1) (.binary c op l :: frames) := by
    simp [Fits, Frame.demand]
  obtain ⟨framesₗ, eₗ, hRunₗ, hSettleₗ⟩ := hl
  obtain ⟨framesᵣ, eᵣ, hRunᵣ, hSettleᵣ⟩ := hr hOpen
  have hLeft : settle op.level framesₗ eₗ = .ok (frames, l) := by
    rw [hSettleₗ op.level (Nat.le_refl _)]
    exact settle_of_fits hFits (two_le_level op) (level_le_three op) l
  have hStep : step (.holding framesₗ eₗ) ⟨.operator sign, c⟩ =
      .ok (.wanting (.binary c op l :: frames)) := by
    rw [step, stepOperator_binary hSign, hLeft]
    rfl
  refine ⟨framesᵣ, eᵣ, ?_, ?_⟩
  · rw [foldlM_step_append hRunₗ, foldlM_step_cons hStep, hRunᵣ]
  · intro floor hFloor
    rw [hSettleᵣ floor (Nat.le_succ_of_le hFloor)]
    exact settle_cons_of_le hFloor rfl

theorem Absorbs.assign
    {frames : List Frame} {ls rs : List Lexeme} {c d : Column} {x : Name} {r : Expr}
    (hFits : Fits 1 frames)
    (hl : Absorbs 2 frames ls (.var d x))
    (hr : Absorbs 1 (.assign c (.var d x) :: frames) rs r) :
    Absorbs 1 frames (ls ++ ⟨.operator .equal, c⟩ :: rs) (.assign c x r) := by
  obtain ⟨framesₗ, eₗ, hRunₗ, hSettleₗ⟩ := hl
  obtain ⟨framesᵣ, eᵣ, hRunᵣ, hSettleᵣ⟩ := hr
  have hLeft : settle 2 framesₗ eₗ = .ok (frames, .var d x) := by
    rw [hSettleₗ 2 (Nat.le_refl 2)]
    exact settle_of_fits (hFits.mono (by omega)) (by omega) (by omega) _
  have hStep : step (.holding framesₗ eₗ) ⟨.operator .equal, c⟩ =
      .ok (.wanting (.assign c (.var d x) :: frames)) := by
    rw [step, stepOperator_equal, hLeft]
    rfl
  refine ⟨framesᵣ, eᵣ, ?_, ?_⟩
  · rw [foldlM_step_append hRunₗ, foldlM_step_cons hStep, hRunᵣ]
  · intro floor hFloor
    rw [hSettleᵣ floor hFloor]
    exact settle_cons_of_le hFloor rfl

theorem Absorbs.negation
    {frames : List Frame} {ls : List Lexeme} {c : Column} {e : Expr}
    (h : Absorbs 4 (.minus c :: frames) ls e) :
    Absorbs 4 frames (⟨.operator .minus, c⟩ :: ls) (.negation c e) := by
  obtain ⟨frames', e', hRun, hSettle⟩ := h
  have hStep : step (.wanting frames) ⟨.operator .minus, c⟩ =
      .ok (.wanting (.minus c :: frames)) := rfl
  refine ⟨frames', e', ?_, ?_⟩
  · rw [foldlM_step_cons hStep, hRun]
  · intro floor hFloor
    rw [hSettle floor hFloor]
    exact settle_cons_of_le hFloor rfl

theorem Absorbs.group
    {frames : List Frame} {ls : List Lexeme} {c d : Column} {e : Expr}
    (h : Absorbs 1 (.group :: frames) ls e) :
    Absorbs 5 frames (⟨.leftParen, c⟩ :: ls ++ [⟨.rightParen, d⟩]) e := by
  obtain ⟨frames', e', hRun, hSettle⟩ := h
  have hOpen : step (.wanting frames) ⟨.leftParen, c⟩ = .ok (.wanting (.group :: frames)) := rfl
  have hInner : settle 1 frames' e' = .ok (.group :: frames, e) := by
    rw [hSettle 1 (Nat.le_refl 1)]
    rfl
  have hClose : step (.holding frames' e') ⟨.rightParen, d⟩ = .ok (.holding frames e) := by
    rw [step, stepOperator, stepEnd, hInner]
    rfl
  refine ⟨frames, e, ?_, fun _ _ => rfl⟩
  rw [List.cons_append, foldlM_step_cons hOpen, foldlM_step_append hRun, foldlM_step_cons hClose]
  rfl

/-- A derivation drives the parser, whatever constructs are open around it. -/
theorem absorbs_of_derives
    {level : Level} {ls : List Lexeme} {e : Expr}
    (h : Derives level ls e) :
    ∀ {frames : List Frame}, Fits level.strength frames → Absorbs level.strength frames ls e := by
  induction h with
  | assignOfAdditive _ ih | additiveOfMultiplicative _ ih | multiplicativeOfUnary _ ih
  | unaryOfPrimary _ ih =>
      intro frames hFits
      have hNext := ih (hFits.mono (by simp [Level.strength]))
      exact hNext.loosen (by simp [Level.strength])
  | assign _ _ ihl ihr =>
      intro frames hFits
      exact .assign hFits (ihl (hFits.mono (by simp [Level.strength])))
        (ihr (by simp [Fits, Frame.demand, Level.strength]))
  | additive hSign _ _ ihl ihr =>
      intro frames hFits
      obtain ⟨hSign, hLevel⟩ := binaryOp?_of_mem_sums hSign
      exact .binary hSign hLevel hFits (ihl hFits) ihr
  | multiplicative hSign _ _ ihl ihr =>
      intro frames hFits
      obtain ⟨hSign, hLevel⟩ := binaryOp?_of_mem_products hSign
      exact .binary hSign hLevel hFits (ihl hFits) ihr
  | unary _ ih =>
      intro frames hFits
      exact .negation (ih (by simp [Fits, Frame.demand, Level.strength]))
  | @name c x =>
      intro frames _
      exact ⟨frames, .var c x, rfl, fun _ _ => rfl⟩
  | @number c digits v hBound hValue =>
      intro frames _
      have hLiteral : literalValue? digits = some v :=
        literalValue?_eq_some_iff.mpr ⟨hBound, hValue⟩
      have hStep : step (.wanting frames) ⟨.literal digits, c⟩ =
          .ok (.holding frames (.integer c v)) := by
        simp only [step, stepOperand, hLiteral]
      refine ⟨frames, .integer c v, ?_, fun _ _ => rfl⟩
      rw [foldlM_step_cons hStep]
      rfl
  | group _ ih =>
      intro frames _
      exact .group (ih (by simp [Fits, Frame.demand, Level.strength]))

/-- A tree that is derived from the lexemes is returned. -/
theorem ofLexemes_of_derives
    {ls : List Lexeme} {e : Expr}
    (h : Derives .assign ls e) :
    ofLexemes ls = .ok e := by
  have hFits : Fits 1 [] := by simp [Fits]
  obtain ⟨frames, operand, hRun, hSettle⟩ := absorbs_of_derives h hFits
  have hClosed : settle 1 frames operand = .ok ([], e) := hSettle 1 (Nat.le_refl 1)
  rw [ofLexemes, hRun]
  change finish (.holding frames operand) = .ok e
  rw [finish, hClosed]
  rfl

/-- The parser returns a tree exactly if the grammar derives it. -/
theorem ofLexemes_eq_ok_iff
    {ls : List Lexeme} {e : Expr} :
    ofLexemes ls = .ok e ↔ Derives .assign ls e :=
  ⟨derives_of_ofLexemes, ofLexemes_of_derives⟩

/-- The grammar is unambiguous. -/
theorem Derives.unique
    {ls : List Lexeme} {e e' : Expr}
    (h : Derives .assign ls e) (h' : Derives .assign ls e') :
    e = e' := by
  have hParse := ofLexemes_of_derives h
  rw [ofLexemes_of_derives h', Except.ok.injEq] at hParse
  exact hParse.symm

/-- Whatever the parser refuses, it refuses as a syntax error. -/
theorem code_of_ofLexemes
    {ls : List Lexeme} {err : Error}
    (h : ofLexemes ls = .error err) :
    err.code = .syntaxError :=
  (refuses_ofLexemes ls err h).code_eq

theorem ofLexemes_total
    (ls : List Lexeme) :
    (∃ e, ofLexemes ls = .ok e ∧ Derives .assign ls e) ∨
      (∃ err, ofLexemes ls = .error err ∧ err.code = .syntaxError ∧
        ∀ e, ¬ Derives .assign ls e) := by
  cases h : ofLexemes ls with
  | ok e => exact Or.inl ⟨e, rfl, derives_of_ofLexemes h⟩
  | error err =>
      refine Or.inr ⟨err, rfl, code_of_ofLexemes h, ?_⟩
      intro e hDerives
      rw [ofLexemes_of_derives hDerives] at h
      contradiction

/-- The tokens of a text that are not blanks. -/
def significant (text : List Char) : List Token :=
  (lex text).filter fun t => !t.isBlank

/-- The tokens spell the tree, columns aside. -/
def Spells (ts : List Token) (e : Expr) : Prop :=
  ∃ ls e', ls.map Lexeme.token = ts ∧ Derives .assign ls e' ∧ e'.eraseColumns = e.eraseColumns

/-- Tokens spell at most one tree. -/
theorem Spells.unique
    {ts : List Token} {e e' : Expr}
    (h : Spells ts e) (h' : Spells ts e') :
    e.eraseColumns = e'.eraseColumns := by
  obtain ⟨ls, d, hTokens, hDerives, hErase⟩ := h
  obtain ⟨ls', d', hTokens', hDerives', hErase'⟩ := h'
  obtain ⟨d'', hMoved, hSame⟩ := hDerives'.exists_of_tokens (hTokens.trans hTokens'.symm)
  have hEq := hDerives.unique hMoved
  rw [← hErase, hEq, hSame, hErase']

/-- Tokens that spell a tree are parsed to it wherever they stand. -/
theorem exists_parse_of_spells
    {text : List Char} {e : Expr}
    (offset : Nat)
    (h : Spells (significant text) e) :
    ∃ e', parse ⟨offset, text⟩ = .ok e' ∧ e'.eraseColumns = e.eraseColumns := by
  obtain ⟨ls, d, hTokens, hDerives, hErase⟩ := h
  have hPlaced : (lexemes offset (lex text)).map Lexeme.token = ls.map Lexeme.token := by
    rw [map_token_lexemes, hTokens, significant]
  obtain ⟨e', hMoved, hSame⟩ := hDerives.exists_of_tokens hPlaced
  exact ⟨e', ofLexemes_of_derives hMoved, hSame.trans hErase⟩

theorem spells_of_parse
    {text : List Char} {offset : Nat} {e : Expr}
    (h : parse ⟨offset, text⟩ = .ok e) :
    Spells (significant text) e :=
  ⟨lexemes offset (lex text), e, map_token_lexemes offset (lex text), derives_of_ofLexemes h, rfl⟩

/-- A text is parsed to the one tree that its tokens spell, with their columns.  Whatever else there
is to parse is refused as a syntax error. -/
theorem parse_eq_ok_iff_spells
    (text : List Char) (offset : Nat) :
    (∀ e, (∃ e', parse ⟨offset, text⟩ = .ok e' ∧ e'.eraseColumns = e.eraseColumns) ↔
      Spells (significant text) e) ∧
    (∀ e, parse ⟨offset, text⟩ = .ok e ↔ Derives .assign (lexemes offset (lex text)) e) ∧
    (∀ ts e e', Spells ts e → Spells ts e' → e.eraseColumns = e'.eraseColumns) ∧
    (∀ ls : List Lexeme,
      (∃ e, ofLexemes ls = .ok e ∧ Derives .assign ls e) ∨
      (∃ err, ofLexemes ls = .error err ∧ err.code = .syntaxError ∧
        ∀ e, ¬ Derives .assign ls e)) ∧
    ((∀ e, ¬ Spells (significant text) e) →
      ∃ err, parse ⟨offset, text⟩ = .error err ∧ err.code = .syntaxError) := by
  refine ⟨?_, fun e => ofLexemes_eq_ok_iff, fun ts e e' => Spells.unique, ofLexemes_total, ?_⟩
  · intro e
    constructor
    · rintro ⟨e', hParse, hErase⟩
      obtain ⟨ls, d, hTokens, hDerives, hSame⟩ := spells_of_parse hParse
      exact ⟨ls, d, hTokens, hDerives, hSame.trans hErase⟩
    · exact exists_parse_of_spells offset
  · intro hNone
    cases h : parse ⟨offset, text⟩ with
    | ok e => exact absurd (spells_of_parse h) (hNone e)
    | error err => exact ⟨err, rfl, code_of_ofLexemes h⟩

/-- Zeros in front of a number count for nothing, and 2147483647 is the greatest one. -/
theorem spells_greatest_number :
    Spells (significant "(X) = Y = -007*2147483647".toList)
      (.assign ⟨4, 5⟩ "X" (.assign ⟨8, 9⟩ "Y" (.binary ⟨14, 15⟩ .multiply
        (.negation ⟨10, 11⟩ (.integer ⟨11, 14⟩ ⟨7, by decide⟩))
        (.integer ⟨15, 25⟩ ⟨2147483647, by decide⟩)))) ∧
    (∀ e, ¬ Spells (significant "(X) = Y = -007*2147483648".toList) e) ∧
    ∃ err, parse ⟨0, "(X) = Y = -007*2147483648".toList⟩ = .error err ∧
      err.code = .syntaxError := by
  have hNone : ∀ e, ¬ Spells (significant "(X) = Y = -007*2147483648".toList) e := by
    intro e hSpells
    obtain ⟨e', hParse, _⟩ := ((parse_eq_ok_iff_spells _ 0).1 e).mpr hSpells
    have hRefused : parse ⟨0, "(X) = Y = -007*2147483648".toList⟩ =
        .error (SyntaxFault.numberTooLarge.errorIn ⟨15, 25⟩) := rfl
    cases hRefused.symm.trans hParse
  refine ⟨?_, hNone, ?_⟩
  · have hParse : parse ⟨0, "(X) = Y = -007*2147483647".toList⟩ = .ok (.assign ⟨4, 5⟩ "X"
        (.assign ⟨8, 9⟩ "Y" (.binary ⟨14, 15⟩ .multiply
          (.negation ⟨10, 11⟩ (.integer ⟨11, 14⟩ ⟨7, by decide⟩))
          (.integer ⟨15, 25⟩ ⟨2147483647, by decide⟩)))) := rfl
    exact ((parse_eq_ok_iff_spells _ 0).1 _).mp ⟨_, hParse, rfl⟩
  · exact (parse_eq_ok_iff_spells _ 0).2.2.2.2 hNone

end Expr
end IntegerBasic
