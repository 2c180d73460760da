import IntegerBasic.Proofs.Asking
import IntegerBasic.Proofs.BlamedTokens
import IntegerBasic.Proofs.Columns

/-!
# The columns of an error are those of one token

**Definitions.**  `Marks` says that columns are those of one token of a clause, and that this token
stands there in the text.  `Culprit` says which token is to blame when a statement fails with a
certain cause.

**Argument.**  A text is refused for its first clause that is wrong.  Either the parser of
expressions blames a lexeme of this clause, or the root of its tree is blamed, whose columns are
those of a lexeme.  When a statement fails, an expression has failed at a node that offends, or the
target is blamed; by induction on its derivation, each node has a lexeme that is written as the
offence has it.  In whatever way a clause was cut out of the text, its lexemes stand in the text
where they say.

**Results.**
* `exists_marks_of_refusing`: what is blamed in a clause that is refused.
* `exists_culprit_of_eval`: what is blamed in an expression that fails.
* `error_columns_mark_tokens`: both, for every text and in every state.
-/

namespace IntegerBasic

/-- The columns are those of this token of the clause, which is no blank; they are a part of the
text that is not empty, and the characters of the token stand there. -/
def Column.Marks (c : Column) (text : List Char) (clause : Fragment) (t : Token) : Prop :=
  ⟨t, c⟩ ∈ lexemes clause.offset (lex clause.chars) ∧ t.isBlank = false ∧ c.Shows text t.chars

theorem Column.marks_of_mem_lexemes
    {text : List Char} {clause : Fragment} {l : Lexeme}
    (hWithin : clause.Within text) (h : l ∈ lexemes clause.offset (lex clause.chars)) :
    l.column.Marks text clause l.token :=
  ⟨h, isBlank_of_mem_lexemes h, shows_of_mem_lexemes hWithin h⟩

/-- The token is to blame when the instruction of a listing fails for this cause and leaves these
variables. -/
inductive Culprit (listing : Listing) (i : Instruction) (vars : Variables) :
    ErrorCode → Token → Prop
  | undefinedVariable {x : Name} :
      vars.get? x = none →
      Culprit listing i vars .undefinedVariable (.ident x)
  | divisionByZero :
      Culprit listing i vars .divisionByZero (.operator .slash)
  | overflow {sign : Operator} {op : BinaryOp} :
      sign.binaryOp? = some op →
      Culprit listing i vars .overflow (.operator sign)
  | lineNumberError {digits : String} :
      i.target? = some (Nat.ofDigitChars 10 digits.toList 0) →
      listing.contains (Nat.ofDigitChars 10 digits.toList 0) = false →
      Culprit listing i vars .lineNumberError (.literal digits)

namespace Expr

theorem column_mem_walk
    (e : Expr) :
    e.column ∈ e.walk := by
  cases e with
  | integer | var | negation | assign => exact List.mem_cons_self
  | binary c op l r => exact List.mem_append_right _ List.mem_cons_self

/-- The columns of a clause that is refused are those of one of its tokens. -/
theorem exists_marks_of_refusing
    {text : List Char} {clause : Fragment} {e : Error} {c : Column}
    (hWithin : clause.Within text) (h : Instruction.Refusing clause e)
    (hColumn : e.column = some c) :
    ∃ t, c.Marks text clause t := by
  rcases h with hParse | ⟨tree, hParse, hRoot⟩
  · obtain ⟨l, hl, rfl⟩ := exists_lexeme_of_ofLexemes_error hParse hColumn
    exact ⟨l.token, Column.marks_of_mem_lexemes hWithin hl⟩
  · obtain rfl := Option.some_inj.mp (hRoot.symm.trans hColumn)
    have hDerives : Derives .assign (lexemes clause.offset (lex clause.chars)) tree :=
      derives_of_ofLexemes hParse
    obtain ⟨l, hl, hSame⟩ := List.mem_map.mp (hDerives.walk_sublist.subset tree.column_mem_walk)
    exact ⟨l.token, hSame ▸ Column.marks_of_mem_lexemes hWithin hl⟩

section Culprits

variable {listing : Listing} {i : Instruction} {vars : Variables} {visit : Visit} {code : ErrorCode}
  {ls rs : List Lexeme}

theorem eq_overflow_of_offenceOfResult
    {n : Int}
    (h : offenceOfResult n = some code) :
    code = .overflow := by
  unfold offenceOfResult at h
  split at h
  · cases h
  · exact (Option.some_inj.mp h).symm

theorem culprit_of_offenceOfBinary
    {sign : Operator} {op : BinaryOp} {a b : Int}
    (hSign : sign.binaryOp? = some op) (h : offenceOfBinary op a b = some code) :
    Culprit listing i vars code (.operator sign) := by
  unfold offenceOfBinary at h
  split at h
  · next hZero =>
      obtain ⟨rfl, _⟩ := hZero
      obtain rfl : sign = .slash := by
        cases sign <;> simp_all [Operator.binaryOp?]
      cases h
      exact .divisionByZero
  · rw [eq_overflow_of_offenceOfResult h]
    exact .overflow hSign

/-- Of a binary operation, an operand is to blame or the operator. -/
theorem exists_culprit_binary
    {sign : Operator} {op : BinaryOp} {c : Column} {l r : Expr} {env : Bindings}
    (hSign : sign.binaryOp? = some op)
    (hVisit : visit ∈ ((binary c op l r).exact env).2.2) (hOffence : visit.offence = some code)
    (hl : ∀ {env}, visit ∈ (l.exact env).2.2 →
      ∃ t, ⟨t, visit.column⟩ ∈ ls ∧ Culprit listing i vars code t)
    (hr : ∀ {env}, visit ∈ (r.exact env).2.2 →
      ∃ t, ⟨t, visit.column⟩ ∈ rs ∧ Culprit listing i vars code t) :
    ∃ t, ⟨t, visit.column⟩ ∈ ls ++ ⟨.operator sign, c⟩ :: rs ∧ Culprit listing i vars code t := by
  rcases List.mem_append.mp hVisit with hOperand | hLast
  · rcases List.mem_append.mp hOperand with hLeft | hRight
    · obtain ⟨t, ht, hCulprit⟩ := hl hLeft
      exact ⟨t, List.mem_append_left _ ht, hCulprit⟩
    · obtain ⟨t, ht, hCulprit⟩ := hr hRight
      exact ⟨t, List.mem_append_right _ (List.mem_cons_of_mem _ ht), hCulprit⟩
  · cases List.mem_singleton.mp hLast
    exact ⟨_, List.mem_append_right _ List.mem_cons_self, culprit_of_offenceOfBinary hSign hOffence⟩

/-- Each node that offends has a lexeme that is to blame. -/
theorem Derives.exists_culprit
    {level : Level} {e : Expr} {env : Bindings}
    (h : Derives level ls e) (hVisit : visit ∈ (e.exact env).2.2)
    (hOffence : visit.offence = some code) (hVars : vars.bindings = visit.bindings) :
    ∃ t, ⟨t, visit.column⟩ ∈ ls ∧ Culprit listing i vars code t := by
  induction h generalizing env with
  | assignOfAdditive _ ih | additiveOfMultiplicative _ ih | multiplicativeOfUnary _ ih
  | unaryOfPrimary _ ih => exact ih hVisit
  | assign _ _ _ ihr =>
      obtain ⟨t, ht, hCulprit⟩ := ihr hVisit
      exact ⟨t, List.mem_append_right _ (List.mem_cons_of_mem _ ht), hCulprit⟩
  | additive hSign _ _ ihl ihr =>
      exact exists_culprit_binary (binaryOp?_of_mem_sums hSign).1 hVisit hOffence ihl ihr
  | multiplicative hSign _ _ ihl ihr =>
      exact exists_culprit_binary (binaryOp?_of_mem_products hSign).1 hVisit hOffence ihl ihr
  | unary _ ih =>
      rcases List.mem_append.mp hVisit with hOperand | hLast
      · obtain ⟨t, ht, hCulprit⟩ := ih hOperand
        exact ⟨t, List.mem_cons_of_mem _ ht, hCulprit⟩
      · cases List.mem_singleton.mp hLast
        rw [eq_overflow_of_offenceOfResult hOffence]
        exact ⟨_, List.mem_cons_self, .overflow rfl⟩
  | @name c x =>
      cases List.mem_singleton.mp hVisit
      simp only [Option.ite_none_right_eq_some, Option.some_inj] at hOffence
      obtain ⟨hUndefined, rfl⟩ := hOffence
      obtain rfl : vars.bindings = env := hVars
      rw [Variables.bindings, Option.isNone_map, Option.isNone_iff_eq_none] at hUndefined
      exact ⟨_, List.mem_singleton.mpr rfl, .undefinedVariable hUndefined⟩
  | number => cases hVisit
  | group _ ih =>
      obtain ⟨t, ht, hCulprit⟩ := ih hVisit
      exact ⟨t, List.mem_append_left _ (List.mem_cons_of_mem _ ht), hCulprit⟩

/-- If an expression fails, a lexeme of it is to blame, and the error has its columns. -/
theorem exists_culprit_of_eval
    {e : Expr} {before : Variables} {err : Error}
    (hDerives : Derives .assign ls e) (h : e.eval.run.run before = (.error err, vars)) :
    ∃ t c, ⟨t, c⟩ ∈ ls ∧ err.column = some c ∧ Culprit listing i vars err.code t := by
  rcases (agrees_eval e before).elim with ⟨v, _, _, hRun, _⟩ | ⟨visit, code, _, hFirst, hRun, hVars⟩
  · cases h.symm.trans hRun
  · cases h.symm.trans hRun
    obtain ⟨hOffence, passed, rest, hSplit, _⟩ := firstOffence?_eq_some_iff.mp hFirst
    have hVisit : visit ∈ (e.exact before.bindings).2.2 := by simp [hSplit]
    obtain ⟨t, ht, hCulprit⟩ := hDerives.exists_culprit hVisit hOffence hVars
    exact ⟨t, visit.column, ht, rfl, hCulprit⟩

/-- A number is written with a literal, perhaps in parentheses. -/
theorem Derives.exists_literal
    {level : Level} {e : Expr} {c : Column} {v : Value}
    (h : Derives level ls e) (hInteger : e = .integer c v) :
    ∃ digits, ⟨.literal digits, c⟩ ∈ ls ∧ v.toInt = Nat.ofDigitChars 10 digits.toList 0 := by
  induction h with
  | assignOfAdditive _ ih | additiveOfMultiplicative _ ih | multiplicativeOfUnary _ ih
  | unaryOfPrimary _ ih => exact ih hInteger
  | assign | additive | multiplicative | unary | name => cases hInteger
  | number _ hValue =>
      cases hInteger
      exact ⟨_, List.mem_singleton.mpr rfl, hValue⟩
  | group _ ih =>
      obtain ⟨digits, hMem, hValue⟩ := ih hInteger
      exact ⟨digits, List.mem_append_left _ (List.mem_cons_of_mem _ hMem), hValue⟩

end Culprits

end Expr

namespace Machine

variable {σ : Type} [Console σ] {listing : Listing} {i : Instruction} {m m' : Machine σ} {e : Error}

/-- The end of the input and the failures of a console are about no token. -/
def AboutConsole (e : Error) : Prop :=
  e.column = none ∧ (e.code = .inputPastEnd ∨ e.code = .internalError)

theorem aboutConsole_of_printLine
    {line : String}
    (h : (printLine line).run.run m = some (.error e, m')) :
    AboutConsole e := by
  rw [printLine, run_useConsole, Option.some_inj, Prod.mk.injEq] at h
  obtain ⟨hResult, _⟩ := h
  cases hPrint : (Console.printLine line m.console).1 with
  | ok _ => simp [hPrint, Except.mapError] at hResult
  | error failure =>
      rw [hPrint] at hResult
      cases hResult
      exact ⟨rfl, .inr rfl⟩

theorem aboutConsole_of_readInteger
    {fuel : Nat}
    (h : (readInteger fuel).run.run m = some (.error e, m')) :
    AboutConsole e := by
  obtain ⟨_, last, _, hLast, _⟩ := exists_calls_of_readInteger fuel m m' h
  cases hLast with
  | ended => exact ⟨rfl, .inl rfl⟩
  | unread | unprinted => exact ⟨rfl, .inr rfl⟩

/-- If a statement fails, the console is to blame or a token of one of its clauses. -/
theorem exists_culprit_of_executes
    {text : List Char}
    (hParse : Instruction.parse text = .ok i) (h : Executes listing i m (.error e) m') :
    AboutConsole e ∨
      ∃ c clause t, e.column = some c ∧ clause ∈ Instruction.clauses text ∧
        c.Marks text clause t ∧ Culprit listing i m'.vars e.code t := by
  have hSpelled := Instruction.spelledBy_of_parse hParse
  obtain ⟨fuel, hRun⟩ := h
  rcases run_execute_eq_some_iff.mp hRun with ⟨d, m₁, hEffect, hDepart⟩ | ⟨_, hEffect, hError⟩
  · obtain ⟨c, target, rfl, hMissing, rfl, rfl⟩ := exists_jump_of_depart_error hDepart
    have hDeparts := departs_of_effect hEffect
    obtain ⟨clause, hClause, v, hTree, hValue⟩ := hSpelled.exists_clause_of_departs hDeparts
    obtain ⟨digits, hMem, hDigits⟩ := (Expr.derives_of_ofLexemes hTree).exists_literal rfl
    obtain rfl : Nat.ofDigitChars 10 digits.toList 0 = target :=
      Int.ofNat_inj.mp (hDigits.symm.trans hValue)
    exact .inr ⟨c, clause, .literal digits, rfl, hClause,
      Column.marks_of_mem_lexemes (Instruction.within_of_mem_clauses hClause) hMem,
      .lineNumberError hDeparts.target?_eq hMissing⟩
  · cases hError
    rcases cases_of_effect_error hEffect with
      ⟨a, hExpr, m₁, hEval⟩ | ⟨line, m₁, hPrint⟩ | ⟨_, _, _, hRead⟩
    · obtain ⟨clause, hClause, hTree⟩ := hSpelled.exists_clause_of_mem_exprs hExpr
      rw [run_eval, Option.some_inj, Prod.mk.injEq] at hEval
      obtain ⟨hResult, rfl⟩ := hEval
      obtain ⟨t, c, hMem, hColumn, hCulprit⟩ :=
        Expr.exists_culprit_of_eval (Expr.derives_of_ofLexemes hTree) (Prod.ext hResult rfl)
      exact .inr ⟨c, clause, t, hColumn, hClause,
        Column.marks_of_mem_lexemes (Instruction.within_of_mem_clauses hClause) hMem, hCulprit⟩
    · exact .inl (aboutConsole_of_printLine hPrint)
    · exact .inl (aboutConsole_of_readInteger hRead)

end Machine

/-- Whether a text is refused or fails when it is executed, the columns of its error are those of
one token of a clause.  Execution fails without columns only at the end of the input or at a console
that fails. -/
theorem error_columns_mark_tokens
    (source : String) :
    (∀ e c, Statement.parse source = .error e → e.column = some c →
      ∃ clause t, Instruction.FirstRefusing (Instruction.clauses (Text.trim source.toList)) clause e ∧
        c.Marks (Text.trim source.toList) clause t) ∧
    ∀ s, Statement.parse source = .ok s →
      ∀ (σ : Type) [Console σ] (listing : Listing) (m m' : Machine σ) (e : Error),
        Machine.Executes listing s.instruction m (.error e) m' →
        (e.column = none ∧ (e.code = .inputPastEnd ∨ e.code = .internalError)) ∨
        ∃ c clause t, e.column = some c ∧
          clause ∈ Instruction.clauses (Text.trim source.toList) ∧
          c.Marks (Text.trim source.toList) clause t ∧
          Culprit listing s.instruction m'.vars e.code t := by
  constructor
  · intro e c h hColumn
    rcases Instruction.cases_of_parse_error (Statement.parse_eq_error_iff.mp h) with
      hNone | ⟨clause, hFirst⟩
    · rw [hNone] at hColumn
      cases hColumn
    · obtain ⟨passed, rest, hAll, hPassed, hRefusing⟩ := hFirst
      have hClause : clause ∈ Instruction.clauses (Text.trim source.toList) := by
        rw [hAll]
        exact List.mem_append_right _ List.mem_cons_self
      obtain ⟨t, hMarks⟩ := Expr.exists_marks_of_refusing
        (Instruction.within_of_mem_clauses hClause) hRefusing hColumn
      exact ⟨clause, t, ⟨passed, rest, hAll, hPassed, hRefusing⟩, hMarks⟩
  · intro s hParse σ _ listing m m' e hExecutes
    have hText := Statement.parse_eq_ok_iff.mp hParse
    have hInstruction : Instruction.parse (Text.trim source.toList) = .ok s.instruction :=
      hText ▸ s.spells
    exact Machine.exists_culprit_of_executes hInstruction hExecutes

/-- Characters outside ASCII count as one each: of a token that means nothing, and of a division by
zero. -/
theorem error_columns_mark_tokens_shifted :
    (∃ e clause t, Statement.parse " №\tPRINT\u2003(É " = .error e ∧ e.column = some ⟨9, 10⟩ ∧
      (⟨9, 10⟩ : Column).Marks (Text.trim " №\tPRINT\u2003(É ".toList) clause t) ∧
    ∃ s e m' clause, Statement.parse " №\tPRINT\u20037 /(2-2) " = .ok s ∧
      Machine.Executes .empty s.instruction (.idle Transcript.empty) (.error e) m' ∧
      e.code = .divisionByZero ∧
      (⟨10, 11⟩ : Column).Marks (Text.trim " №\tPRINT\u20037 /(2-2) ".toList) clause
        (.operator .slash) := by
  constructor
  · have hParse : Statement.parse " №\tPRINT\u2003(É " =
        .error (SyntaxFault.expectedExpression.errorIn ⟨9, 10⟩) :=
      Statement.parse_eq_error_iff.mpr (by decide +kernel)
    obtain ⟨clause, t, _, hMarks⟩ := (error_columns_mark_tokens _).1 _ _ hParse rfl
    exact ⟨_, clause, t, hParse, rfl, hMarks⟩
  · let s : Statement :=
      { text := "№\tPRINT\u20037 /(2-2)"
        instruction := .print (.binary ⟨10, 11⟩ .divide (.integer ⟨8, 9⟩ ⟨7, by decide⟩)
          (.binary ⟨13, 14⟩ .subtract (.integer ⟨12, 13⟩ ⟨2, by decide⟩)
            (.integer ⟨14, 15⟩ ⟨2, by decide⟩)))
        trim_text := rfl
        spells := rfl }
    have hParse : Statement.parse " №\tPRINT\u20037 /(2-2) " = .ok s :=
      Statement.parse_eq_ok_iff.mpr (by decide +kernel)
    have hExecutes : Machine.Executes .empty s.instruction (.idle Transcript.empty)
        (.error ((Error.of .divisionByZero).inColumn ⟨10, 11⟩)) (.idle Transcript.empty) :=
      ⟨0, rfl⟩
    rcases (error_columns_mark_tokens _).2 s hParse _ _ _ _ _ hExecutes with
      ⟨hNone, _⟩ | ⟨c, clause, t, hColumn, _, hMarks, hCulprit⟩
    · cases hNone
    · cases hColumn
      cases hCulprit
      exact ⟨s, _, _, clause, hParse, hExecutes, rfl, hMarks⟩

end IntegerBasic
