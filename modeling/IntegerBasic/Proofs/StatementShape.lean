import IntegerBasic.Console.Transcript
import IntegerBasic.Proofs.Columns
import IntegerBasic.Proofs.Effect

/-!
# What accepted statements look like

**Definitions.**  A tree is `WellFormed` when its numbers have no sign and its names are spelled as
names are; an instruction is when its trees are, a `LET` assigns, and the operands of a condition
assign nothing, however deep one looks.

**Argument.**  An `=` between operands would be an assignment.  But a condition is cut at its only
relation sign, so there is no `=` left in the text of either operand; a token is written with
characters of its text, and so no operand has a token that could assign.  What assigns nothing does
not change the variables when it is evaluated, and a condition does nothing but evaluate.

**Results.**
* `wellFormed_of_parse`: whatever is accepted is well formed.
* `run_eval_of_pure`, `run_branch_of_pure`: what assigns nothing leaves the variables alone.
* `wellFormed_and_conditions_pure`: both for the statement of a text.
-/

namespace IntegerBasic

namespace Expr

/-- The numbers have no sign, and the names are spelled as names are. -/
def WellFormed : Expr → Prop
  | integer _ v => 0 ≤ v.toInt ∧ v.toInt ≤ 2147483647
  | var _ x => (Token.ident x).WellFormed
  | negation _ e => e.WellFormed
  | binary _ _ l r => l.WellFormed ∧ r.WellFormed
  | assign _ x e => (Token.ident x).WellFormed ∧ e.WellFormed

/-- Well-formed tokens spell well-formed trees. -/
theorem Derives.wellFormed
    {level : Level} {ls : List Lexeme} {e : Expr}
    (h : Derives level ls e) (hAll : ∀ l ∈ ls, l.token.WellFormed) :
    e.WellFormed := by
  induction h with
  | assignOfAdditive _ ih | additiveOfMultiplicative _ ih | multiplicativeOfUnary _ ih
  | unaryOfPrimary _ ih => exact ih hAll
  | assign _ _ ihl ihr | additive _ _ _ ihl ihr | multiplicative _ _ _ ihl ihr =>
      simp only [List.forall_mem_append, List.forall_mem_cons] at hAll
      exact ⟨ihl hAll.1, ihr hAll.2.2⟩
  | unary _ ih =>
      rw [List.forall_mem_cons] at hAll
      exact ih hAll.2
  | name => exact hAll _ List.mem_cons_self
  | @number c digits v _ hValue =>
      refine ⟨?_, v.inRange.2⟩
      rw [hValue]
      exact Int.natCast_nonneg _
  | group _ ih =>
      simp only [List.forall_mem_append, List.forall_mem_cons] at hAll
      exact ih hAll.1.2

/-- Only the token `=` makes an assignment. -/
theorem Derives.assignedNames_eq_nil
    {level : Level} {ls : List Lexeme} {e : Expr}
    (h : Derives level ls e) (hAll : ∀ l ∈ ls, l.token ≠ .operator .equal) :
    e.assignedNames = [] := by
  induction h with
  | assignOfAdditive _ ih | additiveOfMultiplicative _ ih | multiplicativeOfUnary _ ih
  | unaryOfPrimary _ ih => exact ih hAll
  | assign =>
      simp only [List.forall_mem_append, List.forall_mem_cons] at hAll
      exact absurd rfl hAll.2.1
  | additive _ _ _ ihl ihr | multiplicative _ _ _ ihl ihr =>
      simp only [List.forall_mem_append, List.forall_mem_cons] at hAll
      rw [assignedNames, ihl hAll.1, ihr hAll.2.2, List.append_nil]
  | unary _ ih =>
      rw [List.forall_mem_cons] at hAll
      exact ih hAll.2
  | name | number => rfl
  | group _ ih =>
      simp only [List.forall_mem_append, List.forall_mem_cons] at hAll
      exact ih hAll.1.2

section Parsing

variable {f : Fragment} {e : Expr}

theorem wellFormed_of_parse
    (h : parse f = .ok e) :
    e.WellFormed := by
  have hDerives : Derives .assign (lexemes f.offset (lex f.chars)) e := derives_of_ofLexemes h
  apply hDerives.wellFormed
  intro l hl
  exact wellFormed_of_mem_lex (token_mem_of_mem_lexemes hl)

/-- A text without `=` assigns nothing. -/
theorem assignedNames_of_parse
    (hChars : '=' ∉ f.chars) (h : parse f = .ok e) :
    e.assignedNames = [] := by
  have hDerives : Derives .assign (lexemes f.offset (lex f.chars)) e := derives_of_ofLexemes h
  apply hDerives.assignedNames_eq_nil
  intro l hl hToken
  have hMem := token_mem_of_mem_lexemes hl
  rw [hToken] at hMem
  exact hChars (mem_of_mem_chars hMem rfl List.mem_cons_self)

end Parsing

/-- Evaluating what assigns nothing leaves the variables alone. -/
theorem run_eval_of_pure
    {e : Expr} (h : e.assignedNames = []) (vars : Variables) :
    ∃ result, e.eval.run.run vars = (result, vars) := by
  induction e with
  | integer c v => exact ⟨.ok v, rfl⟩
  | var c x => exact ⟨(vars.fetch x).mapError (Error.inColumn c), rfl⟩
  | negation c e ih =>
      obtain ⟨result, hRun⟩ := ih h
      cases result with
      | error err => exact ⟨.error err, Eval.run_bind_of_error hRun _⟩
      | ok v => exact ⟨v.negate.mapError (Error.inColumn c), Eval.run_bind_of_ok hRun _⟩
  | binary c op l r ihl ihr =>
      rw [assignedNames, List.append_eq_nil_iff] at h
      obtain ⟨left, hLeft⟩ := ihl h.1
      cases left with
      | error err => exact ⟨.error err, Eval.run_bind_of_error hLeft _⟩
      | ok a =>
          rw [eval, Eval.run_bind_of_ok hLeft]
          obtain ⟨right, hRight⟩ := ihr h.2
          cases right with
          | error err => exact ⟨.error err, Eval.run_bind_of_error hRight _⟩
          | ok b => exact ⟨(op.apply a b).mapError (Error.inColumn c), Eval.run_bind_of_ok hRight _⟩
  | assign c x e => simp [assignedNames] at h

end Expr

namespace Instruction

/-- The trees are well formed, a `LET` assigns, and the operands of a condition do not. -/
def WellFormed : Instruction → Prop
  | remark | stop | jump .. => True
  | assign e => e.WellFormed ∧ ∃ c x rhs, e = .assign c x rhs
  | print e => e.WellFormed
  | input _ x => (Token.ident x).WellFormed
  | branch l _ r _ _ =>
      (l.WellFormed ∧ l.assignedNames = []) ∧ (r.WellFormed ∧ r.assignedNames = [])

section Clauses

variable {clause : Fragment} {i : Instruction}

theorem wellFormed_of_parseAssign
    (h : parseAssign clause = .ok i) :
    i.WellFormed := by
  rw [parseAssign, bind_eq_ok_iff] at h
  obtain ⟨e, hClause, h⟩ := h
  have hWell : e.WellFormed := Expr.wellFormed_of_parse hClause
  cases e with
  | assign c x rhs =>
      cases h
      exact ⟨hWell, c, x, rhs, rfl⟩
  | integer | var | negation | binary => contradiction

theorem wellFormed_of_parseInput
    (h : parseInput clause = .ok i) :
    i.WellFormed := by
  rw [parseInput, bind_eq_ok_iff] at h
  obtain ⟨e, hClause, h⟩ := h
  have hWell : e.WellFormed := Expr.wellFormed_of_parse hClause
  cases e with
  | var c x =>
      cases h
      exact hWell
  | integer | negation | binary | assign => contradiction

/-- A clause without `=` is a tree that assigns nothing. -/
theorem pure_of_clauseExpr
    {e : Expr}
    (hChars : '=' ∉ clause.chars) (h : clauseExpr clause = .ok e) :
    e.WellFormed ∧ e.assignedNames = [] := by
  have hTrimmed : '=' ∉ clause.trim.chars := fun hMem => hChars (Text.mem_of_mem_trim hMem)
  exact ⟨Expr.wellFormed_of_parse h, Expr.assignedNames_of_parse hTrimmed h⟩

/-- A condition is cut at its only relation sign, which leaves no `=` on either side. -/
theorem equal_notMem_of_cutCondition
    {lhs rhs : Fragment} {relation : Comparison}
    (h : cutCondition clause = .ok (lhs, relation, rhs)) :
    '=' ∉ lhs.chars ∧ '=' ∉ rhs.chars := by
  have hCut := cutWhere?_of_cutCondition h
  constructor
  · rw [Fragment.cutWhere?, Option.map_eq_some_iff] at hCut
    obtain ⟨⟨before, b, after⟩, hText, hTriple⟩ := hCut
    simp only [Prod.mk.injEq] at hTriple
    obtain ⟨rfl, rfl, rfl⟩ := hTriple
    intro hMem
    have hNone := Text.none_before_of_cutWhere? hText '=' hMem
    cases hNone
  · intro hMem
    have hAny : (rhs.chars.any fun c => (Comparison.ofChar? c).isSome) = true :=
      List.any_eq_true.mpr ⟨'=', hMem, rfl⟩
    simp [cutCondition, hCut, hAny] at h

theorem wellFormed_of_parseBranch
    (h : parseBranch clause = .ok i) :
    i.WellFormed := by
  rw [parseBranch] at h
  cases hThen : clause.cutAt? Keyword.thenWord with
  | none =>
      simp only [hThen] at h
      contradiction
  | some pieces =>
      simp only [hThen, bind_eq_ok_iff] at h
      obtain ⟨_, _, ⟨lhs, relation, rhs⟩, hCondition, l, hLeft, r, hRight, h⟩ := h
      cases h
      obtain ⟨hNotLeft, hNotRight⟩ := equal_notMem_of_cutCondition hCondition
      exact ⟨pure_of_clauseExpr hNotLeft hLeft, pure_of_clauseExpr hNotRight hRight⟩

theorem wellFormed_of_ofClause
    {k : Keyword}
    (h : ofClause k clause = .ok i) :
    i.WellFormed := by
  cases k with
  | remark | stop =>
      cases h
      trivial
  | assign => exact wellFormed_of_parseAssign h
  | print =>
      rw [ofClause, bind_eq_ok_iff] at h
      obtain ⟨e, hClause, h⟩ := h
      cases h
      exact Expr.wellFormed_of_parse hClause
  | input => exact wellFormed_of_parseInput h
  | jump =>
      rw [ofClause, bind_eq_ok_iff] at h
      obtain ⟨_, _, h⟩ := h
      cases h
      trivial
  | branch => exact wellFormed_of_parseBranch h

end Clauses

/-- Whatever is accepted is well formed. -/
theorem wellFormed_of_parse
    {text : List Char} {i : Instruction}
    (h : parse text = .ok i) :
    i.WellFormed := by
  rw [parse] at h
  split at h
  · contradiction
  · exact wellFormed_of_ofClause h

end Instruction

namespace Machine

variable {σ : Type}

theorem run_eval_of_pure
    {e : Expr} (h : e.assignedNames = []) (m : Machine σ) :
    ∃ result, (eval e).run.run m = some (result, m) := by
  obtain ⟨result, hRun⟩ := Expr.run_eval_of_pure h m.vars
  exact ⟨result, by rw [run_eval, hRun]⟩

variable [Console σ]

theorem run_effect_branch_of_pure
    {l r : Expr}
    (hLeft : l.assignedNames = []) (hRight : r.assignedNames = []) (fuel : Nat)
    (relation : Comparison) (c : Column) (target : LineNumber) (m : Machine σ) :
    ∃ result, (effect fuel (.branch l relation r c target)).run.run m = some (result, m) := by
  obtain ⟨left, hRunLeft⟩ := run_eval_of_pure hLeft m
  rw [effect]
  cases left with
  | error e => exact ⟨.error e, Action.run_bind_of_error hRunLeft _⟩
  | ok a =>
      rw [Action.run_bind_of_ok hRunLeft]
      obtain ⟨right, hRunRight⟩ := run_eval_of_pure hRight m
      cases right with
      | error e => exact ⟨.error e, Action.run_bind_of_error hRunRight _⟩
      | ok b => exact ⟨.ok _, Action.run_bind_of_ok hRunRight _⟩

/-- A condition that assigns nothing changes nothing but the cursor and the record, whether the
statement succeeds or fails. -/
theorem run_branch_of_pure
    {l r : Expr}
    (hLeft : l.assignedNames = []) (hRight : r.assignedNames = []) (fuel : Nat)
    (listing : Listing) (relation : Comparison) (c : Column) (target : LineNumber)
    (m : Machine σ) :
    ∃ result cursor events, (execute fuel listing (.branch l relation r c target)).run.run m =
      some (result, { m with cursor := cursor, events := events }) := by
  obtain ⟨result, hEffect⟩ := run_effect_branch_of_pure hLeft hRight fuel relation c target m
  rw [execute_eq]
  cases result with
  | error e => exact ⟨.error e, m.cursor, m.events, Action.run_bind_of_error hEffect _⟩
  | ok d =>
      rw [Action.run_bind_of_ok hEffect]
      exact exists_run_depart listing d m

end Machine

namespace Statement

/-- An accepted statement is well formed.  Executing a condition comes to an end and changes nothing
but the cursor and the record of events. -/
theorem wellFormed_and_conditions_pure
    {source : String} {s : Statement}
    (h : parse source = .ok s) :
    s.instruction.WellFormed ∧
    ∀ l relation r c n, s.instruction = .branch l relation r c n →
      ∀ {σ : Type} [Console σ] (fuel : Nat) (listing : Listing) (m : Machine σ),
        ∃ result cursor events, (Machine.execute fuel listing s.instruction).run.run m =
          some (result, { m with cursor := cursor, events := events }) := by
  have hSpells : Instruction.parse (Text.trim source.toList) = .ok s.instruction := by
    rw [parse_eq_ok_iff.mp h]
    exact s.spells
  have hWell : s.instruction.WellFormed := Instruction.wellFormed_of_parse hSpells
  refine ⟨hWell, ?_⟩
  intro l relation r c n hBranch σ _ fuel listing m
  rw [hBranch] at hWell ⊢
  exact Machine.run_branch_of_pure hWell.1.2 hWell.2.2 fuel listing relation c n m

/-- The `=` of a condition compares, also where it could be read as an assignment. -/
theorem wellFormed_and_conditions_pure_equal :
    ∃ s, parse "IF A = -(B_2) * 07 THEN 20" = .ok s ∧ s.instruction.WellFormed ∧
      ∀ fuel listing (m : Machine Transcript), ∃ result cursor events,
        (Machine.execute fuel listing s.instruction).run.run m =
          some (result, { m with cursor := cursor, events := events }) := by
  let s : Statement :=
    { text := "IF A = -(B_2) * 07 THEN 20"
      instruction := .branch (.var ⟨3, 4⟩ "A") .equal
        (.binary ⟨14, 15⟩ .multiply (.negation ⟨7, 8⟩ (.var ⟨9, 12⟩ "B_2"))
          (.integer ⟨16, 18⟩ ⟨7, by decide⟩)) ⟨24, 26⟩ 20
      trim_text := rfl
      spells := rfl }
  have hParse : parse "IF A = -(B_2) * 07 THEN 20" = .ok s := parse_text s
  obtain ⟨hWell, hPure⟩ := wellFormed_and_conditions_pure hParse
  exact ⟨s, hParse, hWell, hPure _ _ _ _ _ rfl⟩

end Statement

end IntegerBasic
