import IntegerBasic.Proofs.Effect
import IntegerBasic.Statement

/-!
# The clauses of a statement

**Definitions.**  `clauses text` are the parts of a text that are parsed as expressions, in the
order in which that is done; for a branch the target comes first.  `SpelledBy` lists what the trees
of the clauses have to be for an instruction.  `FirstRefusing` says that the clauses before one are
parsed, and that this one is not what it should be.

**Results.**
* `within_of_mem_clauses`: the clauses are parts of the text.
* `cases_of_parse_error`: a text is refused for its first clause that is wrong, or blames nothing.
* `spelledBy_of_parse`: the instruction of a text is spelled by its clauses.
-/

namespace IntegerBasic
namespace Instruction

/-- The clauses that are parsed after a keyword, without the white space around them. -/
def clausesOf (k : Keyword) (clause : Fragment) : List Fragment :=
  match k with
  | .remark | .stop => []
  | .assign | .print | .input | .jump => [clause.trim]
  | .branch =>
      match clause.cutAt? Keyword.thenWord with
      | none => []
      | some (condition, target) =>
          match cutCondition condition with
          | .error _ => [target.trim]
          | .ok (lhs, _, rhs) => [target.trim, lhs.trim, rhs.trim]

/-- The clauses of a text, in the order in which they are parsed. -/
def clauses (text : List Char) : List Fragment :=
  match Keyword.classify? (.whole text) with
  | none => []
  | some (k, clause) => clausesOf k clause

theorem cutWhere?_of_cutCondition
    {condition lhs rhs : Fragment} {relation : Comparison}
    (h : cutCondition condition = .ok (lhs, relation, rhs)) :
    condition.cutWhere? Comparison.ofChar? = some (lhs, relation, rhs) := by
  rw [cutCondition] at h
  split at h
  · contradiction
  · next hCut =>
      split at h
      · contradiction
      · cases h
        exact hCut

section Within

variable {text : List Char} {clause part : Fragment} {k : Keyword}

theorem within_of_mem_clausesOf
    (hWithin : clause.Within text) (h : part ∈ clausesOf k clause) :
    part.Within text := by
  cases k with
  | remark | stop => cases h
  | assign | print | input | jump =>
      rw [List.mem_singleton.mp h]
      exact hWithin.trim
  | branch =>
      simp only [clausesOf] at h
      split at h
      · cases h
      · next condition target hThen =>
          obtain ⟨hCondition, hTarget⟩ := hWithin.of_cutAt? hThen
          split at h
          · rw [List.mem_singleton.mp h]
            exact hTarget.trim
          · next lhs relation rhs hCut =>
              obtain ⟨hLeft, hRight⟩ := hCondition.of_cutWhere? (cutWhere?_of_cutCondition hCut)
              simp only [List.mem_cons, List.not_mem_nil, or_false] at h
              rcases h with rfl | rfl | rfl
              · exact hTarget.trim
              · exact hLeft.trim
              · exact hRight.trim

/-- The clauses are parts of the text. -/
theorem within_of_mem_clauses
    (h : part ∈ clauses text) :
    part.Within text := by
  unfold clauses at h
  split at h
  · cases h
  · next hClassify =>
      exact within_of_mem_clausesOf
        (Keyword.within_of_classify? (Fragment.within_whole text) hClassify) h

end Within

section Refusal

variable {clause : Fragment} {e : Error}

/-- The clause is refused with the error: it spells no expression, or one of which the root is to
blame. -/
def Refusing (clause : Fragment) (e : Error) : Prop :=
  Expr.parse clause = .error e ∨
    ∃ tree, Expr.parse clause = .ok tree ∧ e.column = some tree.column

/-- All clauses before this one are parsed, and this one is refused with the error. -/
def FirstRefusing (all : List Fragment) (clause : Fragment) (e : Error) : Prop :=
  ∃ passed rest, all = passed ++ clause :: rest ∧
    (∀ p ∈ passed, ∃ tree, Expr.parse p = .ok tree) ∧ Refusing clause e

/-- A clause that has to be an expression of some form is refused if it is none, or else for its
root. -/
theorem refusing_of_clauseExpr
    {α : Type} {f : Expr → Except Error α}
    (hRoot : ∀ tree err, f tree = .error err → err.column = some tree.column)
    (h : (clauseExpr clause >>= f) = .error e) :
    Refusing clause.trim e := by
  rcases bind_eq_error_iff.mp h with hParse | ⟨tree, hParse, hRefused⟩
  · exact .inl hParse
  · exact .inr ⟨tree, hParse, hRoot tree e hRefused⟩

theorem refusing_of_parseAssign
    (h : parseAssign clause = .error e) :
    Refusing clause.trim e := by
  refine refusing_of_clauseExpr (fun tree err hRefused => ?_) h
  cases tree <;> cases hRefused <;> rfl

theorem refusing_of_parseInput
    (h : parseInput clause = .error e) :
    Refusing clause.trim e := by
  refine refusing_of_clauseExpr (fun tree err hRefused => ?_) h
  cases tree <;> cases hRefused <;> rfl

theorem refusing_of_parseTarget
    (h : parseTarget clause = .error e) :
    Refusing clause.trim e := by
  refine refusing_of_clauseExpr (fun tree err hRefused => ?_) h
  cases tree with
  | integer c v =>
      simp only at hRefused
      split at hRefused
      · cases hRefused
      · cases hRefused
        rfl
  | var | negation | binary | assign =>
      cases hRefused
      rfl

theorem column_of_cutCondition_error
    (h : cutCondition clause = .error e) :
    e.column = none := by
  unfold cutCondition at h
  split at h
  · cases h
    rfl
  · split at h
    · cases h
      rfl
    · cases h

/-- A branch is refused for its target, then for its condition as a whole, and then for its
operands. -/
theorem cases_of_parseBranch_error
    (h : parseBranch clause = .error e) :
    e.column = none ∨ ∃ part, FirstRefusing (clausesOf .branch clause) part e := by
  rw [parseBranch] at h
  cases hThen : clause.cutAt? Keyword.thenWord with
  | none =>
      simp only [hThen] at h
      cases h
      exact .inl rfl
  | some pieces =>
      obtain ⟨condition, target⟩ := pieces
      simp only [hThen] at h
      rcases bind_eq_error_iff.mp h with hTarget | ⟨⟨c, n⟩, hTarget, h⟩
      · refine .inr ⟨target.trim, [], ?_⟩
        have hRefusing := refusing_of_parseTarget hTarget
        cases hCut : cutCondition condition with
        | error _ => exact ⟨[], by simp [clausesOf, hThen, hCut], nofun, hRefusing⟩
        | ok cut =>
            exact ⟨[cut.1.trim, cut.2.2.trim], by simp [clausesOf, hThen, hCut], nofun, hRefusing⟩
      · obtain ⟨tree, hTree, _⟩ := bind_eq_ok_iff.mp hTarget
        have hPassed : Expr.parse target.trim = .ok tree := hTree
        rcases bind_eq_error_iff.mp h with hCut | ⟨⟨lhs, relation, rhs⟩, hCut, h⟩
        · exact .inl (column_of_cutCondition_error hCut)
        · have hAll : clausesOf .branch clause = [target.trim, lhs.trim, rhs.trim] := by
            simp [clausesOf, hThen, hCut]
          rcases bind_eq_error_iff.mp h with hLeft | ⟨l, hLeft, h⟩
          · exact .inr ⟨lhs.trim, [target.trim], [rhs.trim], hAll,
              List.forall_mem_singleton.mpr ⟨tree, hPassed⟩, .inl hLeft⟩
          · rcases bind_eq_error_iff.mp h with hRight | ⟨r, _, h⟩
            · exact .inr ⟨rhs.trim, [target.trim, lhs.trim], [], hAll,
                List.forall_mem_cons.mpr ⟨⟨tree, hPassed⟩,
                  List.forall_mem_singleton.mpr ⟨l, hLeft⟩⟩, .inl hRight⟩
            · cases h

theorem cases_of_ofClause_error
    {k : Keyword}
    (h : ofClause k clause = .error e) :
    e.column = none ∨ ∃ part, FirstRefusing (clausesOf k clause) part e := by
  cases k with
  | remark | stop => cases h
  | assign => exact .inr ⟨_, [], [], rfl, nofun, refusing_of_parseAssign h⟩
  | print =>
      rcases bind_eq_error_iff.mp h with hParse | ⟨tree, _, hRest⟩
      · exact .inr ⟨_, [], [], rfl, nofun, .inl hParse⟩
      · cases hRest
  | input => exact .inr ⟨_, [], [], rfl, nofun, refusing_of_parseInput h⟩
  | jump =>
      rcases bind_eq_error_iff.mp h with hTarget | ⟨target, _, hRest⟩
      · exact .inr ⟨_, [], [], rfl, nofun, refusing_of_parseTarget hTarget⟩
      · cases hRest
  | branch => exact cases_of_parseBranch_error h

/-- A text is refused for its first clause that is wrong, or the error blames nothing. -/
theorem cases_of_parse_error
    {text : List Char}
    (h : parse text = .error e) :
    e.column = none ∨ ∃ part, FirstRefusing (clauses text) part e := by
  rw [parse] at h
  cases hClassify : Keyword.classify? (.whole text) with
  | none =>
      simp only [hClassify] at h
      cases h
      exact .inl rfl
  | some found =>
      obtain ⟨k, clause⟩ := found
      simp only [hClassify] at h
      simp only [clauses, hClassify]
      exact cases_of_ofClause_error h

end Refusal

/-- The trees of the clauses are those of the instruction. -/
inductive SpelledBy : List Fragment → Instruction → Prop
  | remark :
      SpelledBy [] .remark
  | assign {clause : Fragment} {c : Column} {x : Name} {rhs : Expr} :
      Expr.parse clause = .ok (.assign c x rhs) →
      SpelledBy [clause] (.assign (.assign c x rhs))
  | print {clause : Fragment} {e : Expr} :
      Expr.parse clause = .ok e →
      SpelledBy [clause] (.print e)
  | input {clause : Fragment} {c : Column} {x : Name} :
      Expr.parse clause = .ok (.var c x) →
      SpelledBy [clause] (.input c x)
  | stop :
      SpelledBy [] .stop
  | jump {clause : Fragment} {c : Column} {v : Value} {n : LineNumber} :
      Expr.parse clause = .ok (.integer c v) →
      v.toInt = n →
      SpelledBy [clause] (.jump c n)
  | branch {target lhs rhs : Fragment} {l r : Expr} {relation : Comparison} {c : Column} {v : Value}
      {n : LineNumber} :
      Expr.parse target = .ok (.integer c v) →
      v.toInt = n →
      Expr.parse lhs = .ok l →
      Expr.parse rhs = .ok r →
      SpelledBy [target, lhs, rhs] (.branch l relation r c n)

section Spelling

variable {clause : Fragment} {i : Instruction}

theorem exists_integer_of_parseTarget
    {c : Column} {n : LineNumber}
    (h : parseTarget clause = .ok (c, n)) :
    ∃ v, Expr.parse clause.trim = .ok (.integer c v) ∧ v.toInt = n := by
  obtain ⟨tree, hTree, h⟩ := bind_eq_ok_iff.mp h
  cases tree with
  | integer d v =>
      simp only at h
      split at h
      · next hSign =>
          cases h
          exact ⟨v, hTree, (Int.toNat_of_nonneg hSign).symm⟩
      · cases h
  | var | negation | binary | assign => cases h

theorem spelledBy_of_parseBranch
    (h : parseBranch clause = .ok i) :
    SpelledBy (clausesOf .branch clause) i := by
  rw [parseBranch] at h
  cases hThen : clause.cutAt? Keyword.thenWord with
  | none =>
      simp only [hThen] at h
      cases h
  | some pieces =>
      obtain ⟨condition, target⟩ := pieces
      simp only [hThen, bind_eq_ok_iff] at h
      obtain ⟨⟨c, n⟩, hTarget, ⟨lhs, relation, rhs⟩, hCut, l, hLeft, r, hRight, h⟩ := h
      cases h
      obtain ⟨v, hInteger, hValue⟩ := exists_integer_of_parseTarget hTarget
      simp only [clausesOf, hThen, hCut]
      exact .branch hInteger hValue hLeft hRight

theorem spelledBy_of_ofClause
    {k : Keyword}
    (h : ofClause k clause = .ok i) :
    SpelledBy (clausesOf k clause) i := by
  cases k with
  | remark =>
      cases h
      exact .remark
  | assign =>
      obtain ⟨tree, hTree, h⟩ := bind_eq_ok_iff.mp h
      cases tree with
      | assign c x rhs =>
          cases h
          exact .assign hTree
      | integer | var | negation | binary => cases h
  | print =>
      obtain ⟨tree, hTree, h⟩ := bind_eq_ok_iff.mp h
      cases h
      exact .print hTree
  | input =>
      obtain ⟨tree, hTree, h⟩ := bind_eq_ok_iff.mp h
      cases tree with
      | var c x =>
          cases h
          exact .input hTree
      | integer | negation | binary | assign => cases h
  | stop =>
      cases h
      exact .stop
  | jump =>
      obtain ⟨⟨c, n⟩, hTarget, h⟩ := bind_eq_ok_iff.mp h
      cases h
      obtain ⟨v, hInteger, hValue⟩ := exists_integer_of_parseTarget hTarget
      exact .jump hInteger hValue
  | branch => exact spelledBy_of_parseBranch h

/-- The instruction of a text is spelled by its clauses. -/
theorem spelledBy_of_parse
    {text : List Char}
    (h : parse text = .ok i) :
    SpelledBy (clauses text) i := by
  rw [parse] at h
  cases hClassify : Keyword.classify? (.whole text) with
  | none =>
      simp only [hClassify] at h
      cases h
  | some found =>
      obtain ⟨k, clause⟩ := found
      simp only [hClassify] at h
      simp only [clauses, hClassify]
      exact spelledBy_of_ofClause h

/-- Each expression of an instruction is the tree of a clause. -/
theorem SpelledBy.exists_clause_of_mem_exprs
    {all : List Fragment} {e : Expr}
    (h : SpelledBy all i) (hExpr : e ∈ i.exprs) :
    ∃ clause ∈ all, Expr.parse clause = .ok e := by
  cases h with
  | remark | stop | input | jump => cases hExpr
  | assign hParse | print hParse =>
      cases List.mem_singleton.mp hExpr
      exact ⟨_, List.mem_cons_self, hParse⟩
  | branch _ _ hLeft hRight =>
      simp only [exprs, List.mem_cons, List.not_mem_nil, or_false] at hExpr
      rcases hExpr with rfl | rfl
      · exact ⟨_, List.mem_cons_of_mem _ List.mem_cons_self, hLeft⟩
      · exact ⟨_, List.mem_cons_of_mem _ (List.mem_cons_of_mem _ List.mem_cons_self), hRight⟩

/-- What is jumped to is the number of a clause. -/
theorem SpelledBy.exists_clause_of_departs
    {all : List Fragment} {vars : Variables} {c : Column} {n : LineNumber}
    (h : SpelledBy all i) (hDeparts : Departs vars i (.jump c n)) :
    ∃ clause ∈ all, ∃ v, Expr.parse clause = .ok (.integer c v) ∧ v.toInt = n := by
  cases hDeparts with
  | jump =>
      cases h with
      | jump hParse hValue => exact ⟨_, List.mem_cons_self, _, hParse, hValue⟩
  | taken =>
      cases h with
      | branch hParse hValue => exact ⟨_, List.mem_cons_self, _, hParse, hValue⟩

end Spelling

end Instruction
end IntegerBasic
