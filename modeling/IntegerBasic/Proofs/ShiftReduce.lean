import IntegerBasic.Proofs.Derivation
import IntegerBasic.Proofs.Outcome

/-!
# What the parser returns is derived

**Input.**  Any list of lexemes.

**Invariant.**  `Opens frames ls` says that the open constructs `frames` were opened by the
lexemes `ls`, each with a left operand that the grammar derives, and that each construct may stand
as the last operand of the one around it.  What the parser has read is then either `Opens` alone
or `Opens` followed by one primary expression.

**Results.**
* `reads_step`, `reads_foldlM`: one step and a whole run of the parser keep the invariant.
* `derives_of_ofLexemes`: a tree that the parser returns is derived from the lexemes.
-/

namespace IntegerBasic
namespace Expr

/-- How tightly the last operand of an open construct has to bind. -/
def Frame.demand : Frame → Nat
  | group | assign .. => 1
  | binary _ op _ => op.level + 1
  | minus _ => 4

/-- The open constructs ask for no operand that binds more tightly than `strength`. -/
def Fits (strength : Nat) (frames : List Frame) : Prop :=
  ∀ f ∈ frames.head?, f.demand ≤ strength

/-- The lexemes that opened the constructs which are still open, innermost first. -/
inductive Opens : List Frame → List Lexeme → Prop
  | none :
      Opens [] []
  | group {frames : List Frame} {ls : List Lexeme} {c : Column} :
      Opens frames ls →
      Opens (.group :: frames) (ls ++ [⟨.leftParen, c⟩])
  | minus {frames : List Frame} {ls : List Lexeme} {c : Column} :
      Opens frames ls →
      Opens (.minus c :: frames) (ls ++ [⟨.operator .minus, c⟩])
  | binary {frames : List Frame} {ls os : List Lexeme} {c : Column} {sign : Operator}
      {op : BinaryOp} {lhs : Expr} :
      Opens frames ls →
      Fits op.level frames →
      sign.binaryOp? = some op →
      Derives (.atLeast op.level) os lhs →
      Opens (.binary c op lhs :: frames) (ls ++ os ++ [⟨.operator sign, c⟩])
  | assign {frames : List Frame} {ls os : List Lexeme} {c : Column} {lhs : Expr} :
      Opens frames ls →
      Fits 1 frames →
      Derives .additive os lhs →
      Opens (.assign c lhs :: frames) (ls ++ os ++ [⟨.operator .equal, c⟩])

theorem level_le_three
    (op : BinaryOp) :
    op.level ≤ 3 := by
  cases op <;> decide

theorem two_le_level
    (op : BinaryOp) :
    2 ≤ op.level := by
  cases op <;> decide

theorem fits_four
    (frames : List Frame) :
    Fits 4 frames := by
  intro f _
  cases f with
  | binary _ op =>
      have := level_le_three op
      simp only [Frame.demand]
      omega
  | group | minus | assign => simp [Frame.demand]

theorem Fits.mono
    {strength strength' : Nat} {frames : List Frame}
    (hFits : Fits strength frames) (hLe : strength ≤ strength') :
    Fits strength' frames :=
  fun f hf => Nat.le_trans (hFits f hf) hLe

/-- A construct that binds more loosely than `floor` is content with an operand that binds as
tightly as `floor`. -/
theorem demand_le_of_level_lt
    {floor : Nat} {f : Frame}
    (h : f.level < floor) :
    f.demand ≤ floor := by
  cases f <;> simp only [Frame.level, Frame.demand] at * <;> omega

theorem demand_le_one_of_level_lt_two
    {f : Frame}
    (h : f.level < 2) :
    f.demand ≤ 1 := by
  cases f with
  | binary _ op =>
      have := two_le_level op
      simp only [Frame.level] at h
      omega
  | minus => simp [Frame.level] at h
  | group | assign => simp [Frame.demand]

theorem fits_of_settle
    {floor : Nat} {frames frames' : List Frame} {e e' : Expr}
    (h : settle floor frames e = .ok (frames', e')) :
    Fits floor frames' :=
  fun f hf => demand_le_of_level_lt (level_lt_of_settle h f hf)

/-- Closing a construct leaves its lexemes to the operand, which then binds as the construct
does. -/
theorem Opens.close
    {f : Frame} {frames : List Frame} {ls os : List Lexeme} {e e' : Expr}
    (hOpens : Opens (f :: frames) ls)
    (hDerives : Derives (.atLeast f.demand) os e)
    (hLevel : 1 ≤ f.level)
    (hClose : f.close e = .ok e') :
    ∃ before os', ls ++ os = before ++ os' ∧ Opens frames before ∧
      Derives (.atLeast f.level) os' e' ∧ Fits f.level frames := by
  cases hOpens with
  | group => simp [Frame.level] at hLevel
  | @minus _ before c hRest =>
      obtain rfl : Expr.negation c e = e' := by simpa [Frame.close] using hClose
      exact ⟨before, ⟨.operator .minus, c⟩ :: os, by simp, hRest, .unary hDerives, fits_four _⟩
  | @binary _ before ls c sign op lhs hRest hFits hSign hLhs =>
      obtain rfl : Expr.binary c op lhs e = e' := by simpa [Frame.close] using hClose
      exact ⟨before, ls ++ ⟨.operator sign, c⟩ :: os, by simp, hRest,
        .binary hSign hLhs hDerives, hFits⟩
  | @assign _ before ls c lhs hRest hFits hLhs =>
      cases lhs with
      | var d x =>
          obtain rfl : Expr.assign c x e = e' := by simpa [Frame.close] using hClose
          exact ⟨before, ls ++ ⟨.operator .equal, c⟩ :: os, by simp, hRest,
            .assign hLhs hDerives, hFits⟩
      | integer | negation | binary | assign => simp [Frame.close] at hClose

/-- Closing constructs keeps the invariant, by induction on the stack: each closed construct is
the last operand of the next one. -/
theorem Opens.settle
    {floor strength : Nat} {frames frames' : List Frame} {ls os : List Lexeme} {e e' : Expr}
    (hOpens : Opens frames ls)
    (hFits : Fits strength frames)
    (hDerives : Derives (.atLeast strength) os e)
    (hPos : 1 ≤ floor) (hFloor : floor ≤ strength)
    (h : settle floor frames e = .ok (frames', e')) :
    ∃ before os', ls ++ os = before ++ os' ∧ Opens frames' before ∧
      Derives (.atLeast floor) os' e' := by
  induction frames generalizing strength ls os e with
  | nil =>
      simp only [Expr.settle, Except.ok.injEq, Prod.mk.injEq] at h
      obtain ⟨rfl, rfl⟩ := h
      exact ⟨ls, os, rfl, hOpens, hDerives.loosen hFloor⟩
  | cons f frames ih =>
      by_cases hLevel : floor ≤ f.level
      · rw [Expr.settle, if_pos hLevel, bind_eq_ok_iff] at h
        obtain ⟨closed, hClose, hSettle⟩ := h
        have hOperand := hDerives.loosen (hFits f rfl)
        obtain ⟨before, os', hSplit, hRest, hClosed, hFits'⟩ :=
          hOpens.close hOperand (Nat.le_trans hPos hLevel) hClose
        rw [hSplit]
        exact ih hRest hFits' hClosed hLevel hSettle
      · rw [Expr.settle, if_neg hLevel] at h
        simp only [Except.ok.injEq, Prod.mk.injEq] at h
        obtain ⟨rfl, rfl⟩ := h
        exact ⟨ls, os, rfl, hOpens, hDerives.loosen hFloor⟩

/-- The lexemes that a parser has read when it has come this far. -/
def Progress.Reads : Progress → List Lexeme → Prop
  | wanting frames, ls => Opens frames ls
  | holding frames operand, ls =>
      ∃ before os, ls = before ++ os ∧ Opens frames before ∧ Derives .primary os operand

theorem settle_of_reads
    {floor : Nat} {frames frames' : List Frame} {ls : List Lexeme} {e e' : Expr}
    (hReads : (Progress.holding frames e).Reads ls)
    (hPos : 1 ≤ floor) (hFloor : floor ≤ 5)
    (h : settle floor frames e = .ok (frames', e')) :
    ∃ before os, ls = before ++ os ∧ Opens frames' before ∧ Derives (.atLeast floor) os e' := by
  obtain ⟨before, os, rfl, hOpens, hDerives⟩ := hReads
  have hFits : Fits 5 frames := (fits_four frames).mono (by omega)
  exact hOpens.settle hFits hDerives hPos hFloor h

theorem reads_stepOperand
    {frames : List Frame} {ls : List Lexeme} {l : Lexeme} {p : Progress}
    (hOpens : Opens frames ls)
    (h : stepOperand frames l = .ok p) :
    p.Reads (ls ++ [l]) := by
  obtain ⟨t, c⟩ := l
  unfold stepOperand at h
  split at h
  · next hToken =>
      cases hToken
      cases h
      exact .group hOpens
  · next hToken =>
      cases hToken
      cases h
      exact .minus hOpens
  · next hToken =>
      cases hToken
      cases h
      exact ⟨ls, _, rfl, hOpens, .name⟩
  · next hToken =>
      cases hToken
      split at h
      · next v hValue =>
          cases h
          obtain ⟨hBound, hValue⟩ := literalValue?_eq_some_iff.mp hValue
          exact ⟨ls, _, rfl, hOpens, .number hBound hValue⟩
      · contradiction
  · contradiction

theorem reads_stepEnd
    {frames : List Frame} {e : Expr} {ls : List Lexeme} {l : Lexeme} {p : Progress}
    (hReads : (Progress.holding frames e).Reads ls)
    (h : stepEnd frames e l = .ok p) :
    p.Reads (ls ++ [l]) := by
  obtain ⟨t, d⟩ := l
  rw [stepEnd, bind_eq_ok_iff] at h
  obtain ⟨⟨frames', e'⟩, hSettle, h⟩ := h
  obtain ⟨before, os, rfl, hOpens, hDerives⟩ :=
    settle_of_reads hReads (Nat.le_refl 1) (by omega) hSettle
  split at h
  · next hToken hPair =>
      simp only [Prod.mk.injEq] at hPair
      obtain ⟨rfl, rfl⟩ := hPair
      cases hToken
      cases h
      cases hOpens with
      | @group _ before c hRest =>
          exact ⟨before, ⟨.leftParen, c⟩ :: os ++ [⟨.rightParen, d⟩], by simp, hRest,
            .group hDerives⟩
  · contradiction
  · contradiction

theorem reads_stepOperator
    {frames : List Frame} {e : Expr} {ls : List Lexeme} {l : Lexeme} {p : Progress}
    (hReads : (Progress.holding frames e).Reads ls)
    (h : stepOperator frames e l = .ok p) :
    p.Reads (ls ++ [l]) := by
  obtain ⟨t, c⟩ := l
  unfold stepOperator at h
  split at h
  · next hToken =>
      cases hToken
      rw [bind_eq_ok_iff] at h
      obtain ⟨⟨frames', e'⟩, hSettle, h⟩ := h
      cases h
      obtain ⟨before, os, rfl, hOpens, hDerives⟩ :=
        settle_of_reads hReads (by omega) (by omega) hSettle
      have hFits : Fits 1 frames' := fun f hf =>
        demand_le_one_of_level_lt_two (level_lt_of_settle hSettle f hf)
      exact .assign hOpens hFits hDerives
  · next sign _ hToken =>
      cases hToken
      split at h
      · next op hSign =>
          have := two_le_level op
          have := level_le_three op
          rw [bind_eq_ok_iff] at h
          obtain ⟨⟨frames', e'⟩, hSettle, h⟩ := h
          cases h
          obtain ⟨before, os, rfl, hOpens, hDerives⟩ :=
            settle_of_reads hReads (by omega) (by omega) hSettle
          exact .binary hOpens (fits_of_settle hSettle) hSign hDerives
      · exact reads_stepEnd hReads h
  · exact reads_stepEnd hReads h

/-- One step of the parser keeps the invariant. -/
theorem reads_step
    {p p' : Progress} {ls : List Lexeme} {l : Lexeme}
    (hReads : p.Reads ls)
    (h : step p l = .ok p') :
    p'.Reads (ls ++ [l]) := by
  cases p with
  | wanting frames => exact reads_stepOperand hReads h
  | holding frames e => exact reads_stepOperator hReads h

/-- So does a whole run. -/
theorem reads_foldlM
    {p p' : Progress} {ls rest : List Lexeme}
    (hReads : p.Reads ls)
    (h : rest.foldlM step p = .ok p') :
    p'.Reads (ls ++ rest) := by
  induction rest generalizing p ls with
  | nil =>
      cases h
      simpa using hReads
  | cons l rest ih =>
      rw [List.foldlM_cons, bind_eq_ok_iff] at h
      obtain ⟨p₁, hStep, hRest⟩ := h
      have hReads₁ := reads_step hReads hStep
      simpa using ih hReads₁ hRest

/-- A tree that the parser returns is derived from the lexemes. -/
theorem derives_of_ofLexemes
    {ls : List Lexeme} {e : Expr}
    (h : ofLexemes ls = .ok e) :
    Derives .assign ls e := by
  rw [ofLexemes, bind_eq_ok_iff] at h
  obtain ⟨p, hRun, hFinish⟩ := h
  have hStart : (Progress.wanting []).Reads [] := .none
  have hReads := reads_foldlM hStart hRun
  cases p with
  | wanting frames => simp [finish] at hFinish
  | holding frames operand =>
      rw [finish, bind_eq_ok_iff] at hFinish
      obtain ⟨⟨frames', e'⟩, hSettle, hFinish⟩ := hFinish
      obtain ⟨before, os, hSplit, hOpens, hDerives⟩ :=
        settle_of_reads hReads (Nat.le_refl 1) (by omega) hSettle
      split at hFinish
      · next hPair =>
          simp only [Prod.mk.injEq] at hPair
          obtain ⟨rfl, rfl⟩ := hPair
          cases hFinish
          cases hOpens
          rw [List.nil_append] at hSplit
          rw [hSplit]
          exact hDerives
      · contradiction

end Expr
end IntegerBasic
