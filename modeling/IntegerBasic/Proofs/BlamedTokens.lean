import IntegerBasic.Expr.Parser
import IntegerBasic.Proofs.Outcome

/-!
# What the parser blames

**Definition.**  `Progress.frames` are the constructs that are open, whether an operand is wanted or
held.

**Argument.**  A step that fails blames the lexeme at hand, unless closing an assignment has failed;
then the `=` is blamed, which was read before.  So every open assignment is traced back to the
lexeme that opened it.

**Results.**
* `cases_of_ofLexemes_error`: either a step fails, or the end of the text comes too early.
* `step_blames`, `finish_blames`: what is blamed in either case.
* `exists_lexeme_of_ofLexemes_error`: a column that is blamed is that of a lexeme.
-/

namespace IntegerBasic
namespace Expr

/-- The constructs that are still open. -/
def Progress.frames : Progress → List Frame
  | wanting frames | holding frames _ => frames

/-- There is an open assignment whose `=` stands in this column. -/
def Assigning (frames : List Frame) (c : Column) : Prop :=
  ∃ lhs, Frame.assign c lhs ∈ frames

theorem Assigning.of_suffix
    {frames frames' : List Frame} {c : Column}
    (h : Assigning frames' c) (hSuffix : frames' <:+ frames) :
    Assigning frames c :=
  h.imp fun _ hMem => hSuffix.subset hMem

theorem assigning_cons_iff
    {f : Frame} {frames : List Frame} {c : Column} :
    Assigning (f :: frames) c ↔ (∃ lhs, f = .assign c lhs) ∨ Assigning frames c := by
  simp only [Assigning, List.mem_cons, exists_or, eq_comm]

section Blame

variable {frames : List Frame} {e : Expr} {l : Lexeme} {p : Progress} {err : Error} {floor : Nat}

theorem close_blames
    {f : Frame}
    (h : f.close e = .error err) :
    ∃ c lhs, f = .assign c lhs ∧ err.column = some c := by
  cases f with
  | group | minus | binary => cases h
  | assign c lhs =>
      refine ⟨c, lhs, rfl, ?_⟩
      cases lhs with
      | var => cases h
      | integer | negation | binary | assign =>
          cases h
          rfl

/-- If constructs cannot be closed, an assignment is to blame. -/
theorem settle_blames
    (h : settle floor frames e = .error err) :
    ∃ c, Assigning frames c ∧ err.column = some c := by
  induction frames generalizing e with
  | nil => cases h
  | cons f frames ih =>
      rw [settle] at h
      split at h
      · rcases bind_eq_error_iff.mp h with hClose | ⟨closed, _, hRest⟩
        · obtain ⟨c, lhs, rfl, hColumn⟩ := close_blames hClose
          exact ⟨c, assigning_cons_iff.mpr (.inl ⟨lhs, rfl⟩), hColumn⟩
        · obtain ⟨c, hOpen, hColumn⟩ := ih hRest
          exact ⟨c, assigning_cons_iff.mpr (.inr hOpen), hColumn⟩
      · cases h

theorem stepOperand_blames
    (h : stepOperand frames l = .error err) :
    err.column = some l.column := by
  unfold stepOperand at h
  split at h
  · cases h
  · cases h
  · cases h
  · split at h
    · cases h
    · cases h
      rfl
  · cases h
    rfl

theorem stepEnd_blames
    (h : stepEnd frames e l = .error err) :
    err.column = some l.column ∨ ∃ c, Assigning frames c ∧ err.column = some c := by
  rw [stepEnd] at h
  rcases bind_eq_error_iff.mp h with hSettle | ⟨closed, _, hEnd⟩
  · exact .inr (settle_blames hSettle)
  · split at hEnd
    · cases hEnd
    · cases hEnd
      exact .inl rfl
    · cases hEnd
      exact .inl rfl

theorem stepOperator_blames
    (h : stepOperator frames e l = .error err) :
    err.column = some l.column ∨ ∃ c, Assigning frames c ∧ err.column = some c := by
  unfold stepOperator at h
  split at h
  · rcases bind_eq_error_iff.mp h with hSettle | ⟨closed, _, hOpen⟩
    · exact .inr (settle_blames hSettle)
    · cases hOpen
  · split at h
    · rcases bind_eq_error_iff.mp h with hSettle | ⟨closed, _, hOpen⟩
      · exact .inr (settle_blames hSettle)
      · cases hOpen
    · exact stepEnd_blames h
  · exact stepEnd_blames h

/-- A step that fails blames the lexeme at hand or the `=` of an open assignment. -/
theorem step_blames
    (h : step p l = .error err) :
    err.column = some l.column ∨ ∃ c, Assigning p.frames c ∧ err.column = some c := by
  cases p with
  | wanting frames => exact .inl (stepOperand_blames h)
  | holding frames operand => exact stepOperator_blames h

/-- The end of the text blames nothing, unless an assignment cannot be closed. -/
theorem finish_blames
    (h : finish p = .error err) :
    err.column = none ∨ ∃ c, Assigning p.frames c ∧ err.column = some c := by
  cases p with
  | wanting frames =>
      cases h
      exact .inl rfl
  | holding frames operand =>
      rcases bind_eq_error_iff.mp h with hSettle | ⟨closed, _, hEnd⟩
      · exact .inr (settle_blames hSettle)
      · split at hEnd
        · cases hEnd
        · cases hEnd
          exact .inl rfl

end Blame

section Opening

variable {frames : List Frame} {e : Expr} {l : Lexeme} {p p' : Progress} {c : Column}

theorem assigning_of_stepOperand
    (h : stepOperand frames l = .ok p') (hAssigning : Assigning p'.frames c) :
    Assigning frames c := by
  unfold stepOperand at h
  split at h
  · cases h
    simpa [Progress.frames, assigning_cons_iff] using hAssigning
  · cases h
    simpa [Progress.frames, assigning_cons_iff] using hAssigning
  · cases h
    exact hAssigning
  · split at h
    · cases h
      exact hAssigning
    · cases h
  · cases h

theorem assigning_of_stepEnd
    (h : stepEnd frames e l = .ok p') (hAssigning : Assigning p'.frames c) :
    Assigning frames c := by
  obtain ⟨⟨frames', e'⟩, hSettle, hEnd⟩ := bind_eq_ok_iff.mp h
  have hSuffix := suffix_of_settle hSettle
  split at hEnd
  · next hPair =>
      cases hPair
      cases hEnd
      exact hAssigning.of_suffix ((List.suffix_cons _ _).trans hSuffix)
  · cases hEnd
  · cases hEnd

theorem assigning_of_stepOperator
    (h : stepOperator frames e l = .ok p') (hAssigning : Assigning p'.frames c) :
    Assigning frames c ∨ l = ⟨.operator .equal, c⟩ := by
  obtain ⟨t, d⟩ := l
  unfold stepOperator at h
  split at h
  · next hToken =>
      cases hToken
      obtain ⟨⟨frames', e'⟩, hSettle, hOpen⟩ := bind_eq_ok_iff.mp h
      cases hOpen
      rcases assigning_cons_iff.mp hAssigning with ⟨lhs, hFrame⟩ | hRest
      · cases hFrame
        exact .inr rfl
      · exact .inl (hRest.of_suffix (suffix_of_settle hSettle))
  · split at h
    · obtain ⟨⟨frames', e'⟩, hSettle, hOpen⟩ := bind_eq_ok_iff.mp h
      cases hOpen
      rcases assigning_cons_iff.mp hAssigning with ⟨lhs, hFrame⟩ | hRest
      · cases hFrame
      · exact .inl (hRest.of_suffix (suffix_of_settle hSettle))
    · exact .inl (assigning_of_stepEnd h hAssigning)
  · exact .inl (assigning_of_stepEnd h hAssigning)

/-- A step opens an assignment only at an `=`. -/
theorem assigning_of_step
    (h : step p l = .ok p') (hAssigning : Assigning p'.frames c) :
    Assigning p.frames c ∨ l = ⟨.operator .equal, c⟩ := by
  cases p with
  | wanting frames => exact .inl (assigning_of_stepOperand h hAssigning)
  | holding frames operand => exact assigning_of_stepOperator h hAssigning

/-- What is being assigned after some lexemes was being assigned before, or its `=` is one of
them. -/
theorem assigning_of_foldlM
    {ls : List Lexeme}
    (h : ls.foldlM step p = .ok p') (hAssigning : Assigning p'.frames c) :
    Assigning p.frames c ∨ ⟨.operator .equal, c⟩ ∈ ls := by
  induction ls generalizing p with
  | nil =>
      cases h
      exact .inl hAssigning
  | cons l ls ih =>
      rw [List.foldlM_cons] at h
      obtain ⟨p₁, hStep, hRest⟩ := bind_eq_ok_iff.mp h
      rcases ih hRest with hBefore | hMem
      · rcases assigning_of_step hStep hBefore with hFirst | rfl
        · exact .inl hFirst
        · exact .inr List.mem_cons_self
      · exact .inr (List.mem_cons_of_mem l hMem)

theorem equal_mem_of_foldlM
    {ls : List Lexeme}
    (h : ls.foldlM step (.wanting []) = .ok p') (hAssigning : Assigning p'.frames c) :
    ⟨.operator .equal, c⟩ ∈ ls := by
  rcases assigning_of_foldlM h hAssigning with ⟨lhs, hMem⟩ | hMem
  · cases hMem
  · exact hMem

end Opening

/-- A run that fails does so at one lexeme, after it has read the lexemes before. -/
theorem exists_split_of_foldlM_error
    {ls : List Lexeme} {p : Progress} {err : Error}
    (h : ls.foldlM step p = .error err) :
    ∃ before l after p', ls = before ++ l :: after ∧ before.foldlM step p = .ok p' ∧
      step p' l = .error err := by
  induction ls generalizing p with
  | nil => cases h
  | cons l ls ih =>
      rw [List.foldlM_cons] at h
      rcases bind_eq_error_iff.mp h with hStep | ⟨p₁, hStep, hRest⟩
      · exact ⟨[], l, ls, p, rfl, rfl, hStep⟩
      · obtain ⟨before, k, after, p', rfl, hBefore, hFails⟩ := ih hRest
        refine ⟨l :: before, k, after, p', rfl, ?_, hFails⟩
        rw [List.foldlM_cons, hStep]
        exact hBefore

/-- Either a step fails, or the end of the text comes too early. -/
theorem cases_of_ofLexemes_error
    {ls : List Lexeme} {err : Error}
    (h : ofLexemes ls = .error err) :
    (∃ before l after p, ls = before ++ l :: after ∧
      before.foldlM step (.wanting []) = .ok p ∧ step p l = .error err) ∨
    ∃ p, ls.foldlM step (.wanting []) = .ok p ∧ finish p = .error err := by
  rcases bind_eq_error_iff.mp h with hRun | hFinish
  · exact .inl (exists_split_of_foldlM_error hRun)
  · exact .inr hFinish

/-- A column that is blamed is that of a lexeme. -/
theorem exists_lexeme_of_ofLexemes_error
    {ls : List Lexeme} {err : Error} {c : Column}
    (h : ofLexemes ls = .error err) (hColumn : err.column = some c) :
    ∃ l ∈ ls, l.column = c := by
  rcases cases_of_ofLexemes_error h with ⟨before, l, after, p, rfl, hRun, hStep⟩ | ⟨p, hRun, hFinish⟩
  · rcases step_blames hStep with hHere | ⟨d, hAssigning, hBefore⟩
    · refine ⟨l, List.mem_append_right before List.mem_cons_self, ?_⟩
      exact Option.some_inj.mp (hHere.symm.trans hColumn)
    · obtain rfl := Option.some_inj.mp (hBefore.symm.trans hColumn)
      exact ⟨_, List.mem_append_left _ (equal_mem_of_foldlM hRun hAssigning), rfl⟩
  · rcases finish_blames hFinish with hNone | ⟨d, hAssigning, hBefore⟩
    · rw [hNone] at hColumn
      cases hColumn
    · obtain rfl := Option.some_inj.mp (hBefore.symm.trans hColumn)
      exact ⟨_, equal_mem_of_foldlM hRun hAssigning, rfl⟩

end Expr
end IntegerBasic
