import IntegerBasic.Expr.Exact
import IntegerBasic.Expr.Parser
import IntegerBasic.Proofs.Outcome

/-!
# Evaluation is exact up to the first fault

Evaluation with values of 32 bits is compared with exact evaluation over the integers.  Both pass
the nodes of a tree in the same order.  `Agrees` relates the outcome of the one to the visits of
the other: without an offence the value and the variables are the exact ones, and otherwise
evaluation stops at the first offending visit, blames its column, and leaves the variables as they
were at that moment.

**Results.**
* `agrees_of_last`: a node whose own result is checked last keeps the relation.
* `agrees_eval`: the relation holds for every tree and all variables.
* `eval_stops_at_first_offence`: the same in terms of the visits alone.
-/

namespace IntegerBasic

/-- The variables as bindings to integers. -/
def Variables.bindings (vars : Variables) : Bindings :=
  fun x => (vars.get? x).map Value.toInt

theorem Variables.bindings_set
    (vars : Variables) (x : Name) (v : Value) :
    (vars.set x v).bindings = vars.bindings.bind x v.toInt := by
  funext y
  simp only [bindings, Bindings.bind, get?_set]
  split <;> rfl

namespace Expr

theorem checked_of_inRange
    {i : Int}
    (h : offenceOfResult i = none) :
    ∃ v, Value.checked i = .ok v ∧ v.toInt = i := by
  rw [offenceOfResult_eq_none_iff] at h
  have hValue : Value.ofInt? i = some ⟨i, h⟩ := Value.ofInt?_eq_some_iff.mpr rfl
  exact ⟨⟨i, h⟩, by simp [Value.checked, hValue], rfl⟩

theorem checked_of_offence
    {i : Int} {code : ErrorCode}
    (h : offenceOfResult i = some code) :
    Value.checked i = .error (.of code) := by
  unfold offenceOfResult at h
  split at h
  · contradiction
  · next hRange =>
      cases h
      rw [Value.checked, Value.ofInt?_eq_none_iff.mpr hRange]

theorem apply_of_faultless
    {op : BinaryOp} {a b : Value}
    (h : offenceOfBinary op a.toInt b.toInt = none) :
    ∃ v, op.apply a b = .ok v ∧ v.toInt = op.exact a.toInt b.toInt := by
  unfold offenceOfBinary at h
  rw [BinaryOp.apply, BinaryOp.onInt?_eq_exact]
  split at h
  · contradiction
  · next hDefined =>
      rw [if_neg hDefined]
      exact checked_of_inRange h

theorem apply_of_offence
    {op : BinaryOp} {a b : Value} {code : ErrorCode}
    (h : offenceOfBinary op a.toInt b.toInt = some code) :
    op.apply a b = .error (.of code) := by
  unfold offenceOfBinary at h
  rw [BinaryOp.apply, BinaryOp.onInt?_eq_exact]
  split at h
  · next hZero =>
      cases h
      rw [if_pos hZero]
  · next hDefined =>
      rw [if_neg hDefined]
      exact checked_of_offence h

theorem firstOffence?_append
    (left right : List Visit) :
    firstOffence? (left ++ right) = (firstOffence? left).or (firstOffence? right) :=
  List.findSome?_append

theorem firstOffence?_singleton
    (visit : Visit) :
    firstOffence? [visit] = visit.offence.map fun code => (visit, code) := by
  cases h : visit.offence <;> simp [firstOffence?, h]

/-- The outcome of an evaluation is the exact one, or that of stopping at the first offence. -/
def Agrees (outcome : Except Error Value × Variables) (ideal : Int × Bindings × List Visit) :
    Prop :=
  match firstOffence? ideal.2.2 with
  | none => ∃ v, outcome.1 = .ok v ∧ v.toInt = ideal.1 ∧ outcome.2.bindings = ideal.2.1
  | some (visit, code) =>
      outcome.1 = .error ((Error.of code).inColumn visit.column) ∧
        outcome.2.bindings = visit.bindings

theorem agrees_of_faultless
    {v : Value} {vars : Variables} {i : Int} {env : Bindings} {visits : List Visit}
    (hNone : firstOffence? visits = none)
    (hValue : v.toInt = i) (hVars : vars.bindings = env) :
    Agrees (.ok v, vars) (i, env, visits) := by
  simp only [Agrees, hNone]
  exact ⟨v, rfl, hValue, hVars⟩

theorem agrees_of_offence
    {vars : Variables} {i : Int} {env : Bindings} {visits : List Visit} {visit : Visit}
    {code : ErrorCode}
    (hFirst : firstOffence? visits = some (visit, code))
    (hVars : vars.bindings = visit.bindings) :
    Agrees (.error ((Error.of code).inColumn visit.column), vars) (i, env, visits) := by
  simp only [Agrees, hFirst]
  exact ⟨trivial, hVars⟩

/-- The two ways in which an evaluation can agree with exact evaluation. -/
theorem Agrees.elim
    {outcome : Except Error Value × Variables} {i : Int} {env : Bindings} {visits : List Visit}
    (h : Agrees outcome (i, env, visits)) :
    (∃ v vars, firstOffence? visits = none ∧ outcome = (.ok v, vars) ∧ v.toInt = i ∧
      vars.bindings = env) ∨
    (∃ visit code vars, firstOffence? visits = some (visit, code) ∧
      outcome = (.error ((Error.of code).inColumn visit.column), vars) ∧
      vars.bindings = visit.bindings) := by
  obtain ⟨result, vars⟩ := outcome
  unfold Agrees at h
  split at h
  · next hNone =>
      obtain ⟨v, rfl, hValue, hVars⟩ := h
      exact Or.inl ⟨v, vars, hNone, rfl, hValue, hVars⟩
  · next visit code hFirst =>
      obtain ⟨rfl, hVars⟩ := h
      exact Or.inr ⟨visit, code, vars, hFirst, rfl, hVars⟩

/-- A last node whose result is checked keeps the agreement. -/
theorem agrees_of_last
    {result : Except Error Value} {vars : Variables} {c : Column} {i : Int} {visits : List Visit}
    {offence : Option ErrorCode}
    (hNone : firstOffence? visits = none)
    (hOk : offence = none → ∃ v, result = .ok v ∧ v.toInt = i)
    (hError : ∀ code, offence = some code → result = .error (.of code)) :
    Agrees (result.mapError (Error.inColumn c), vars)
      (i, vars.bindings, visits ++ [⟨c, offence, vars.bindings⟩]) := by
  have hFirst : firstOffence? (visits ++ [⟨c, offence, vars.bindings⟩]) =
      offence.map fun code => (⟨c, offence, vars.bindings⟩, code) := by
    rw [firstOffence?_append, hNone, firstOffence?_singleton]
    rfl
  cases hOffence : offence with
  | none =>
      obtain ⟨v, rfl, hValue⟩ := hOk hOffence
      rw [hOffence] at hFirst
      exact agrees_of_faultless hFirst hValue rfl
  | some code =>
      rw [hError code hOffence]
      rw [hOffence] at hFirst
      exact agrees_of_offence hFirst rfl

theorem agrees_var
    (c : Column) (x : Name) (vars : Variables) :
    Agrees ((vars.fetch x).mapError (Error.inColumn c), vars) ((var c x).exact vars.bindings) := by
  have hNone : firstOffence? [] = none := rfl
  apply agrees_of_last hNone
  · intro hDefined
    cases hx : vars.get? x with
    | none => simp [Variables.bindings, hx] at hDefined
    | some v => exact ⟨v, by simp [Variables.fetch, hx], by simp [Variables.bindings, hx]⟩
  · intro code hUndefined
    cases hx : vars.get? x with
    | none =>
        simp only [Variables.bindings, hx, Option.map_none, Option.isNone_none, if_true,
          Option.some_inj] at hUndefined
        simp [Variables.fetch, hx, hUndefined]
    | some v => simp [Variables.bindings, hx] at hUndefined

/-- Evaluation agrees with exact evaluation, by induction on the tree.  An operand that stops
early stops the whole, and its offence is also the first one of the whole. -/
theorem agrees_eval
    (e : Expr) (vars : Variables) :
    Agrees (e.eval.run.run vars) (e.exact vars.bindings) := by
  induction e generalizing vars with
  | integer c v => exact agrees_of_faultless rfl rfl rfl
  | var c x => exact agrees_var c x vars
  | negation c e ih =>
      have hOperand := ih vars
      rcases hExact : e.exact vars.bindings with ⟨i, env, visits⟩
      rw [hExact] at hOperand
      rw [exact, hExact, eval]
      rcases hOperand.elim with ⟨v, vars', hNone, hRun, rfl, rfl⟩ |
        ⟨visit, code, vars', hFirst, hRun, hVars⟩
      · rw [Eval.run_bind_of_ok hRun]
        exact agrees_of_last hNone checked_of_inRange fun _ => checked_of_offence
      · rw [Eval.run_bind_of_error hRun]
        exact agrees_of_offence (by rw [firstOffence?_append, hFirst]; rfl) hVars
  | binary c op l r ihl ihr =>
      have hLeft := ihl vars
      rcases hExactLeft : l.exact vars.bindings with ⟨i, env, left⟩
      rw [hExactLeft] at hLeft
      rcases hExactRight : r.exact env with ⟨j, env', right⟩
      simp only [exact, hExactLeft, hExactRight]
      rw [eval]
      rcases hLeft.elim with ⟨a, vars', hNoneLeft, hRunLeft, rfl, rfl⟩ |
        ⟨visit, code, vars', hFirst, hRun, hVars⟩
      · have hRight := ihr vars'
        rw [hExactRight] at hRight
        rw [Eval.run_bind_of_ok hRunLeft]
        rcases hRight.elim with ⟨b, vars'', hNoneRight, hRunRight, rfl, rfl⟩ |
          ⟨visit, code, vars'', hFirst, hRun, hVars⟩
        · have hNone : firstOffence? (left ++ right) = none := by
            rw [firstOffence?_append, hNoneLeft, hNoneRight]
            rfl
          rw [Eval.run_bind_of_ok hRunRight]
          exact agrees_of_last hNone apply_of_faultless fun _ => apply_of_offence
        · rw [Eval.run_bind_of_error hRun]
          refine agrees_of_offence ?_ hVars
          rw [firstOffence?_append, firstOffence?_append, hNoneLeft, hFirst]
          rfl
      · rw [Eval.run_bind_of_error hRun]
        refine agrees_of_offence ?_ hVars
        rw [firstOffence?_append, firstOffence?_append, hFirst]
        rfl
  | assign c x e ih =>
      have hRight := ih vars
      rcases hExact : e.exact vars.bindings with ⟨i, env, visits⟩
      rw [hExact] at hRight
      rw [exact, hExact, eval]
      rcases hRight.elim with ⟨v, vars', hNone, hRun, rfl, rfl⟩ |
        ⟨visit, code, vars', hFirst, hRun, hVars⟩
      · rw [Eval.run_bind_of_ok hRun]
        exact agrees_of_faultless hNone rfl (Variables.bindings_set vars' x v)
      · rw [Eval.run_bind_of_error hRun]
        exact agrees_of_offence hFirst hVars

theorem firstOffence?_eq_none_iff
    {visits : List Visit} :
    firstOffence? visits = none ↔ ∀ visit ∈ visits, visit.offence = none := by
  simp [firstOffence?, List.findSome?_eq_none_iff]

/-- The first offence has only faultless visits before it. -/
theorem firstOffence?_eq_some_iff
    {visits : List Visit} {visit : Visit} {code : ErrorCode} :
    firstOffence? visits = some (visit, code) ↔
      visit.offence = some code ∧ ∃ passed rest, visits = passed ++ visit :: rest ∧
        ∀ p ∈ passed, p.offence = none := by
  constructor
  · intro h
    rw [firstOffence?, List.findSome?_eq_some_iff] at h
    obtain ⟨passed, found, rest, rfl, hFound, hPassed⟩ := h
    obtain ⟨code', hCode, hPair⟩ := Option.map_eq_some_iff.mp hFound
    obtain ⟨rfl, rfl⟩ := Prod.mk.inj hPair
    exact ⟨hCode, passed, rest, rfl, by simpa using hPassed⟩
  · rintro ⟨hCode, passed, rest, rfl, hPassed⟩
    rw [firstOffence?_append, firstOffence?_eq_none_iff.mpr hPassed]
    simp [firstOffence?, hCode]

end Expr
end IntegerBasic
