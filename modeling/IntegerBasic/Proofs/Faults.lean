import IntegerBasic.Proofs.ConsoleCalls
import IntegerBasic.Proofs.ExactEvaluation

/-!
# What goes wrong with a statement

**Definition.**  `Fault listing calls i e` says that the error `e` has one of four reasons: the
values in an expression, the end of the input in an `INPUT`, a call to the console that failed, or
a target that is not stored.  `calls` are those made so far, so that the last of them can be blamed.

**Argument.**  The calls are written down by the console.  An expression fails at the first offence
of its exact evaluation.  An `INPUT` is followed question by question.

**Results.**
* `exists_code_of_eval`: what goes wrong with an expression.
* `fault_of_executes`: whatever goes wrong with a statement is such a fault.
* `line_eq_none_of_executes`: and as yet it is not known in which line it was.
* `exists_fault_of_runsTo`: a run fails with the fault of the line under the cursor.
-/

namespace IntegerBasic

open Machine (inputPrompt)

/-- The cause lies in the values of an expression: one is missing, one is out of range, or one is
divided by zero. -/
def ErrorCode.isAboutValues : ErrorCode → Bool
  | overflow | divisionByZero | undefinedVariable => true
  | syntaxError | lineNumberError | illegalDirect | lineNotFound | internalError | inputPastEnd =>
      false

/-- What can go wrong with an instruction of a listing when these calls to the console have been
made. -/
inductive Fault (listing : Listing) (calls : List Console.Call) (i : Instruction) : Error → Prop
  | value {code : ErrorCode} {column : Column} :
      code.isAboutValues = true →
      Fault listing calls i ((Error.of code).inColumn column)
  | ended {column : Column} {x : Name} :
      i = .input column x →
      calls.getLast? = some (.read inputPrompt (.ok none)) →
      Fault listing calls i (.of .inputPastEnd)
  | console {call : Console.Call} {failure : String} :
      calls.getLast? = some call →
      call.failure? = some failure →
      Fault listing calls i (.ofConsole failure)
  | target {column : Column} {target : LineNumber} :
      i.target? = some target →
      listing.contains target = false →
      Fault listing calls i ((Error.of .lineNumberError).inColumn column)

namespace Fault

variable {listing : Listing} {calls : List Console.Call} {i : Instruction} {e : Error}

theorem line_eq_none
    (h : Fault listing calls i e) :
    e.line = none := by
  cases h <;> rfl

/-- Statements are not refused while they are executed. -/
theorem code_ne
    (h : Fault listing calls i e) :
    e.code ≠ .syntaxError ∧ e.code ≠ .illegalDirect ∧ e.code ≠ .lineNotFound := by
  cases h with
  | value hValue =>
      refine ⟨?_, ?_, ?_⟩ <;>
        · intro hCode
          cases hCode
          cases hValue
  | ended | console | target =>
      refine ⟨?_, ?_, ?_⟩ <;>
        · intro hCode
          cases hCode

/-- Only a target that is not stored is a fault of a line number. -/
theorem exists_target
    (h : Fault listing calls i e) (hCode : e.code = .lineNumberError) :
    ∃ target, i.target? = some target ∧ listing.contains target = false := by
  cases h with
  | value hValue =>
      cases hCode
      cases hValue
  | ended | console => cases hCode
  | target hTarget hMissing => exact ⟨_, hTarget, hMissing⟩

/-- Only an `INPUT` for which there is no more input reads past the end. -/
theorem input_ended
    (h : Fault listing calls i e) (hCode : e.code = .inputPastEnd) :
    (∃ column x, i = .input column x) ∧
      calls.getLast? = some (.read inputPrompt (.ok none)) := by
  cases h with
  | value hValue =>
      cases hCode
      cases hValue
  | console | target => cases hCode
  | ended hInput hLast => exact ⟨⟨_, _, hInput⟩, hLast⟩

/-- Only a call that failed is an internal error. -/
theorem call_failed
    (h : Fault listing calls i e) (hCode : e.code = .internalError) :
    ∃ call, calls.getLast? = some call ∧ call.failure? = some e.message := by
  cases h with
  | value hValue =>
      cases hCode
      cases hValue
  | ended | target => cases hCode
  | console hLast hFailed => exact ⟨_, hLast, hFailed⟩

end Fault

namespace Expr

theorem isAboutValues_of_offenceOfResult
    {i : Int} {code : ErrorCode}
    (h : offenceOfResult i = some code) :
    code.isAboutValues = true := by
  unfold offenceOfResult at h
  split at h
  · contradiction
  · cases h
    rfl

theorem isAboutValues_of_offenceOfBinary
    {op : BinaryOp} {a b : Int} {code : ErrorCode}
    (h : offenceOfBinary op a b = some code) :
    code.isAboutValues = true := by
  unfold offenceOfBinary at h
  split at h
  · cases h
    rfl
  · exact isAboutValues_of_offenceOfResult h

/-- Each offence of an exact evaluation is about values. -/
theorem isAboutValues_of_exact
    {e : Expr} {env : Bindings} {visit : Visit} {code : ErrorCode}
    (hVisit : visit ∈ (e.exact env).2.2) (hOffence : visit.offence = some code) :
    code.isAboutValues = true := by
  induction e generalizing env with
  | integer c v => cases hVisit
  | var c x =>
      cases List.mem_singleton.mp hVisit
      simp only [Option.ite_none_right_eq_some, Option.some_inj] at hOffence
      rw [← hOffence.2]
      rfl
  | negation c e ih =>
      rcases List.mem_append.mp hVisit with hOperand | hLast
      · exact ih hOperand
      · cases List.mem_singleton.mp hLast
        exact isAboutValues_of_offenceOfResult hOffence
  | binary c op l r ihl ihr =>
      rcases List.mem_append.mp hVisit with hOperand | hLast
      · rcases List.mem_append.mp hOperand with hLeft | hRight
        · exact ihl hLeft
        · exact ihr hRight
      · cases List.mem_singleton.mp hLast
        exact isAboutValues_of_offenceOfBinary hOffence
  | assign c x e ih => exact ih hVisit

/-- An expression that fails does so for a cause that lies in its values, at one of its tokens. -/
theorem exists_code_of_eval
    {e : Expr} {vars after : Variables} {err : Error}
    (h : e.eval.run.run vars = (.error err, after)) :
    ∃ code column, code.isAboutValues = true ∧ err = (Error.of code).inColumn column := by
  rcases (agrees_eval e vars).elim with ⟨v, vars', _, hRun, _⟩ | ⟨visit, code, vars', hFirst, hRun, _⟩
  · cases h.symm.trans hRun
  · cases h.symm.trans hRun
    obtain ⟨hOffence, passed, rest, hSplit, _⟩ := firstOffence?_eq_some_iff.mp hFirst
    have hVisit : visit ∈ (e.exact vars.bindings).2.2 := by simp [hSplit]
    exact ⟨code, visit.column, isAboutValues_of_exact hVisit hOffence, rfl⟩

end Expr

namespace Machine

variable {σ : Type} {listing : Listing} {i : Instruction} {m m' : Machine (Recorded σ)} {e : Error}

theorem fault_of_eval
    {a : Expr}
    (h : (eval a).run.run m = some (.error e, m')) :
    Fault listing m'.console.calls i e := by
  rw [run_eval, Option.some_inj, Prod.mk.injEq] at h
  obtain ⟨code, column, hCode, rfl⟩ := Expr.exists_code_of_eval (Prod.ext h.1 rfl)
  exact .value hCode

/-- What goes wrong when control leaves the line. -/
theorem fault_of_depart
    {vars : Variables} {d : Departure}
    (hDeparts : Departs vars i d) (h : (depart listing d).run.run m = some (.error e, m')) :
    Fault listing m'.console.calls i e := by
  obtain ⟨c, target, rfl, hMissing, rfl, _⟩ := exists_jump_of_depart_error h
  exact .target hDeparts.target?_eq hMissing

section Calls

variable {α : Type} {use : Recorded σ → Except String α × Recorded σ}

/-- A call is the last one that is written down, with its answer. -/
theorem last_of_useConsole
    {r : Except Error α} (call : Except String α → Console.Call)
    (hCalls : ∀ d, (use d).2.calls = d.calls ++ [call (use d).1])
    (h : (useConsole use).run.run m = some (r, m')) :
    ∃ answer, m'.console.calls.getLast? = some (call answer) ∧
      r = answer.mapError Error.ofConsole := by
  cases h
  refine ⟨(use m.console).1, ?_, rfl⟩
  rw [hCalls]
  exact List.getLast?_concat

/-- A call that fails is a fault. -/
theorem fault_of_useConsole
    (call : Except String α → Console.Call)
    (hCalls : ∀ d, (use d).2.calls = d.calls ++ [call (use d).1])
    (hFailure : ∀ failure, (call (.error failure)).failure? = some failure)
    (h : (useConsole use).run.run m = some (.error e, m')) :
    Fault listing m'.console.calls i e := by
  obtain ⟨answer, hLast, hAnswer⟩ := last_of_useConsole call hCalls h
  cases answer with
  | ok answer => cases hAnswer
  | error failure =>
      cases hAnswer
      exact .console hLast (hFailure failure)

end Calls

variable [Console σ]

theorem fault_of_printLine
    {line : String}
    (h : (printLine line).run.run m = some (.error e, m')) :
    Fault listing m'.console.calls i e :=
  fault_of_useConsole (.print line) (fun _ => rfl) (fun _ => rfl) h

theorem fault_of_readLine
    {prompt : String}
    (h : (readLine prompt).run.run m = some (.error e, m')) :
    Fault listing m'.console.calls i e :=
  fault_of_useConsole (.read prompt) (fun _ => rfl) (fun _ => rfl) h

/-- An `INPUT` fails when a call fails or when there is no more input. -/
theorem fault_of_readInteger
    {column : Column} {x : Name} {fuel : Nat}
    (h : (readInteger fuel).run.run m = some (.error e, m')) :
    Fault listing m'.console.calls (.input column x) e := by
  induction fuel generalizing m with
  | zero => cases h
  | succ fuel ih =>
      rw [readInteger, Action.run_bind_eq_some_iff] at h
      rcases h with ⟨answer, m₁, hRead, hRest⟩ | ⟨e', hRead, hError⟩
      · cases answer with
        | none =>
            obtain ⟨answer, hLast, hAnswer⟩ :=
              last_of_useConsole (.read inputPrompt) (fun _ => rfl) hRead
            cases hRest
            cases answer with
            | error failure => cases hAnswer
            | ok answer =>
                cases hAnswer
                exact .ended rfl hLast
        | some line =>
            cases hValue : valueOfText? line with
            | some v =>
                simp only [hValue] at hRest
                cases hRest
            | none =>
                simp only [hValue, Action.run_bind_eq_some_iff] at hRest
                rcases hRest with ⟨_, m₂, _, hAgain⟩ | ⟨e', hPrint, hError⟩
                · exact ih hAgain
                · cases hError
                  exact fault_of_printLine hPrint
      · cases hError
        exact fault_of_readLine hRead

/-- What goes wrong before control leaves the line. -/
theorem fault_of_effect
    {fuel : Nat}
    (h : (effect fuel i).run.run m = some (.error e, m')) :
    Fault listing m'.console.calls i e := by
  rcases cases_of_effect_error h with
    ⟨a, _, m₁, hEval⟩ | ⟨line, m₁, hPrint⟩ | ⟨c, x, rfl, hRead⟩
  · exact fault_of_eval hEval
  · exact fault_of_printLine hPrint
  · exact fault_of_readInteger hRead

/-- Whatever goes wrong with a statement is one of the faults. -/
theorem fault_of_executes
    (h : Executes listing i m (.error e) m') :
    Fault listing m'.console.calls i e := by
  obtain ⟨fuel, hRun⟩ := h
  rw [run_execute_eq_some_iff] at hRun
  rcases hRun with ⟨d, m₁, hEffect, hDepart⟩ | ⟨e', hEffect, hError⟩
  · exact fault_of_depart (departs_of_effect hEffect) hDepart
  · cases hError
    exact fault_of_effect hEffect

/-- A run that fails does so with the fault of the line under the cursor. -/
theorem exists_fault_of_runsTo
    (h : RunsTo listing m (.error e) m') :
    ∃ n s e', m'.cursor = some n ∧ listing.get? n = some s ∧ e = e'.inLine n ∧
      Fault listing m'.console.calls s.instruction e' := by
  obtain ⟨point, _, hEnds⟩ := runsTo_iff_halts.mp h
  cases hEnds with
  | failed _ hGet hExecutes hCursor _ =>
      exact ⟨_, _, _, hCursor, hGet, rfl, fault_of_executes hExecutes⟩

/-- An error in a statement does not know in which line it was. -/
theorem line_eq_none_of_executes
    {a a' : Machine σ}
    (h : Executes listing i a (.error e) a') :
    e.line = none := by
  obtain ⟨fuel, hRun⟩ := h
  obtain ⟨d, hRun', _⟩ := matches_execute Recorded.corresponds i.respects_sameValues fuel listing a
    a.recording _ a' a.linked_recording hRun
  exact (fault_of_executes ⟨fuel, hRun'⟩).line_eq_none

end Machine
end IntegerBasic
