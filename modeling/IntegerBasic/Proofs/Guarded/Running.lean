import IntegerBasic.Proofs.Faults
import IntegerBasic.Proofs.Guarded.Reading

/-!
# Tags put on the errors of a run

**Definitions.**  The functions of the machine once more, from evaluating an expression to running a
program, with errors as failures to which tags are put: the columns of a token by whoever evaluates
it or jumps to it, the message of a console that fails, and the line number by whoever runs the
line.

**Argument.**  What is tagged with columns comes straight from the arithmetic, the variables or the
listing, and has no tag.  What is evaluated inside an expression has its columns, but it is passed
on and not tagged again.  An error in a statement has no line number while the statement is
executed.

**Results.**
* `evalExpr_eq`: evaluation, by induction over the expression.
* `execute_eq`, `runFrom_eq`: statements, and runs by induction over their steps.
* `runDirect_eq`: statements that are executed at once.
-/

namespace IntegerBasic
namespace Guarded

section Evaluation

/-- The value of an expression. -/
def evalExpr : Expr → Evaluation Value
  | .integer _ v => pure v
  | .var c x => do
      safe ((← get).fetch x) |>.mapError (Failure.inColumn c)
  | .negation c e => do
      let v ← evalExpr e
      (safe v.negate).mapError (Failure.inColumn c)
  | .binary c op l r => do
      let a ← evalExpr l
      let b ← evalExpr r
      (safe (op.apply a b)).mapError (Failure.inColumn c)
  | .assign _ x e => do
      let v ← evalExpr e
      modify fun vars => vars.set x v
      pure v

theorem column_eq_none_of_checked
    {i : Int} {e : Error}
    (h : Value.checked i = .error e) :
    e.column = none := by
  rw [Value.checked] at h
  split at h
  · cases h
  · cases h
    rfl

theorem column_eq_none_of_apply
    {op : BinaryOp} {a b : Value} {e : Error}
    (h : op.apply a b = .error e) :
    e.column = none := by
  rw [BinaryOp.apply] at h
  split at h
  · exact column_eq_none_of_checked h
  · cases h
    rfl

theorem column_eq_none_of_fetch
    {vars : Variables} {x : Name} {e : Error}
    (h : vars.fetch x = .error e) :
    e.column = none := by
  rw [Variables.fetch] at h
  split at h
  · cases h
  · cases h
    rfl

/-- What is evaluated has its columns once. -/
theorem evalExpr_eq
    (e : Expr) :
    evalExpr e = lift e.eval := by
  induction e with
  | integer c v => exact (lift_pure v).symm
  | var c x =>
      rw [evalExpr, Expr.eval, lift_bind]
      refine congrArg _ (funext fun vars => ?_)
      rw [mapError_inColumn_safe fun _ => column_eq_none_of_fetch, lift_liftM]
  | negation c e ih =>
      rw [evalExpr, Expr.eval, lift_bind, ih]
      refine congrArg _ (funext fun v => ?_)
      have hColumn : ∀ err, v.negate = .error err → err.column = none :=
        fun _ => column_eq_none_of_checked
      rw [mapError_inColumn_safe hColumn, lift_liftM]
  | binary c op l r ihl ihr =>
      rw [evalExpr, Expr.eval, lift_bind, ihl]
      refine congrArg _ (funext fun a => ?_)
      rw [lift_bind, ihr]
      refine congrArg _ (funext fun b => ?_)
      rw [mapError_inColumn_safe fun _ => column_eq_none_of_apply, lift_liftM]
  | assign c x e ih =>
      rw [evalExpr, Expr.eval, lift_bind, ih]
      refine congrArg _ (funext fun v => ?_)
      rw [lift_bind]
      rfl

end Evaluation

section Machines

variable {σ : Type}

/-- The computation that has no outcome. -/
def exhausted {s α : Type} : Activity s α :=
  ExceptT.mk fun _ => none

/-- Evaluates an expression with the machine's variables. -/
def eval (e : Expr) : Activity (Machine σ) Value :=
  ExceptT.mk fun m =>
    let (result, vars) := (evalExpr e).run.run m.vars
    some (result, { m with vars := vars })

/-- Turns the outcome of using the console into that of an activity. -/
def useConsole {α : Type} (use : σ → Except String α × σ) : Activity (Machine σ) α :=
  ExceptT.mk fun m =>
    let (outcome, console) := use m.console
    some (outcome.mapError Failure.ofConsole, { m with console := console })

/-- Moves the cursor to a line, which has to be stored. -/
def jump (column : Column) (listing : Listing) (target : LineNumber) : Activity (Machine σ) Unit :=
  (lift (Machine.jump listing target)).adapt (Failure.inColumn column)

variable [Console σ]

/-- Prints a line on the console. -/
def printLine (line : String) : Activity (Machine σ) Unit :=
  useConsole (Console.printLine line)

/-- Asks for a value until one is given, at most `fuel` times. -/
def readInteger : Nat → Activity (Machine σ) Value
  | 0 => exhausted
  | fuel + 1 => do
      match ← useConsole (Console.readLine Machine.inputPrompt) with
      | none => throw (.of .inputPastEnd)
      | some line =>
          match Machine.valueOfText? line with
          | some v => return v
          | none => do
              printLine Machine.redoMessage
              readInteger fuel

/-- Executes one instruction and moves the cursor. -/
def execute (fuel : Nat) (listing : Listing) : Instruction → Activity (Machine σ) Unit
  | .remark => modify (Machine.advance listing)
  | .assign e => do
      let _ ← eval e
      modify (Machine.advance listing)
  | .print e => do
      printLine (← eval e).render
      modify (Machine.advance listing)
  | .input _ x => do
      let v ← readInteger fuel
      modify fun m => (m.assign x v).advance listing
  | .stop => modify Machine.halt
  | .jump c target => jump c listing target
  | .branch l relation r c target => do
      let a ← eval l
      let b ← eval r
      if relation.holds a b then
        jump c listing target
      else
        modify (Machine.advance listing)

/-- Executes statements from the cursor on until there is none under it. -/
def runFrom (listing : Listing) : Nat → Machine σ → Option (Guarded Unit × Machine σ)
  | 0, _ => none
  | fuel + 1, m =>
      match m.current? listing with
      | none => some (.ok (), m.note .finished)
      | some (n, s) =>
          match (execute fuel listing s.instruction).run.run (m.note (.executing n)) with
          | none => none
          | some (.error failure, m) => some (.error (failure.inLine n), m)
          | some (.ok (), m) => runFrom listing fuel m

/-- Runs a program from its first line. -/
def run (fuel : Nat) (listing : Listing) : Activity (Machine σ) Unit :=
  ExceptT.mk fun m =>
    let m := m.start listing
    runFrom listing fuel (m.note (.started m.cursor))

/-- Executes one statement that is not a line of the program; the cursor stays where it is. -/
def runDirect (fuel : Nat) (listing : Listing) (text : String) : Activity (Machine σ) Unit :=
  ExceptT.mk fun m =>
    match statement text with
    | .error failure => some (.error failure, m)
    | .ok s =>
        if s.instruction.allowedDirect then
          ((execute fuel listing s.instruction).run.run m).map fun (result, after) =>
            (result, { after with cursor := m.cursor })
        else
          some (.error (.of .illegalDirect), m)

end Machines

section Machines

variable {σ : Type} {listing : Listing}

theorem eval_eq
    (e : Expr) :
    (eval e : Activity (Machine σ) Value) = lift (Machine.eval e) := by
  rw [eval, evalExpr_eq]
  rfl

/-- A failure of the console has no message until it is given one. -/
theorem useConsole_eq
    {α : Type} (use : σ → Except String α × σ) :
    useConsole use = lift (Machine.useConsole use) := by
  apply ExceptT.ext
  funext m
  have hOutcome : (use m.console).1.mapError Failure.ofConsole =
      safe ((use m.console).1.mapError Error.ofConsole) := by
    cases (use m.console).1 <;> rfl
  exact congrArg (fun r => some (r, { m with console := (use m.console).2 })) hOutcome

/-- A jump that fails has no columns until it is given those of its target. -/
theorem jump_eq
    (c : Column) (listing : Listing) (target : LineNumber) :
    (jump c listing target : Activity (Machine σ) Unit) =
      lift ((Machine.jump listing target).adapt (Error.inColumn c)) := by
  rw [jump, Machine.jump]
  split <;> rfl

variable [Console σ]

theorem printLine_eq
    (line : String) :
    (printLine line : Activity (Machine σ) Unit) = lift (Machine.printLine line) :=
  useConsole_eq _

theorem readInteger_eq
    (fuel : Nat) :
    (readInteger fuel : Activity (Machine σ) Value) = lift (Machine.readInteger fuel) := by
  induction fuel with
  | zero => rfl
  | succ fuel ih =>
      rw [readInteger, Machine.readInteger, lift_bind, useConsole_eq]
      refine congrArg _ (funext fun answer => ?_)
      cases answer with
      | none => rfl
      | some line =>
          dsimp only
          cases Machine.valueOfText? line with
          | some v => exact (lift_pure v).symm
          | none =>
              dsimp only
              rw [lift_bind, printLine_eq, ih]

theorem execute_eq
    (fuel : Nat) (listing : Listing) (i : Instruction) :
    (execute fuel listing i : Activity (Machine σ) Unit) = lift (Machine.execute fuel listing i) := by
  cases i with
  | remark | stop => rfl
  | jump c target => exact jump_eq c listing target
  | assign e =>
      rw [execute, Machine.execute, lift_bind, eval_eq]
      rfl
  | print e =>
      rw [execute, Machine.execute, lift_bind, eval_eq]
      refine congrArg _ (funext fun v => ?_)
      rw [lift_bind, printLine_eq]
      rfl
  | input c x =>
      rw [execute, Machine.execute, lift_bind, readInteger_eq]
      rfl
  | branch l relation r c target =>
      rw [execute, Machine.execute, lift_bind, eval_eq]
      refine congrArg _ (funext fun a => ?_)
      rw [lift_bind, eval_eq]
      refine congrArg _ (funext fun b => ?_)
      split
      · exact jump_eq c listing target
      · rfl

theorem run_lift
    {s α : Type} (x : Action s α) (m : s) :
    (lift x).run.run m = (x.run.run m).map fun (r, m') => (safe r, m') := by
  rw [lift, ExceptT.run_adapt, StateT.run_map]
  rfl

/-- An error in a line is given its number once. -/
theorem runFrom_eq
    (listing : Listing) (fuel : Nat) (m : Machine σ) :
    runFrom listing fuel m =
      (Machine.runFrom listing fuel m).map fun (r, m') => (safe r, m') := by
  induction fuel generalizing m with
  | zero => rfl
  | succ fuel ih =>
      rw [runFrom, Machine.runFrom]
      cases m.current? listing with
      | none => rfl
      | some current =>
          obtain ⟨n, s⟩ := current
          dsimp only
          rw [execute_eq, run_lift]
          cases hRun : (Machine.execute fuel listing s.instruction).run.run
              (m.note (.executing n)) with
          | none => rfl
          | some outcome =>
              obtain ⟨e | ⟨⟩, m'⟩ := outcome
              · have hLine := Machine.line_eq_none_of_executes ⟨fuel, hRun⟩
                exact congrArg (fun failure => some (Except.error failure, m'))
                  (Failure.inLine_error hLine n)
              · exact ih m'

theorem run_eq
    (fuel : Nat) (listing : Listing) :
    (run fuel listing : Activity (Machine σ) Unit) = lift (Machine.run fuel listing) := by
  apply ExceptT.ext
  funext m
  exact (runFrom_eq listing fuel _).trans (run_lift (Machine.run fuel listing) m).symm

theorem runDirect_eq
    (fuel : Nat) (listing : Listing) (text : String) :
    (runDirect fuel listing text : Activity (Machine σ) Unit) =
      lift (Machine.runDirect fuel listing text) := by
  apply ExceptT.ext
  funext m
  refine Eq.trans ?_ (run_lift (Machine.runDirect fuel listing text) m).symm
  rw [runDirect, statement_eq]
  cases hParse : Statement.parse text with
  | error e =>
      rw [Machine.run_runDirect_of_error fuel listing m hParse]
      rfl
  | ok s =>
      cases hAllowed : s.instruction.allowedDirect with
      | false =>
          rw [Machine.run_runDirect_of_illegal fuel listing m hParse hAllowed]
          exact if_neg (by rw [hAllowed]; decide)
      | true =>
          rw [Machine.run_runDirect_of_allowed fuel listing m hParse hAllowed]
          refine (if_pos hAllowed).trans ?_
          rw [execute_eq, run_lift, Option.map_map, Option.map_map]
          rfl

end Machines

end Guarded
end IntegerBasic
