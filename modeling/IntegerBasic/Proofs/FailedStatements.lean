import IntegerBasic.Console.Transcript
import IntegerBasic.Proofs.ProgramPath
import IntegerBasic.Proofs.SessionLog
import IntegerBasic.Proofs.StatementShape

/-!
# What a statement leaves behind when it fails

A statement moves the cursor last, so one that fails has not moved it.  The assignments inside its
expressions take effect as soon as they are complete, so one that fails may have changed variables.

**Definition.**  `Expr.completed e vars` lists the assignments that are completed when the
expression is evaluated, each with its value, in their order.  An assignment is completed if the
evaluation comes to it and its right side has a value.

**Variables.**  The completed assignments of a `LET` or `PRINT` are the first ones of its
expression, and those of a `LET` are all in its right side.  If there are none, no variable has
changed.  Every other statement leaves all variables as they were.

**Results.**
* `vars_of_eval`: evaluation makes the completed assignments and changes nothing else.
* `fst_completed_prefix`: they are the first ones among the assignments of the expression.
* `vars_of_executes_error`: what each kind of statement does to the variables when it fails.
* `failed_statement_leaves`: all that a statement leaves behind when it fails.
-/

namespace IntegerBasic

namespace Variables

/-- Assigns values to names, one after the other. -/
def assignAll (vars : Variables) (assignments : List (Name × Value)) : Variables :=
  assignments.foldl (fun vars a => vars.set a.1 a.2) vars

@[simp] theorem assignAll_nil
    (vars : Variables) :
    vars.assignAll [] = vars := by
  rfl

@[simp] theorem assignAll_append
    (vars : Variables) (first second : List (Name × Value)) :
    vars.assignAll (first ++ second) = (vars.assignAll first).assignAll second := by
  simp [assignAll]

/-- A name to which nothing is assigned keeps its value; any other has a value assigned to it. -/
theorem get?_assignAll_cases
    (vars : Variables) (assignments : List (Name × Value)) (x : Name) :
    (vars.assignAll assignments).get? x = vars.get? x ∨
      ∃ v, (x, v) ∈ assignments ∧ (vars.assignAll assignments).get? x = some v := by
  induction assignments generalizing vars with
  | nil => exact Or.inl rfl
  | cons a rest ih =>
      obtain ⟨y, value⟩ := a
      rcases ih (vars.set y value) with hKept | ⟨v, hMem, hValue⟩
      · by_cases hName : x = y
        · subst hName
          rw [get?_set_self] at hKept
          exact Or.inr ⟨value, List.mem_cons_self, hKept⟩
        · rw [get?_set_of_ne vars value hName] at hKept
          exact Or.inl hKept
      · exact Or.inr ⟨v, List.mem_cons_of_mem _ hMem, hValue⟩

end Variables

namespace Expr

/-- What is completed behind an evaluation: nothing, if it has failed. -/
def completedAfter (outcome : Except Error Value × Variables)
    (rest : Value → Variables → List (Name × Value)) : List (Name × Value) :=
  match outcome with
  | (.ok v, vars) => rest v vars
  | (.error _, _) => []

/-- The assignments that are completed when the expression is evaluated, each with its value. -/
def completed : Expr → Variables → List (Name × Value)
  | integer .., _ | var .., _ => []
  | negation _ e, vars => e.completed vars
  | binary _ _ l r, vars =>
      l.completed vars ++ completedAfter (l.eval.run.run vars) fun _ between => r.completed between
  | assign _ x e, vars =>
      e.completed vars ++ completedAfter (e.eval.run.run vars) fun v _ => [(x, v)]

/-- Evaluation makes the completed assignments and changes nothing else. -/
theorem vars_of_eval
    (e : Expr) (vars : Variables) :
    (e.eval.run.run vars).2 = vars.assignAll (e.completed vars) := by
  induction e generalizing vars with
  | integer | var => rfl
  | negation c e ih =>
      rcases hOperand : e.eval.run.run vars with ⟨_ | v, after⟩
      · rw [eval, Eval.run_bind_of_error hOperand, completed, ← ih, hOperand]
      · rw [eval, Eval.run_bind_of_ok hOperand, completed, ← ih, hOperand]
        rfl
  | binary c op l r ihl ihr =>
      rcases hLeft : l.eval.run.run vars with ⟨_ | a, between⟩
      · rw [eval, Eval.run_bind_of_error hLeft, completed, hLeft, completedAfter, List.append_nil,
          ← ihl, hLeft]
      · rw [eval, Eval.run_bind_of_ok hLeft, completed, hLeft, completedAfter,
          Variables.assignAll_append, ← ihl, hLeft]
        rcases hRight : r.eval.run.run between with ⟨_ | b, after⟩
        · rw [Eval.run_bind_of_error hRight, ← ihr, hRight]
        · rw [Eval.run_bind_of_ok hRight, ← ihr, hRight]
          rfl
  | assign c x e ih =>
      rcases hValue : e.eval.run.run vars with ⟨_ | v, after⟩
      · rw [eval, Eval.run_bind_of_error hValue, completed, hValue, completedAfter, List.append_nil,
          ← ih, hValue]
      · rw [eval, Eval.run_bind_of_ok hValue, completed, hValue, completedAfter,
          Variables.assignAll_append, ← ih, hValue]
        rfl

/-- An evaluation that succeeds completes all assignments of the expression. -/
theorem fst_completed_of_ok
    {e : Expr} {vars after : Variables} {v : Value}
    (h : e.eval.run.run vars = (.ok v, after)) :
    (e.completed vars).map Prod.fst = e.assignedNames := by
  induction e generalizing vars after v with
  | integer | var => rfl
  | negation c e ih =>
      rcases hOperand : e.eval.run.run vars with ⟨_ | a, between⟩
      · rw [eval, Eval.run_bind_of_error hOperand] at h
        cases h
      · exact ih hOperand
  | binary c op l r ihl ihr =>
      rcases hLeft : l.eval.run.run vars with ⟨_ | a, between⟩
      · rw [eval, Eval.run_bind_of_error hLeft] at h
        cases h
      · rcases hRight : r.eval.run.run between with ⟨_ | b, last⟩
        · rw [eval, Eval.run_bind_of_ok hLeft, Eval.run_bind_of_error hRight] at h
          cases h
        · rw [completed, hLeft, completedAfter, List.map_append, ihl hLeft, ihr hRight]
          rfl
  | assign c x e ih =>
      rcases hValue : e.eval.run.run vars with ⟨_ | a, between⟩
      · rw [eval, Eval.run_bind_of_error hValue] at h
        cases h
      · rw [completed, hValue, completedAfter, List.map_append, ih hValue]
        rfl

/-- The completed assignments are the first ones of the expression. -/
theorem fst_completed_prefix
    (e : Expr) (vars : Variables) :
    (e.completed vars).map Prod.fst <+: e.assignedNames := by
  induction e generalizing vars with
  | integer | var => exact List.prefix_rfl
  | negation c e ih => exact ih vars
  | binary c op l r ihl ihr =>
      rcases hLeft : l.eval.run.run vars with ⟨_ | a, between⟩
      · rw [completed, hLeft, completedAfter, List.append_nil]
        exact (ihl vars).trans (List.prefix_append _ _)
      · rw [completed, hLeft, completedAfter, List.map_append, fst_completed_of_ok hLeft,
          assignedNames, List.prefix_append_right_inj]
        exact ihr between
  | assign c x e ih =>
      rcases hValue : e.eval.run.run vars with ⟨_ | a, between⟩
      · rw [completed, hValue, completedAfter, List.append_nil]
        exact (ih vars).trans (List.prefix_append _ _)
      · rw [completed, hValue, completedAfter, List.map_append, fst_completed_of_ok hValue,
          assignedNames]
        exact List.prefix_rfl

/-- Only names that are assigned in the expression have completed assignments. -/
theorem mem_assignedNames_of_completed
    {e : Expr} {vars : Variables} {x : Name} {v : Value}
    (h : (x, v) ∈ e.completed vars) :
    x ∈ e.assignedNames :=
  (e.fst_completed_prefix vars).subset (List.mem_map_of_mem h)

/-- An expression without assignments completes none. -/
theorem completed_eq_nil
    {e : Expr}
    (h : e.assignedNames = []) (vars : Variables) :
    e.completed vars = [] := by
  have hPrefix := e.fst_completed_prefix vars
  rw [h, List.prefix_nil, List.map_eq_nil_iff] at hPrefix
  exact hPrefix

/-- What an assignment that fails has completed, it has completed in its right side. -/
theorem completed_assign_of_error
    {c : Column} {x : Name} {rhs : Expr} {vars after : Variables} {err : Error}
    (h : (assign c x rhs).eval.run.run vars = (.error err, after)) :
    (assign c x rhs).completed vars = rhs.completed vars := by
  rcases hValue : rhs.eval.run.run vars with ⟨_ | v, between⟩
  · rw [completed, hValue, completedAfter, List.append_nil]
  · rw [eval, Eval.run_bind_of_ok hValue] at h
    cases h

end Expr

/-- The assignments that are completed when a statement fails.  An `INPUT` assigns only when it
succeeds, and the other statements do not assign. -/
def Instruction.completed : Instruction → Variables → List (Name × Value)
  | assign e, vars | print e, vars => e.completed vars
  | remark, _ | input .., _ | stop, _ | jump .., _ | branch .., _ => []

theorem Instruction.completed_eq_nil
    {i : Instruction}
    (h : ∀ a, i ≠ .assign a ∧ i ≠ .print a) (vars : Variables) :
    i.completed vars = [] := by
  cases i with
  | assign a => exact absurd rfl (h a).1
  | print a => exact absurd rfl (h a).2
  | remark | input | stop | jump | branch => rfl

namespace Machine

variable {σ : Type}

theorem keepsVars_useConsole
    {α : Type} (use : σ → Except String α × σ) :
    Action.Steps (fun m m' : Machine σ => m'.vars = m.vars) (useConsole use) := by
  intro m r m' h
  cases h
  rfl

theorem vars_of_run_eval
    {a : Expr} {m m' : Machine σ} {r : Except Error Value}
    (h : (eval a).run.run m = some (r, m')) :
    m'.vars = m.vars.assignAll (a.completed m.vars) := by
  rw [run_eval, Option.some_inj, Prod.mk.injEq] at h
  rw [← h.2]
  exact a.vars_of_eval m.vars

variable [Console σ]

/-- However often an `INPUT` has to ask, it changes no variable while it does. -/
theorem keepsVars_readInteger
    (fuel : Nat) :
    Action.Steps (fun m m' : Machine σ => m'.vars = m.vars) (readInteger fuel) := by
  have hTrans : ∀ a b c : Machine σ, b.vars = a.vars → c.vars = b.vars → c.vars = a.vars :=
    fun _ _ _ hFirst hSecond => hSecond.trans hFirst
  induction fuel with
  | zero =>
      intro m r m' h
      cases h
  | succ fuel ih =>
      refine Action.Steps.bind hTrans (keepsVars_useConsole _) fun line? => ?_
      cases line? with
      | none =>
          intro m r m' h
          cases h
          rfl
      | some line =>
          cases hValue : valueOfText? line with
          | some v =>
              intro m r m' h
              simp only [hValue] at h
              cases h
              rfl
          | none =>
              simp only [hValue]
              exact Action.Steps.bind hTrans (keepsVars_useConsole _) fun _ => ih

variable {listing : Listing} {i : Instruction} {m m' : Machine σ} {e : Error}

/-- An effect that fails leaves the completed assignments. -/
theorem vars_of_effect_error
    {fuel : Nat}
    (hWell : i.WellFormed) (h : (effect fuel i).run.run m = some (.error e, m')) :
    m'.vars = m.vars.assignAll (i.completed m.vars) := by
  cases i with
  | remark | stop | jump => cases h
  | assign a =>
      rw [effect, Action.run_bind_eq_some_iff] at h
      rcases h with ⟨_, _, _, hRest⟩ | ⟨_, hEval, _⟩
      · cases hRest
      · exact vars_of_run_eval hEval
  | print a =>
      simp only [effect, Action.run_bind_eq_some_iff] at h
      rcases h with ⟨_, _, hEval, ⟨_, _, _, hRest⟩ | ⟨_, hPrint, _⟩⟩ | ⟨_, hEval, _⟩
      · cases hRest
      · rw [keepsVars_useConsole _ _ _ _ hPrint]
        exact vars_of_run_eval hEval
      · exact vars_of_run_eval hEval
  | input c x =>
      simp only [effect, Action.run_bind_eq_some_iff] at h
      rcases h with ⟨_, _, _, ⟨_, _, _, hRest⟩ | ⟨_, hAssign, _⟩⟩ | ⟨_, hRead, _⟩
      · cases hRest
      · cases hAssign
      · exact keepsVars_readInteger fuel _ _ _ hRead
  | branch l relation r c target =>
      obtain ⟨result, hRun⟩ :=
        run_effect_branch_of_pure hWell.1.2 hWell.2.2 fuel relation c target m
      cases h.symm.trans hRun
      rfl

/-- A statement that fails leaves the completed assignments. -/
theorem vars_of_executes_error
    (hWell : i.WellFormed) (h : Executes listing i m (.error e) m') :
    m'.vars = m.vars.assignAll (i.completed m.vars) := by
  obtain ⟨fuel, hRun⟩ := h
  rw [run_execute_eq_some_iff] at hRun
  rcases hRun with ⟨d, m₁, hEffect, hDepart⟩ | ⟨_, hEffect, _⟩
  · -- Only a jump can fail when control leaves the line.
    obtain ⟨c, target, rfl, _, _, rfl⟩ := exists_jump_of_depart_error hDepart
    cases departs_of_effect hEffect with
    | jump =>
        cases hEffect
        rfl
    | taken =>
        obtain ⟨result, hRun⟩ := run_effect_branch_of_pure hWell.1.2 hWell.2.2 fuel _ _ _ m
        cases hEffect.symm.trans hRun
        rfl
  · exact vars_of_effect_error hWell hEffect

/-- An expression that is evaluated for its assignment only is what fails. -/
theorem exists_eval_of_executes_assign
    {a : Expr}
    (h : Executes listing (.assign a) m (.error e) m') :
    ∃ after, a.eval.run.run m.vars = (.error e, after) := by
  obtain ⟨fuel, hRun⟩ := h
  rw [execute, Action.run_bind_eq_some_iff] at hRun
  rcases hRun with ⟨_, _, _, hRest⟩ | ⟨_, hEval, hError⟩
  · cases hRest
  · cases hError
    rw [run_eval, Option.some_inj, Prod.mk.injEq] at hEval
    exact ⟨_, Prod.ext hEval.1 rfl⟩

end Machine

namespace Session

variable {σ : Type} [Console σ]

/-- Executing the instruction in the session comes to an end with this result and in this
session. -/
def Executes (s : Session σ) (i : Instruction) (r : Except Error Unit) (s' : Session σ) : Prop :=
  ∃ fuel, (onMachine fun listing => Machine.execute fuel listing i).run.run s = some (r, s')

theorem executes_iff
    {s s' : Session σ} {i : Instruction} {r : Except Error Unit} :
    s.Executes i r s' ↔
      Machine.Executes s.listing i s.machine r s'.machine ∧ s'.listing = s.listing := by
  constructor
  · rintro ⟨fuel, hRun⟩
    rw [run_onMachine, Option.map_eq_some_iff] at hRun
    obtain ⟨⟨_, m'⟩, hExecute, hOutcome⟩ := hRun
    obtain ⟨rfl, rfl⟩ := Prod.mk.inj hOutcome
    exact ⟨⟨fuel, hExecute⟩, rfl⟩
  · rintro ⟨⟨fuel, hExecute⟩, hListing⟩
    refine ⟨fuel, ?_⟩
    rw [run_onMachine, hExecute, ← hListing]
    rfl

/-- A statement that fails leaves the listing and the cursor as they were, and of the variables it
has changed those that its completed assignments have set. -/
theorem failed_statement_leaves
    {source : String} {statement : Statement} {s s' : Session σ} {e : Error}
    (hParse : Statement.parse source = .ok statement)
    (h : s.Executes statement.instruction (.error e) s') :
    s'.listing = s.listing ∧ s'.machine.cursor = s.machine.cursor ∧
    (∀ a, statement.instruction = .assign a ∨ statement.instruction = .print a →
      (a.completed s.machine.vars).map Prod.fst <+: a.assignedNames ∧
      s'.machine.vars = s.machine.vars.assignAll (a.completed s.machine.vars) ∧
      (∀ x, s'.machine.vars.get? x ≠ s.machine.vars.get? x → x ∈ a.assignedNames ∧
        ∃ v, (x, v) ∈ a.completed s.machine.vars ∧ s'.machine.vars.get? x = some v) ∧
      (a.completed s.machine.vars = [] → s'.machine.vars = s.machine.vars)) ∧
    (∀ c x rhs, statement.instruction = .assign (.assign c x rhs) →
      (Expr.assign c x rhs).completed s.machine.vars = rhs.completed s.machine.vars ∧
      (rhs.assignedNames = [] → s'.machine.vars = s.machine.vars)) ∧
    ((∀ a, statement.instruction ≠ .assign a ∧ statement.instruction ≠ .print a) →
      s'.machine.vars = s.machine.vars) := by
  have hWell := (Statement.wellFormed_and_conditions_pure hParse).1
  obtain ⟨hExecutes, hListing⟩ := executes_iff.mp h
  have hVars := Machine.vars_of_executes_error hWell hExecutes
  refine ⟨hListing, (Machine.keeps_of_executes_error hExecutes).1, ?_, ?_, ?_⟩
  · intro a hKind
    have hCompleted : statement.instruction.completed s.machine.vars =
        a.completed s.machine.vars := by
      rcases hKind with hKind | hKind <;> rw [hKind] <;> rfl
    rw [hCompleted] at hVars
    refine ⟨a.fst_completed_prefix _, hVars, ?_, ?_⟩
    · intro x hChanged
      rw [hVars] at hChanged ⊢
      rcases s.machine.vars.get?_assignAll_cases (a.completed s.machine.vars) x with
        hKept | ⟨v, hMem, hValue⟩
      · exact absurd hKept hChanged
      · exact ⟨Expr.mem_assignedNames_of_completed hMem, v, hMem, hValue⟩
    · intro hNone
      rw [hVars, hNone, Variables.assignAll_nil]
  · intro c x rhs hKind
    rw [hKind] at hExecutes hVars
    obtain ⟨after, hEval⟩ := Machine.exists_eval_of_executes_assign hExecutes
    have hCompleted := Expr.completed_assign_of_error hEval
    refine ⟨hCompleted, fun hPure => ?_⟩
    rw [hVars, Instruction.completed, hCompleted, Expr.completed_eq_nil hPure,
      Variables.assignAll_nil]
  · intro hOther
    rw [hVars, Instruction.completed_eq_nil hOther, Variables.assignAll_nil]

/-- The first of two assignments is completed, and then the right side of the second one fails. -/
theorem failed_statement_leaves_between :
    ∃ (statement : Statement) (s s' : Session Transcript) (e : Error) (five : Value),
      Statement.parse "PRINT (A = 5) + (B = 1 / Z)" = .ok statement ∧
      s.Executes statement.instruction (.error e) s' ∧ e.code = .divisionByZero ∧
      s'.machine.cursor = some 10 ∧ s.machine.vars.get? "A" = none ∧
      s'.machine.vars.get? "A" = some five ∧ s'.machine.vars.get? "B" = none := by
  let five : Value := ⟨5, by decide⟩
  let first : Expr := .assign ⟨9, 10⟩ "A" (.integer ⟨11, 12⟩ five)
  let quotient : Expr :=
    .binary ⟨23, 24⟩ .divide (.integer ⟨21, 22⟩ ⟨1, by decide⟩) (.var ⟨25, 26⟩ "Z")
  let statement : Statement :=
    { text := "PRINT (A = 5) + (B = 1 / Z)"
      instruction := .print (.binary ⟨14, 15⟩ .add first (.assign ⟨19, 20⟩ "B" quotient))
      trim_text := rfl
      spells := rfl }
  let vars : Variables := Variables.empty.set "Z" ⟨0, by decide⟩
  let s : Session Transcript := ⟨.empty, ⟨vars, some 10, .empty, #[]⟩⟩
  have hParse : Statement.parse "PRINT (A = 5) + (B = 1 / Z)" = .ok statement :=
    Statement.parse_text statement
  let e : Error := (Error.of .divisionByZero).inColumn ⟨23, 24⟩
  have hOutcome :
      ((Machine.execute 0 s.listing statement.instruction).run.run s.machine).map (fun o =>
        errorOf? o.1) =
      some (some e) := by
    decide +kernel
  obtain ⟨⟨r, m'⟩, hRun, hError⟩ := Option.map_eq_some_iff.mp hOutcome
  obtain rfl : r = .error e := errorOf?_eq_some_iff.mp hError
  have hFails : s.Executes statement.instruction (.error e) ⟨s.listing, m'⟩ :=
    executes_iff.mpr ⟨⟨0, hRun⟩, rfl⟩
  obtain ⟨_, hCursor, hCompleted, _⟩ := failed_statement_leaves hParse hFails
  obtain ⟨_, hVars, _⟩ := hCompleted _ (Or.inr rfl)
  exact ⟨statement, s, _, e, five, hParse, hFails, rfl, hCursor, rfl, hVars ▸ by decide +kernel,
    hVars ▸ by decide +kernel⟩

end Session
end IntegerBasic
