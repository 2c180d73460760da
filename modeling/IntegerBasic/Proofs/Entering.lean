import IntegerBasic.Proofs.Answers
import IntegerBasic.Proofs.DirectExecution
import IntegerBasic.Proofs.FiniteInput

/-!
# Entering a line comes to an end

**Argument.**  A run may go on forever.  A text that is executed at once is one statement, which
comes to an end if the input of the console is finite, and all other commands take no steps at all.
So the run is the only command for which an end has to be assumed.

**Results.**
* `fueled_enter`, `Enters.unique`: a line has one outcome at most.
* `exists_enters_of_finiteInput`: with a finite input, a line has an outcome if its run has one.
* `uses_of_enters`: whatever is entered changes the console only by using it.
-/

namespace IntegerBasic

namespace Console

variable {σ : Type} [Console σ]

/-- To print lines is to use the console. -/
theorem uses_printLines
    (lines : List String) (c : σ) :
    Relation.ReflTransGen Use c (printLines lines c).2 := by
  induction lines generalizing c with
  | nil => exact .refl
  | cons line lines ih =>
      have hFirst : Use c (printLine line c).2 := .print line c
      rw [printLines]
      cases hPrint : printLine line c with
      | mk result c₁ =>
          rw [hPrint] at hFirst
          cases result with
          | error failure => exact .single hFirst
          | ok u => exact (ih c₁).head hFirst

end Console

namespace Machine

variable {σ : Type} [Console σ] {listing : Listing} {m m' : Machine σ} {r : Except Error Unit}

/-- A run changes the console only by using it. -/
theorem uses_of_runsTo
    (h : RunsTo listing m r m') :
    Relation.ReflTransGen Console.Use m.console m'.console := by
  refine h.invariant (P := fun _ a => Relation.ReflTransGen Console.Use m.console a.console)
    .refl ?_ ?_ fun _ hUses => hUses
  · intro n i a b hBefore hExecutes
    have hUses := uses_of_executes hExecutes
    exact hBefore.trans hUses
  · intro n i a e b hBefore hExecutes
    have hUses := uses_of_executes hExecutes
    exact hBefore.trans hUses

theorem uses_of_executesDirectly
    {text : String}
    (h : ExecutesDirectly listing text m r m') :
    Relation.ReflTransGen Console.Use m.console m'.console := by
  rcases h.cases with ⟨_, _, _, rfl⟩ | ⟨_, _, _, rfl⟩ | ⟨_, _, _, hExecutes, rfl⟩
  · exact .refl
  · exact .refl
  · have hUses := uses_of_executes hExecutes
    exact hUses

/-- With a finite input, a text that is executed at once comes to an end. -/
theorem exists_executesDirectly_of_finiteInput
    (hFinite : Console.FiniteInput m.console) (listing : Listing) (text : String) :
    ∃ r m', ExecutesDirectly listing text m r m' := by
  cases hParse : Statement.parse text with
  | error e => exact ⟨_, _, (executesDirectly_iff_of_error hParse).mpr ⟨rfl, rfl⟩⟩
  | ok s =>
      cases hAllowed : s.instruction.allowedDirect with
      | false => exact ⟨_, _, (executesDirectly_iff_of_illegal hParse hAllowed).mpr ⟨rfl, rfl⟩⟩
      | true =>
          obtain ⟨r, m₁, hExecutes⟩ :=
            exists_executes_of_finiteInput hFinite listing s.instruction
          exact ⟨r, _, (executesDirectly_iff_of_allowed hParse hAllowed).mpr ⟨m₁, hExecutes, rfl⟩⟩

end Machine

namespace Session

variable {σ : Type}

theorem onMachine_extends
    {α : Type} {x y : Listing → Action (Machine σ) α}
    (h : ∀ listing, Action.Extends (x listing) (y listing)) :
    Action.Extends (onMachine x) (onMachine y) := by
  intro s outcome hRun
  rw [run_onMachine, Option.map_eq_some_iff] at hRun
  obtain ⟨result, hRun, rfl⟩ := hRun
  rw [run_onMachine, h s.listing s.machine result hRun]
  rfl

variable [Console σ] {s s' : Session σ} {c : Command} {line : String}
  {outcome : Except Error Reply}

section Fuel

theorem perform_extends
    {fuel fuel' : Nat}
    (hLe : fuel ≤ fuel') (c : Command) :
    Action.Extends (perform (σ := σ) fuel c) (perform fuel' c) := by
  cases c with
  | run =>
      exact (onMachine_extends fun listing => Machine.fueled_run listing _ _ hLe).bind fun _ =>
        Action.Extends.refl _
  | direct text =>
      exact (onMachine_extends fun listing => Machine.runDirect_extends hLe listing text).bind
        fun _ => Action.Extends.refl _
  | nothing | list | clear | help | quit | remove | insert => exact Action.Extends.refl _

/-- However many steps are allowed, entering a line does the same. -/
theorem fueled_enter
    (line : String) :
    Action.Fueled fun fuel => (enter fuel line : Action (Session σ) Reply) := by
  intro fuel fuel' hLe s outcome hRun
  cases hCommand : Command.parse line with
  | error e =>
      rw [run_enter_of_error fuel s hCommand] at hRun
      rw [run_enter_of_error fuel' s hCommand, hRun]
  | ok c =>
      rw [run_enter_of_ok fuel s hCommand] at hRun
      rw [run_enter_of_ok fuel' s hCommand]
      exact perform_extends hLe c s outcome hRun

/-- A line has one outcome at most. -/
theorem Enters.unique
    {s₁ s₂ : Session σ} {outcome₁ outcome₂ : Except Error Reply}
    (h₁ : s.Enters line outcome₁ s₁) (h₂ : s.Enters line outcome₂ s₂) :
    outcome₁ = outcome₂ ∧ s₁ = s₂ := by
  obtain ⟨fuel₁, h₁⟩ := h₁
  obtain ⟨fuel₂, h₂⟩ := h₂
  exact Prod.mk.inj ((fueled_enter line).unique h₁ h₂)

end Fuel

section Termination

theorem exists_perform_of_finiteInput
    (hFinite : Console.FiniteInput s.machine.console)
    (hRun : c = .run → ∃ r m', Machine.RunsTo s.listing s.machine r m') :
    ∃ fuel outcome s', (perform fuel c).run.run s = some (outcome, s') := by
  cases c with
  | nothing | clear | quit | remove => exact ⟨0, _, _, rfl⟩
  | list => exact ⟨0, _, _, run_perform_list 0 s⟩
  | help => exact ⟨0, _, _, run_perform_help 0 s⟩
  | insert n text =>
      cases hParse : Statement.parse text with
      | error e => exact ⟨0, _, _, run_perform_insert_of_error 0 s hParse⟩
      | ok statement => exact ⟨0, _, _, run_perform_insert_of_ok 0 s hParse⟩
  | run =>
      obtain ⟨r, m', fuel, hRuns⟩ := hRun rfl
      exact ⟨fuel, _, _, by rw [run_perform_run, hRuns]; rfl⟩
  | direct text =>
      obtain ⟨r, m', fuel, hRuns⟩ :=
        Machine.exists_executesDirectly_of_finiteInput hFinite s.listing text
      exact ⟨fuel, _, _, by rw [run_perform_direct, hRuns]; rfl⟩

/-- With a finite input, a line has an outcome if its run has one. -/
theorem exists_enters_of_finiteInput
    (hFinite : Console.FiniteInput s.machine.console)
    (hRun : Line.Runs line → ∃ r m', Machine.RunsTo s.listing s.machine r m') :
    ∃ outcome s', s.Enters line outcome s' := by
  cases hCommand : Command.parse line with
  | error e => exact ⟨_, s, 0, run_enter_of_error 0 s hCommand⟩
  | ok c =>
      obtain ⟨fuel, outcome, s', hPerform⟩ :=
        exists_perform_of_finiteInput (c := c) hFinite (by
          rintro rfl
          exact hRun (Command.parse_eq_run_iff.mp hCommand))
      exact ⟨outcome, s', fuel, (run_enter_of_ok fuel s hCommand).trans hPerform⟩

/-- A run whose line has an outcome has an end. -/
theorem exists_runsTo_of_enters
    (h : s.Enters line outcome s') (hRuns : Line.Runs line) :
    ∃ r m', Machine.RunsTo s.listing s.machine r m' := by
  cases answers_of_enters h (Command.parse_eq_run_iff.mpr hRuns) with
  | run hRun => exact ⟨_, _, hRun⟩

end Termination

section Uses

theorem uses_printing
    (lines : List String) (s : Session σ) :
    Relation.ReflTransGen Console.Use s.machine.console (s.printing lines).2.machine.console :=
  Console.uses_printLines lines s.machine.console

theorem Answers.uses
    (h : Answers s c outcome s') :
    Relation.ReflTransGen Console.Use s.machine.console s'.machine.console := by
  cases h with
  | run hRun => exact Machine.uses_of_runsTo hRun
  | direct hDirect => exact Machine.uses_of_executesDirectly hDirect
  | list => exact uses_printing _ s
  | help => exact uses_printing _ s
  | remove n =>
      rw [removeLine]
      split <;> exact .refl
  | nothing | quit | clear | insert | refused => exact .refl

/-- Whatever is entered changes the console only by using it. -/
theorem uses_of_enters
    (h : s.Enters line outcome s') :
    Relation.ReflTransGen Console.Use s.machine.console s'.machine.console := by
  rcases cases_of_enters h with ⟨_, _, _, rfl⟩ | ⟨_, _, hAnswers⟩
  · exact .refl
  · exact hAnswers.uses

end Uses

end Session
end IntegerBasic
