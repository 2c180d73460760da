import IntegerBasic.Proofs.Answers
import IntegerBasic.Proofs.DefinedNames

/-!
# The cursor and the variables in a session

**Definition.**  `LastRun log outcome` says that the last run in the log since the program was last
cleared had this outcome.

**Invariant.**  The cursor is where the last run has left it: a text that is executed at once puts
it back, and edits do not touch it.  So it is at the line of the error of that run, or there is
none.

**Variables.**  After `CLEAR` no name is defined, and no other line makes a defined name undefined.

**Results.**
* `cursor_of_logged`: the invariant, by induction on the log.
* `Answers.vars_eq`, `Answers.grows`: which commands change variables, and how.
* `cursor_and_variables_of_logged`: both together, for all that was entered.
-/

namespace IntegerBasic

open Variables (Grows)

namespace Session

variable {σ : Type} [Console σ] {s s' : Session σ} {c : Command} {line : String}
  {outcome : Except Error Reply}

section Answers

theorem Answers.cursor_of_run
    (h : Answers s .run outcome s') :
    ((∀ e, outcome ≠ .error e) ∧ s'.machine.cursor = none) ∨
      ∃ e n, outcome = .error e ∧ e.line = some n ∧ s'.machine.cursor = some n := by
  cases h with
  | run hRun =>
      rcases hRun.cursor_cases with ⟨rfl, hNone⟩ | ⟨e, n, rfl, hLine, hCursor⟩
      · exact Or.inl ⟨fun e h => (by cases h), hNone⟩
      · exact Or.inr ⟨e, n, rfl, hLine, hCursor⟩

/-- Whatever is neither a run nor clears the program leaves the cursor where it is. -/
theorem Answers.cursor_eq
    (h : Answers s c outcome s') (hRun : c ≠ .run) (hClear : c ≠ .clear) :
    s'.machine.cursor = s.machine.cursor := by
  cases h with
  | run => exact absurd rfl hRun
  | clear => exact absurd rfl hClear
  | direct hDirect => exact hDirect.cursor_eq
  | remove n =>
      rw [removeLine]
      split <;> rfl
  | nothing | quit | list | help | insert | refused => rfl

/-- Only runs, texts that are executed at once and clearing the program change variables. -/
theorem Answers.vars_eq
    (h : Answers s c outcome s') (hRun : c ≠ .run) (hClear : c ≠ .clear)
    (hDirect : ∀ text, c ≠ .direct text) :
    s'.machine.vars = s.machine.vars := by
  cases h with
  | run => exact absurd rfl hRun
  | clear => exact absurd rfl hClear
  | direct => exact absurd rfl (hDirect _)
  | remove n =>
      rw [removeLine]
      split <;> rfl
  | nothing | quit | list | help | insert | refused => rfl

/-- Whatever does not clear the program leaves every defined name defined. -/
theorem Answers.grows
    (h : Answers s c outcome s') (hClear : c ≠ .clear) :
    Grows s.machine.vars s'.machine.vars := by
  cases h with
  | run hRun => exact Machine.grows_of_runsTo hRun
  | clear => exact absurd rfl hClear
  | direct hDirect =>
      rcases hDirect.cases with ⟨_, _, _, rfl⟩ | ⟨_, _, _, rfl⟩ | ⟨_, _, _, hExecutes, rfl⟩
      · exact .refl _
      · exact .refl _
      · have hGrows := Machine.grows_of_executes hExecutes
        exact hGrows
  | remove n =>
      rw [removeLine]
      split <;> exact .refl _
  | nothing | quit | list | help | insert | refused => exact .refl _

end Answers

section Lines

theorem cursor_of_enters_of_other
    (h : s.Enters line outcome s') (hRuns : ¬ Line.Runs line) (hClears : ¬ Line.Clears line) :
    s'.machine.cursor = s.machine.cursor := by
  rcases cases_of_enters h with ⟨e, _, _, rfl⟩ | ⟨c, hCommand, hAnswers⟩
  · rfl
  · refine hAnswers.cursor_eq ?_ ?_
    · rintro rfl
      exact hRuns (Command.parse_eq_run_iff.mp hCommand)
    · rintro rfl
      exact hClears (Command.parse_eq_clear_iff.mp hCommand)

/-- To clear the program takes away the cursor and all variables. -/
theorem machine_of_enters_of_clears
    (h : s.Enters line outcome s') (hClears : Line.Clears line) :
    s'.machine.cursor = none ∧ s'.machine.vars = .empty := by
  cases answers_of_enters h (Command.parse_eq_clear_iff.mpr hClears)
  exact ⟨rfl, rfl⟩

theorem vars_of_enters_of_other
    (h : s.Enters line outcome s') (hRuns : ¬ Line.Runs line) (hClears : ¬ Line.Clears line)
    (hImmediate : ¬ Line.Immediate line) :
    s'.machine.vars = s.machine.vars := by
  rcases cases_of_enters h with ⟨e, _, _, rfl⟩ | ⟨c, hCommand, hAnswers⟩
  · rfl
  · refine hAnswers.vars_eq ?_ ?_ ?_
    · rintro rfl
      exact hRuns (Command.parse_eq_run_iff.mp hCommand)
    · rintro rfl
      exact hClears (Command.parse_eq_clear_iff.mp hCommand)
    · rintro text rfl
      exact hImmediate (Command.exists_parse_eq_direct_iff.mp ⟨text, hCommand⟩)

theorem grows_of_enters
    (h : s.Enters line outcome s') (hClears : ¬ Line.Clears line) :
    Grows s.machine.vars s'.machine.vars := by
  rcases cases_of_enters h with ⟨e, _, _, rfl⟩ | ⟨c, hCommand, hAnswers⟩
  · exact .refl _
  · refine hAnswers.grows ?_
    rintro rfl
    exact hClears (Command.parse_eq_clear_iff.mp hCommand)

end Lines

/-- The last run of the log since the program was last cleared had this outcome. -/
def LastRun (log : List Entry) (outcome : Except Error Reply) : Prop :=
  HasLast (fun entry => Line.Runs entry.line ∧ entry.outcome = outcome)
    (fun entry => Line.Runs entry.line ∨ Line.Clears entry.line) log

section LastRun

variable {log : List Entry} {entry : Entry}

theorem lastRun_append_of_runs
    (hRuns : Line.Runs entry.line) :
    LastRun (log ++ [entry]) outcome ↔ entry.outcome = outcome := by
  simp [LastRun, hasLast_append_singleton_iff, hRuns]

theorem not_lastRun_append_of_clears
    (hRuns : ¬ Line.Runs entry.line) (hClears : Line.Clears entry.line) :
    ¬ LastRun (log ++ [entry]) outcome := by
  simp [LastRun, hasLast_append_singleton_iff, hRuns, hClears]

theorem lastRun_append_of_other
    (hRuns : ¬ Line.Runs entry.line) (hClears : ¬ Line.Clears entry.line) :
    LastRun (log ++ [entry]) outcome ↔ LastRun log outcome := by
  simp [LastRun, hasLast_append_singleton_iff, hRuns, hClears]

/-- The cursor is at the line of the error of the last run, or there is none if that run has
succeeded or there was none. -/
theorem cursor_of_logged
    (h : Logged log s) :
    (∀ n, s.machine.cursor = some n ↔ ∃ e, LastRun log (.error e) ∧ e.line = some n) ∧
    (s.machine.cursor = none ↔ ∀ e, ¬ LastRun log (.error e)) := by
  induction h with
  | fresh console => simp [LastRun, HasLast, fresh, Machine.idle]
  | @enter log s s' console entry _ hEnters ih =>
      by_cases hRuns : Line.Runs entry.line
      · simp only [lastRun_append_of_runs hRuns]
        rcases (answers_of_enters hEnters (Command.parse_eq_run_iff.mpr hRuns)).cursor_of_run with
          ⟨hOk, hNone⟩ | ⟨e, n, hError, hLine, hCursor⟩
        · simp [hNone, hOk]
        · simp [hCursor, hError, hLine]
      · by_cases hClears : Line.Clears entry.line
        · simp [(machine_of_enters_of_clears hEnters hClears).1,
            not_lastRun_append_of_clears hRuns hClears]
        · rw [cursor_of_enters_of_other hEnters hRuns hClears]
          simp only [lastRun_append_of_other hRuns hClears]
          exact ih

end LastRun

/-- The cursor is at the line of the error of the last run since the program was last cleared.  Of
the lines entered next, only a run, a text that is executed at once and `CLEAR` can change
variables. -/
theorem cursor_and_variables_of_logged
    {log : List Entry} {s : Session σ}
    (h : Logged log s) :
    (∀ n, s.machine.cursor = some n ↔ ∃ e, LastRun log (.error e) ∧ e.line = some n) ∧
    (s.machine.cursor = none ↔ ∀ e, ¬ LastRun log (.error e)) ∧
    ∀ (console : σ) line outcome s', (s.withConsole console).Enters line outcome s' →
      (¬ Line.Runs line → ¬ Line.Immediate line → ¬ Line.Clears line →
        s'.machine.vars = s.machine.vars) ∧
      (Line.Clears line → ∀ x, s'.machine.vars.contains x = false) ∧
      (¬ Line.Clears line → ∀ x, s.machine.vars.contains x = true →
        s'.machine.vars.contains x = true) := by
  obtain ⟨hCursor, hNone⟩ := cursor_of_logged h
  refine ⟨hCursor, hNone, fun console line outcome s' hEnters => ⟨?_, ?_, ?_⟩⟩
  · intro hRuns hImmediate hClears
    have hVars := vars_of_enters_of_other hEnters hRuns hClears hImmediate
    exact hVars
  · intro hClears x
    rw [(machine_of_enters_of_clears hEnters hClears).2]
    rfl
  · intro hClears
    have hGrows := grows_of_enters hEnters hClears
    exact hGrows

/-- A run fails at line 10; then a text is executed at once, and the line is removed. -/
theorem cursor_and_variables_of_logged_removed :
    ∃ (log : List Entry) (s : Session Transcript),
      log.map Entry.line = ["10 PRINT X", "RUN", "LET X = 1", "10"] ∧ Logged log s ∧
      s.machine.cursor = some 10 ∧ s.listing.contains 10 = false ∧
      s.machine.vars.contains "X" = true ∧ ∃ e, LastRun log (.error e) ∧ e.line = some 10 := by
  have hOutcome :
      ((enter 8 "10 PRINT X").run.run
          ((fresh Transcript.empty).withConsole Transcript.empty)).bind (fun o =>
        ((enter 8 "RUN").run.run (o.2.withConsole Transcript.empty)).bind fun o =>
          ((enter 8 "LET X = 1").run.run (o.2.withConsole Transcript.empty)).bind fun o =>
            ((enter 8 "10").run.run (o.2.withConsole Transcript.empty)).map fun o =>
              (o.2.machine.cursor, o.2.listing.contains 10, o.2.machine.vars.contains "X")) =
      some (some 10, false, true) := by
    decide +kernel
  obtain ⟨⟨r₁, s₁⟩, h₁, hOutcome⟩ := Option.bind_eq_some_iff.mp hOutcome
  obtain ⟨⟨r₂, s₂⟩, h₂, hOutcome⟩ := Option.bind_eq_some_iff.mp hOutcome
  obtain ⟨⟨r₃, s₃⟩, h₃, hOutcome⟩ := Option.bind_eq_some_iff.mp hOutcome
  obtain ⟨⟨r₄, s₄⟩, h₄, hSeen⟩ := Option.map_eq_some_iff.mp hOutcome
  obtain ⟨hCursor, hSeen⟩ := Prod.mk.inj hSeen
  obtain ⟨hListing, hVars⟩ := Prod.mk.inj hSeen
  have h₁ : ((fresh Transcript.empty).withConsole Transcript.empty).Enters "10 PRINT X" r₁ s₁ :=
    ⟨8, h₁⟩
  have h₂ : (s₁.withConsole Transcript.empty).Enters "RUN" r₂ s₂ := ⟨8, h₂⟩
  have h₃ : (s₂.withConsole Transcript.empty).Enters "LET X = 1" r₃ s₃ := ⟨8, h₃⟩
  have h₄ : (s₃.withConsole Transcript.empty).Enters "10" r₄ s₄ := ⟨8, h₄⟩
  have hLogged := ((((Logged.fresh Transcript.empty).enter Transcript.empty ⟨_, r₁⟩ h₁).enter
    Transcript.empty ⟨_, r₂⟩ h₂).enter Transcript.empty ⟨_, r₃⟩ h₃).enter Transcript.empty ⟨_, r₄⟩ h₄
  exact ⟨_, s₄, rfl, hLogged, hCursor, hListing, hVars,
    ((cursor_and_variables_of_logged hLogged).1 10).mp hCursor⟩

end Session
end IntegerBasic
