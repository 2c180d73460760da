import IntegerBasic.Batch
import IntegerBasic.Proofs.EntryCalls

/-!
# The course of a batch

**Definitions.**  An `Exchange` is a command of a batch with the calls that it made to the console
and what came of it.  `Course d xs ending d'` says that the batch goes from the desk `d` through
these exchanges to its ending at the desk `d'`.  `RunsEnd d` says that every run to which the batch
comes has an end.

**Argument.**  With every command the batch consumes some of its bytes, and there is no end of them
only if a run has none.

**Results.**
* `exists_course_of_loop`, `exists_loop_of_course`: the loop does what a course of the batch says.
* `loop_unique`: a batch has one outcome at most.
* `exists_course_of_runsEnd`, `runsEnd_of_course`: a batch comes to its end exactly if every run
  does.
-/

namespace IntegerBasic

open Console (Call)

namespace Line

/-- The typed line is the command to leave. -/
def Quits (typed : String) : Prop :=
  Text.trim typed.toList = "QUIT".toList

instance (typed : String) : Decidable (Quits typed) :=
  inferInstanceAs (Decidable (Text.trim typed.toList = "QUIT".toList))

end Line

theorem Command.parse_eq_quit_iff
    {s : String} :
    parse s = .ok quit ↔ Line.Quits s :=
  parse_eq_word_iff rfl

namespace Session

variable {σ : Type} [Console σ] {s s' : Session σ} {line : String} {outcome : Except Error Reply}

/-- The session after its console has shown the error, if the outcome is one. -/
def afterShowing (outcome : Except Error Reply) (s : Session σ) : Session σ :=
  match outcome with
  | .ok _ => s
  | .error e => s.withConsole (Console.printLine ("?" ++ e.render) s.machine.console).2

theorem map_ready_ne_quit
    (r : Except Error Unit) :
    (r.map fun _ => Reply.ready) ≠ .ok .quit := by
  cases r <;> simp [Except.map]

theorem printing_ne_quit
    (lines : List String) (s : Session σ) :
    (s.printing lines).1 ≠ .ok .quit :=
  map_ready_ne_quit _

/-- Only the command to leave ends a session. -/
theorem outcome_eq_quit_iff
    (h : s.Enters line outcome s') :
    outcome = .ok .quit ↔ Line.Quits line := by
  rw [← Command.parse_eq_quit_iff]
  constructor
  · rintro rfl
    rcases cases_of_enters h with ⟨_, _, hError, _⟩ | ⟨c, hCommand, hAnswers⟩
    · cases hError
    · generalize hQuit : Except.ok Reply.quit = outcome at hAnswers
      cases hAnswers with
      | quit => exact hCommand
      | nothing | clear | remove | insert | refused => cases hQuit
      | run => exact absurd hQuit.symm (map_ready_ne_quit _)
      | direct => exact absurd hQuit.symm (map_ready_ne_quit _)
      | list => exact absurd hQuit.symm (printing_ne_quit _ s)
      | help => exact absurd hQuit.symm (printing_ne_quit _ s)
  · intro hCommand
    cases answers_of_enters h hCommand
    rfl

end Session

namespace Batch

/-- A command of a batch, what came of it, and the calls that it made to the console. -/
structure Exchange extends Session.Entry where
  calls : List Call

namespace Desk

variable {d : Desk}

/-- The bytes of the commands that are still to come. -/
def commands (d : Desk) : List UInt8 :=
  d.script.getD d.console.input

/-- The desk at which the batch goes on after a command has come to this outcome and session. -/
def after (outcome : Except Error Reply) (s : Session Pipe) (d : Desk) : Desk :=
  { d with session := s.afterShowing outcome }

theorem commands_of_script
    {bytes : List UInt8}
    (h : d.script = some bytes) :
    d.commands = bytes := by
  rw [commands, h]
  rfl

theorem commands_of_input
    (h : d.script = none) :
    d.commands = d.console.input := by
  rw [commands, h]
  rfl

/-- With a script, the next command is its next line, and the session stays as it is. -/
theorem nextCommand_script
    {d₁ : Desk} {bytes : List UInt8} {answer : Except String (Option String)}
    (hScript : d.script = some bytes) (h : d.nextCommand = (answer, d₁)) :
    answer = (readTextLine bytes).1 ∧ d₁.session = d.session ∧
      d₁.script = some (readTextLine bytes).2 := by
  rw [nextCommand, hScript] at h
  cases h
  exact ⟨rfl, rfl, rfl⟩

/-- Without a script, the next command is the next line of the input. -/
theorem nextCommand_input
    {d₁ : Desk} {answer : Except String (Option String)}
    (hScript : d.script = none) (h : d.nextCommand = (answer, d₁)) :
    answer = (readTextLine d.console.input).1 ∧ d₁.script = none ∧
      d₁.console = ⟨(readTextLine d.console.input).2, d.console.output⟩ := by
  rw [nextCommand, hScript] at h
  cases h
  exact ⟨rfl, hScript, rfl⟩

theorem output_nextCommand
    {d₁ : Desk} {answer : Except String (Option String)}
    (h : d.nextCommand = (answer, d₁)) :
    d₁.console.output = d.console.output := by
  cases hScript : d.script with
  | some bytes =>
      obtain ⟨_, hSession, _⟩ := nextCommand_script hScript h
      rw [console, hSession]
      rfl
  | none =>
      obtain ⟨_, _, hConsole⟩ := nextCommand_input hScript h
      rw [hConsole]

theorem input_after
    (outcome : Except Error Reply) (s : Session Pipe) (d : Desk) :
    (d.after outcome s).console.input = s.machine.console.input := by
  cases outcome <;> rfl

end Desk

/-- The batch ends with an outcome only if the session does. -/
def endingAfter : Except Error Reply → Option Ending
  | .ok .quit => some .success
  | .ok .ready | .error _ => none

theorem endingAfter_eq_none
    {outcome : Except Error Reply}
    (h : outcome ≠ .ok .quit) :
    endingAfter outcome = none := by
  rcases outcome with _ | _ | _
  · rfl
  · rfl
  · contradiction

theorem step_of_command
    {d d₁ : Desk} {line : String}
    (h : d.nextCommand = (.ok (some line), d₁)) (fuel : Nat) :
    step fuel d = ((Session.enter fuel line).run.run d₁.session).map fun (outcome, s) =>
      (endingAfter outcome, d₁.after outcome s) := by
  rw [step, h]
  refine Option.map_congr ?_
  rintro ⟨outcome, s⟩ _
  rcases outcome with e | _ | _ <;> rfl

theorem step_of_enter
    {d d₁ : Desk} {line : String} {fuel : Nat} {outcome : Except Error Reply} {s : Session Pipe}
    (hNext : d.nextCommand = (.ok (some line), d₁))
    (hEnter : (Session.enter fuel line).run.run d₁.session = some (outcome, s)) :
    step fuel d = some (endingAfter outcome, d₁.after outcome s) := by
  rw [step_of_command hNext, hEnter]
  rfl

theorem step_of_end
    {d d₁ : Desk}
    (h : d.nextCommand = (.ok none, d₁)) (fuel : Nat) :
    step fuel d = some (some .success, d₁) := by
  rw [step, h]

theorem step_of_undecodable
    {d d₁ : Desk} {failure : String}
    (h : d.nextCommand = (.error failure, d₁)) (fuel : Nat) :
    step fuel d = some (some (.failure failure), d₁) := by
  rw [step, h]

/-- The batch goes through these exchanges from the one desk to its ending at the other. -/
inductive Course : Desk → List Exchange → Ending → Desk → Prop
  | ended {d d' : Desk} :
      d.nextCommand = (.ok none, d') →
      Course d [] .success d'
  | undecodable {d d' : Desk} {failure : String} :
      d.nextCommand = (.error failure, d') →
      Course d [] (.failure failure) d'
  | quit {d d₁ : Desk} {x : Exchange} {s : Session Pipe} :
      d.nextCommand = (.ok (some x.line), d₁) →
      d₁.session.EntersMaking x.line x.calls x.outcome s →
      x.outcome = .ok .quit →
      Course d [x] .success (d₁.after x.outcome s)
  | goesOn {d d₁ d' : Desk} {x : Exchange} {xs : List Exchange} {s : Session Pipe}
      {ending : Ending} :
      d.nextCommand = (.ok (some x.line), d₁) →
      d₁.session.EntersMaking x.line x.calls x.outcome s →
      x.outcome ≠ .ok .quit →
      Course (d₁.after x.outcome s) xs ending d' →
      Course d (x :: xs) ending d'

section Fuel

variable {d d' : Desk} {fuel fuel' : Nat} {ending : Ending}

theorem step_mono
    {outcome : Option Ending × Desk}
    (hLe : fuel ≤ fuel') (h : step fuel d = some outcome) :
    step fuel' d = some outcome := by
  rcases hNext : d.nextCommand with ⟨_ | _ | line, d₁⟩
  · rw [step_of_undecodable hNext] at h ⊢
    exact h
  · rw [step_of_end hNext] at h ⊢
    exact h
  · rw [step_of_command hNext, Option.map_eq_some_iff] at h
    obtain ⟨result, hEnter, rfl⟩ := h
    rw [step_of_command hNext, Session.fueled_enter line _ _ hLe d₁.session result hEnter]
    rfl

theorem step_unique
    {ending ending' : Option Ending}
    (h : step fuel d = some (ending, d')) {d₁ : Desk} (h' : step fuel' d = some (ending', d₁)) :
    ending = ending' ∧ d' = d₁ := by
  have hMore := step_mono (Nat.le_max_left fuel fuel') h
  have hMore' := step_mono (Nat.le_max_right fuel fuel') h'
  exact Prod.mk.inj (Option.some_inj.mp (hMore.symm.trans hMore'))

theorem loop_mono
    {outcome : Ending × Desk}
    (hLe : fuel ≤ fuel') (h : loop fuel d = some outcome) :
    loop fuel' d = some outcome := by
  induction fuel generalizing fuel' d with
  | zero => cases h
  | succ fuel ih =>
      obtain ⟨fuel', rfl⟩ : ∃ n, fuel' = n + 1 := ⟨fuel' - 1, by omega⟩
      rw [loop] at h ⊢
      rcases hStep : step fuel d with _ | ⟨_ | ending, d₁⟩
      · simp [hStep] at h
      · rw [step_mono (by omega) hStep]
        simp only [hStep] at h
        exact ih (by omega) h
      · rw [step_mono (by omega) hStep]
        simpa [hStep] using h

/-- A batch has one outcome at most. -/
theorem loop_unique
    {outcome outcome' : Ending × Desk}
    (h : loop fuel d = some outcome) (h' : loop fuel' d = some outcome') :
    outcome = outcome' := by
  have hMore := loop_mono (Nat.le_max_left fuel fuel') h
  have hMore' := loop_mono (Nat.le_max_right fuel fuel') h'
  exact Option.some_inj.mp (hMore.symm.trans hMore')

end Fuel

section Loop

variable {d d' : Desk} {ending : Ending}

theorem exists_course_of_loop
    {fuel : Nat}
    (h : loop fuel d = some (ending, d')) :
    ∃ xs, Course d xs ending d' := by
  induction fuel generalizing d with
  | zero => cases h
  | succ fuel ih =>
      rw [loop] at h
      rcases hNext : d.nextCommand with ⟨failure | _ | line, d₁⟩
      · rw [step_of_undecodable hNext] at h
        cases h
        exact ⟨[], .undecodable hNext⟩
      · rw [step_of_end hNext] at h
        cases h
        exact ⟨[], .ended hNext⟩
      · rw [step_of_command hNext] at h
        rcases hEnter : (Session.enter fuel line).run.run d₁.session with _ | ⟨outcome, s⟩
        · simp [hEnter] at h
        · obtain ⟨calls, hMaking⟩ := Session.exists_calls_of_enters ⟨fuel, hEnter⟩
          let x : Exchange := ⟨⟨line, outcome⟩, calls⟩
          by_cases hQuit : outcome = .ok .quit
          · have hEnding : endingAfter outcome = some .success := by rw [hQuit]; rfl
            simp only [hEnter, Option.map_some, hEnding] at h
            cases h
            exact ⟨[x], .quit (x := x) hNext hMaking hQuit⟩
          · simp only [hEnter, Option.map_some, endingAfter_eq_none hQuit] at h
            obtain ⟨xs, hRest⟩ := ih h
            exact ⟨x :: xs, .goesOn (x := x) hNext hMaking hQuit hRest⟩

theorem exists_loop_of_course
    {xs : List Exchange}
    (h : Course d xs ending d') :
    ∃ fuel, loop fuel d = some (ending, d') := by
  induction h with
  | ended hNext => exact ⟨1, by rw [loop, step_of_end hNext]⟩
  | undecodable hNext => exact ⟨1, by rw [loop, step_of_undecodable hNext]⟩
  | @quit _ d₁ x s hNext hMaking hQuit =>
      obtain ⟨fuel, hEnter⟩ := hMaking.1
      refine ⟨fuel + 1, ?_⟩
      rw [loop, step_of_enter hNext hEnter, hQuit]
      rfl
  | @goesOn a d₁ _ x _ s _ hNext hMaking hOther _ ih =>
      obtain ⟨fuel, hEnter⟩ := hMaking.1
      obtain ⟨fuel', hRest⟩ := ih
      have hStep : step fuel a = some (none, d₁.after x.outcome s) := by
        rw [step_of_enter hNext hEnter, endingAfter_eq_none hOther]
      refine ⟨max fuel fuel' + 1, ?_⟩
      rw [loop, step_mono (Nat.le_max_left fuel fuel') hStep]
      exact loop_mono (Nat.le_max_right fuel fuel') hRest

end Loop

/-- The batch goes on from the one desk at the other, with one command between them. -/
def GoesOn (d d' : Desk) : Prop :=
  ∃ fuel, step fuel d = some (none, d')

/-- Every run that the batch reaches has an end. -/
def RunsEnd (d : Desk) : Prop :=
  ∀ d₁ d₂ line, Relation.ReflTransGen GoesOn d d₁ → d₁.nextCommand = (.ok (some line), d₂) →
    Line.Runs line → ∃ r m', Machine.RunsTo d₂.session.listing d₂.session.machine r m'

section Termination

variable {d d₁ : Desk} {line : String} {calls : List Call} {outcome : Except Error Reply}
  {s : Session Pipe}

theorem goesOn_of_enters
    (hNext : d.nextCommand = (.ok (some line), d₁)) (hEnters : d₁.session.Enters line outcome s)
    (hOther : outcome ≠ .ok .quit) :
    GoesOn d (d₁.after outcome s) := by
  obtain ⟨fuel, hEnter⟩ := hEnters
  exact ⟨fuel, by rw [step_of_enter hNext hEnter, endingAfter_eq_none hOther]⟩

theorem RunsEnd.of_goesOn
    (h : RunsEnd d) (hStep : GoesOn d d₁) :
    RunsEnd d₁ :=
  fun _ _ _ hReached => h _ _ _ (hReached.head hStep)

/-- With every command, the commands that are still to come become fewer. -/
theorem length_commands_lt
    (hNext : d.nextCommand = (.ok (some line), d₁))
    (hMaking : d₁.session.EntersMaking line calls outcome s) :
    (d₁.after outcome s).commands.length < d.commands.length := by
  have hRead : ∀ bytes, (readTextLine bytes).1 = .ok (some line) →
      (readTextLine bytes).2.length < bytes.length := by
    rintro bytes hLine
    apply length_readTextLine_lt
    rintro rfl
    cases hLine
  cases hScript : d.script with
  | some bytes =>
      obtain ⟨hLine, _, hScript₁⟩ := Desk.nextCommand_script hScript hNext
      rw [Desk.commands_of_script hScript, (d₁.after outcome s).commands_of_script hScript₁]
      exact hRead bytes hLine.symm
  | none =>
      obtain ⟨hLine, hScript₁, hConsole₁⟩ := Desk.nextCommand_input hScript hNext
      rw [Desk.commands_of_input hScript, (d₁.after outcome s).commands_of_input hScript₁,
        Desk.input_after]
      -- The entry may have read on.
      obtain ⟨cut, hInput, _⟩ := hMaking.takesLines.exists_append
      have hLeft : d₁.session.machine.console.input = (readTextLine d.console.input).2 :=
        congrArg Pipe.input hConsole₁
      have hLength := congrArg List.length hInput
      rw [hLeft, List.length_append] at hLength
      have hShorter := hRead d.console.input hLine.symm
      omega

/-- If every run has an end, the batch comes to its end. -/
theorem exists_course_of_runsEnd
    (h : RunsEnd d) :
    ∃ xs ending d', Course d xs ending d' := by
  induction hLength : d.commands.length using Nat.strongRecOn generalizing d with
  | ind n ih =>
      rcases hNext : d.nextCommand with ⟨failure | _ | line, d₁⟩
      · exact ⟨[], _, _, .undecodable hNext⟩
      · exact ⟨[], _, _, .ended hNext⟩
      · obtain ⟨outcome, s, hEnters⟩ := Session.exists_enters_of_finiteInput
          (Pipe.finiteInput d₁.session.machine.console) (h d d₁ line .refl hNext)
        obtain ⟨calls, hMaking⟩ := Session.exists_calls_of_enters hEnters
        let x : Exchange := ⟨⟨line, outcome⟩, calls⟩
        by_cases hQuit : outcome = .ok .quit
        · exact ⟨[x], _, _, .quit (x := x) hNext hMaking hQuit⟩
        · have hLess := length_commands_lt hNext hMaking
          obtain ⟨xs, ending, d', hRest⟩ :=
            ih _ (hLength ▸ hLess) (h.of_goesOn (goesOn_of_enters hNext hEnters hQuit)) rfl
          exact ⟨x :: xs, ending, d', .goesOn (x := x) hNext hMaking hQuit hRest⟩

/-- A run that is the next command has an end if the batch goes on from here. -/
theorem exists_runsTo_of_command
    {line' : String} {d₂ : Desk}
    (hNext : d.nextCommand = (.ok (some line), d₁)) (hEnters : d₁.session.Enters line outcome s)
    (hNext' : d.nextCommand = (.ok (some line'), d₂)) (hRuns : Line.Runs line') :
    ∃ r m', Machine.RunsTo d₂.session.listing d₂.session.machine r m' := by
  cases hNext.symm.trans hNext'
  exact Session.exists_runsTo_of_enters hEnters hRuns

/-- If the batch comes to its end, every run has an end. -/
theorem runsEnd_of_course
    {xs : List Exchange} {ending : Ending} {d' : Desk}
    (h : Course d xs ending d') :
    RunsEnd d := by
  -- The batch is at the first desk, or it has gone on to the second one.
  induction h with
  | ended hNext =>
      intro d₁ d₂ line hReached hLine
      rcases hReached.cases_head with rfl | ⟨b, ⟨fuel, hStep⟩, _⟩
      · cases hNext.symm.trans hLine
      · rw [step_of_end hNext] at hStep
        cases hStep
  | undecodable hNext =>
      intro d₁ d₂ line hReached hLine
      rcases hReached.cases_head with rfl | ⟨b, ⟨fuel, hStep⟩, _⟩
      · cases hNext.symm.trans hLine
      · rw [step_of_undecodable hNext] at hStep
        cases hStep
  | quit hNext hMaking hQuit =>
      intro d₁ d₂ line hReached hLine hRuns
      rcases hReached.cases_head with rfl | ⟨b, ⟨fuel, hStep⟩, _⟩
      · exact exists_runsTo_of_command hNext hMaking.1 hLine hRuns
      · obtain ⟨fuel', hEnter⟩ := hMaking.1
        have hEnding := step_of_enter hNext hEnter
        rw [hQuit] at hEnding
        cases (step_unique hStep hEnding).1
  | goesOn hNext hMaking hOther _ ih =>
      intro d₁ d₂ line hReached hLine hRuns
      rcases hReached.cases_head with rfl | ⟨b, ⟨fuel, hStep⟩, hRest⟩
      · exact exists_runsTo_of_command hNext hMaking.1 hLine hRuns
      · obtain ⟨fuel', hStep'⟩ := goesOn_of_enters hNext hMaking.1 hOther
        obtain ⟨_, rfl⟩ := step_unique hStep hStep'
        exact ih _ _ _ hRest hLine hRuns

end Termination

end Batch
end IntegerBasic
