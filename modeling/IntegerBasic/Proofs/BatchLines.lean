import IntegerBasic.Proofs.BatchCourse

/-!
# What becomes of the lines of a batch

**Definitions.**  The `answers` of an exchange are the lines that `INPUT` has taken from the
standard input in it, and its `lines` are its command and then its answers.  `Stops` lists the
reasons for which a batch stops after its exchanges.

**Argument.**  A command takes the next line of its stream, and each call that reads takes the next
line of the input.  With a script these are two streams, and without one they are the same, so that
the answers follow their command.  Everything is by induction on the course.

**Outcome.**  The exit code is 1 exactly if the script cannot be opened or the last line that is
read as a command cannot be decoded.  The output is what the exchanges have written, an error being
printed in a line of its own after a question mark.  An answer that cannot be decoded is an internal
error of its exchange, and nothing else is one.

**Results.**
* `Course.lines_of_script`, `Course.lines_of_input`: the lines of the streams are those of the
  exchanges, in their order.
* `Course.output_eq`: what is written are the calls of the exchanges and the errors.
* `run_takes_lines_in_order`: all that becomes of the lines of a batch, and how it ends.
-/

namespace IntegerBasic

open Console (Call)

namespace Batch

namespace Exchange

/-- The lines that were taken from the input as answers. -/
def answers (x : Exchange) : List (Except String String) :=
  x.calls.filterMap Call.line?

/-- The command and then its answers. -/
def lines (x : Exchange) : List (Except String String) :=
  .ok x.line :: x.answers

/-- The calls of the exchange, and then the error in a line of its own if it has failed. -/
def allCalls (x : Exchange) : List Call :=
  match x.outcome with
  | .ok _ => x.calls
  | .error e => x.calls ++ [.print ("?" ++ e.render) (.ok ())]

end Exchange

/-- Why a batch stops after these exchanges: it comes to the command to leave, or to the end of the
commands, or to a command that cannot be decoded. -/
inductive Stops : List Exchange → List (Except String String) → List UInt8 → Ending → Prop
  | quit {xs : List Exchange} {x : Exchange} {left : List UInt8} :
      (∀ y ∈ xs, ¬ Line.Quits y.line) →
      Line.Quits x.line →
      Stops (xs ++ [x]) [] left .success
  | ended {xs : List Exchange} :
      (∀ y ∈ xs, ¬ Line.Quits y.line) →
      Stops xs [] [] .success
  | undecodable {xs : List Exchange} {left : List UInt8} :
      (∀ y ∈ xs, ¬ Line.Quits y.line) →
      Stops xs [.error decodingFailure] left (.failure decodingFailure)

theorem Stops.cons
    {x : Exchange} {xs : List Exchange} {last : List (Except String String)} {left : List UInt8}
    {ending : Ending}
    (h : Stops xs last left ending) (hOther : ¬ Line.Quits x.line) :
    Stops (x :: xs) last left ending := by
  cases h with
  | @quit xs _ _ hNone hQuits =>
      exact @Stops.quit (x :: xs) _ _ (List.forall_mem_cons.mpr ⟨hOther, hNone⟩) hQuits
  | ended hNone => exact .ended (List.forall_mem_cons.mpr ⟨hOther, hNone⟩)
  | undecodable hNone => exact .undecodable (List.forall_mem_cons.mpr ⟨hOther, hNone⟩)

/-- The exit code tells whether a command could not be decoded. -/
theorem Stops.exitCode_eq_one_iff
    {xs : List Exchange} {last : List (Except String String)} {left : List UInt8} {ending : Ending}
    (h : Stops xs last left ending) :
    ending.exitCode = 1 ↔ last = [.error decodingFailure] := by
  cases h with
  | quit | ended => simp [Ending.success]
  | undecodable => simp [Ending.failure]

theorem stops_of_quit
    {x : Exchange}
    (h : Line.Quits x.line) (left : List UInt8) :
    Stops [x] [] left .success :=
  @Stops.quit [] x left (List.forall_mem_nil _) h

section Step

variable {d d₁ : Desk} {x : Exchange} {s : Session Pipe}

/-- With a script, an exchange takes its command from the script and its answers from the input. -/
theorem takesLines_of_script
    {bytes : List UInt8}
    (hScript : d.script = some bytes) (hNext : d.nextCommand = (.ok (some x.line), d₁))
    (hMaking : d₁.session.EntersMaking x.line x.calls x.outcome s) :
    ∃ rest, (d₁.after x.outcome s).script = some rest ∧
      TakesLines bytes [.ok x.line] rest ∧
      TakesLines d.console.input x.answers (d₁.after x.outcome s).console.input := by
  obtain ⟨hLine, hSession, hScript₁⟩ := Desk.nextCommand_script hScript hNext
  have hCommand := takesLines_readTextLine bytes
  have hAnswers := hMaking.takesLines
  rw [← hLine] at hCommand
  rw [hSession] at hAnswers
  rw [Desk.input_after]
  exact ⟨_, hScript₁, hCommand, hAnswers⟩

/-- Without a script, an exchange takes its command and then its answers from the input. -/
theorem takesLines_of_input
    (hScript : d.script = none) (hNext : d.nextCommand = (.ok (some x.line), d₁))
    (hMaking : d₁.session.EntersMaking x.line x.calls x.outcome s) :
    (d₁.after x.outcome s).script = none ∧
      TakesLines d.console.input x.lines (d₁.after x.outcome s).console.input := by
  obtain ⟨hLine, hScript₁, hConsole⟩ := Desk.nextCommand_input hScript hNext
  have hCommand := takesLines_readTextLine d.console.input
  have hAnswers := hMaking.takesLines
  have hConsole : d₁.session.machine.console = _ := hConsole
  rw [← hLine] at hCommand
  rw [hConsole] at hAnswers
  rw [Desk.input_after]
  exact ⟨hScript₁, hCommand.trans hAnswers⟩

/-- The exchange writes its calls, and its error if it has failed. -/
theorem output_of_exchange
    (hNext : d.nextCommand = (.ok (some x.line), d₁))
    (hMaking : d₁.session.EntersMaking x.line x.calls x.outcome s) :
    (d₁.after x.outcome s).console.output = d.console.output ++ Console.written x.allCalls := by
  have hCalls := hMaking.output_eq
  rw [show d₁.session.machine.console.output = d.console.output from Desk.output_nextCommand hNext]
    at hCalls
  rw [Exchange.allCalls]
  cases hOutcome : x.outcome with
  | ok reply => exact hCalls
  | error e =>
      rw [Console.written_append, ← String.append_assoc, ← hCalls, Console.written_singleton]
      exact String.append_assoc

end Step

section Course

variable {d d' : Desk} {xs : List Exchange} {ending : Ending}

/-- With a script, its lines are the commands, and the lines of the input are the answers. -/
theorem Course.lines_of_script
    {bytes : List UInt8}
    (h : Course d xs ending d') (hScript : d.script = some bytes) :
    ∃ last, Stops xs last d'.commands ending ∧
      TakesLines bytes (xs.map (fun x => .ok x.line) ++ last) d'.commands ∧
      TakesLines d.console.input (xs.flatMap Exchange.answers) d'.console.input := by
  induction h generalizing bytes with
  | @ended d d' hNext =>
      obtain ⟨hLine, hSession, hScript'⟩ := Desk.nextCommand_script hScript hNext
      obtain ⟨rfl, hRest⟩ := eq_nil_of_readTextLine hLine.symm
      rw [d'.commands_of_script hScript', hRest, Desk.console, Desk.console, hSession]
      exact ⟨[], .ended (List.forall_mem_nil _), .refl _, .refl _⟩
  | @undecodable d d' failure hNext =>
      obtain ⟨hLine, hSession, hScript'⟩ := Desk.nextCommand_script hScript hNext
      have hTaken := takesLines_readTextLine bytes
      rw [← hLine] at hTaken
      obtain rfl := eq_decodingFailure_of_readTextLine hLine.symm
      rw [d'.commands_of_script hScript', Desk.console, Desk.console, hSession]
      exact ⟨_, .undecodable (List.forall_mem_nil _), hTaken, .refl _⟩
  | @quit d d₁ x s hNext hMaking hQuit =>
      obtain ⟨rest, hScript', hCommand, hAnswers⟩ := takesLines_of_script hScript hNext hMaking
      rw [Desk.commands_of_script hScript', List.flatMap_singleton]
      exact ⟨[], stops_of_quit ((Session.outcome_eq_quit_iff hMaking.1).mp hQuit) rest, hCommand,
        hAnswers⟩
  | @goesOn d d₁ d' x xs s ending hNext hMaking hOther _ ih =>
      obtain ⟨rest, hScript', hCommand, hAnswers⟩ := takesLines_of_script hScript hNext hMaking
      obtain ⟨last, hStops, hCommands, hOthers⟩ := ih hScript'
      exact ⟨last, hStops.cons (mt (Session.outcome_eq_quit_iff hMaking.1).mpr hOther),
        hCommand.trans hCommands, hAnswers.trans hOthers⟩

/-- Without a script, the lines of the input are the commands, each with its answers behind it. -/
theorem Course.lines_of_input
    (h : Course d xs ending d') (hScript : d.script = none) :
    ∃ last, Stops xs last d'.commands ending ∧
      TakesLines d.console.input (xs.flatMap Exchange.lines ++ last) d'.console.input := by
  induction h with
  | @ended d d' hNext =>
      obtain ⟨hLine, hScript', hConsole⟩ := Desk.nextCommand_input hScript hNext
      obtain ⟨hInput, hRest⟩ := eq_nil_of_readTextLine hLine.symm
      rw [d'.commands_of_input hScript', hConsole, hRest, hInput]
      exact ⟨[], .ended (List.forall_mem_nil _), .refl _⟩
  | @undecodable d d' failure hNext =>
      obtain ⟨hLine, hScript', hConsole⟩ := Desk.nextCommand_input hScript hNext
      have hTaken := takesLines_readTextLine d.console.input
      rw [← hLine] at hTaken
      obtain rfl := eq_decodingFailure_of_readTextLine hLine.symm
      rw [d'.commands_of_input hScript', hConsole]
      exact ⟨_, .undecodable (List.forall_mem_nil _), hTaken⟩
  | @quit d d₁ x s hNext hMaking hQuit =>
      obtain ⟨hScript', hTaken⟩ := takesLines_of_input hScript hNext hMaking
      refine ⟨[], stops_of_quit ((Session.outcome_eq_quit_iff hMaking.1).mp hQuit) _, ?_⟩
      rw [List.flatMap_singleton, List.append_nil]
      exact hTaken
  | @goesOn d d₁ d' x xs s ending hNext hMaking hOther _ ih =>
      obtain ⟨hScript', hTaken⟩ := takesLines_of_input hScript hNext hMaking
      obtain ⟨last, hStops, hRest⟩ := ih hScript'
      refine ⟨last, hStops.cons (mt (Session.outcome_eq_quit_iff hMaking.1).mpr hOther), ?_⟩
      rw [List.flatMap_cons, List.append_assoc]
      exact hTaken.trans hRest

/-- What is written are the calls of the exchanges and the errors. -/
theorem Course.output_eq
    (h : Course d xs ending d') :
    d'.console.output = d.console.output ++ Console.written (xs.flatMap Exchange.allCalls) := by
  induction h with
  | ended hNext | undecodable hNext =>
      rw [Desk.output_nextCommand hNext]
      exact String.append_empty.symm
  | quit hNext hMaking _ =>
      rw [List.flatMap_singleton]
      exact output_of_exchange hNext hMaking
  | goesOn hNext hMaking _ _ ih =>
      rw [ih, output_of_exchange hNext hMaking, List.flatMap_cons, Console.written_append,
        String.append_assoc]

/-- Every exchange has been entered in a session. -/
theorem Course.exists_entersMaking
    {x : Exchange}
    (h : Course d xs ending d') (hMem : x ∈ xs) :
    ∃ s s', Session.EntersMaking (σ := Pipe) s x.line x.calls x.outcome s' := by
  induction h with
  | ended | undecodable => cases hMem
  | quit _ hMaking _ =>
      obtain rfl := List.mem_singleton.mp hMem
      exact ⟨_, _, hMaking⟩
  | goesOn _ hMaking _ _ ih =>
      rcases List.mem_cons.mp hMem with rfl | hRest
      · exact ⟨_, _, hMaking⟩
      · exact ih hRest

end Course

section Start

variable {script : Script} {input : List UInt8} {d : Desk}

/-- A batch that can start has all of the input, no output, and the commands of its script. -/
theorem desk_eq_ok_iff :
    desk script input = .ok d ↔
      (script = .absent ∧ d = ⟨.fresh ⟨input, ""⟩, none⟩) ∨
      ∃ bytes, script = .bytes bytes ∧ d = ⟨.fresh ⟨input, ""⟩, some bytes⟩ := by
  cases script <;> simp [desk, eq_comm]

theorem desk_eq_error_iff
    {failure : String} :
    desk script input = .error failure ↔ script = .unreadable failure := by
  cases script <;> simp [desk]

theorem run_of_desk
    (h : desk script input = .ok d) (fuel : Nat) :
    run fuel script input = (loop fuel d).map fun (ending, d') => (ending, d'.console.output) := by
  rw [run, h]

/-- A batch comes to the end of its course. -/
theorem Course.exists_run
    {xs : List Exchange} {ending : Ending} {d' : Desk}
    (h : Course d xs ending d') (hDesk : desk script input = .ok d) :
    ∃ fuel, run fuel script input = some (ending, d'.console.output) := by
  obtain ⟨fuel, hLoop⟩ := exists_loop_of_course h
  exact ⟨fuel, by rw [run_of_desk hDesk, hLoop]; rfl⟩

/-- A batch comes to nothing but the end of its course. -/
theorem Course.run_unique
    {xs : List Exchange} {ending : Ending} {d' : Desk} {fuel : Nat} {outcome : Ending × String}
    (h : Course d xs ending d') (hDesk : desk script input = .ok d)
    (hRun : run fuel script input = some outcome) :
    outcome = (ending, d'.console.output) := by
  obtain ⟨_, hLoop⟩ := exists_loop_of_course h
  rw [run_of_desk hDesk, Option.map_eq_some_iff] at hRun
  obtain ⟨_, hLoop', rfl⟩ := hRun
  rw [loop_unique hLoop' hLoop]

/-- If a batch has an outcome, then every run that it reaches has an end. -/
theorem runsEnd_of_run
    {fuel : Nat} {outcome : Ending × String}
    (hDesk : desk script input = .ok d) (h : run fuel script input = some outcome) :
    RunsEnd d := by
  rw [run_of_desk hDesk, Option.map_eq_some_iff] at h
  obtain ⟨_, hLoop, _⟩ := h
  obtain ⟨_, hCourse⟩ := exists_course_of_loop hLoop
  exact runsEnd_of_course hCourse

/-- The output of a batch is what its exchanges have written. -/
theorem Course.output_of_desk
    {xs : List Exchange} {ending : Ending} {d' : Desk}
    (h : Course d xs ending d') (hDesk : desk script input = .ok d) :
    d'.console.output = Console.written (xs.flatMap Exchange.allCalls) := by
  have hStart : d.console = ⟨input, ""⟩ := by
    rcases desk_eq_ok_iff.mp hDesk with ⟨_, rfl⟩ | ⟨_, _, rfl⟩ <;> rfl
  rw [h.output_eq, hStart, String.empty_append]

/-- What becomes of the lines of the script, if there is one, and of the input. -/
theorem Course.lines_of_desk
    {xs : List Exchange} {ending : Ending} {d' : Desk}
    (h : Course d xs ending d') (hDesk : desk script input = .ok d) :
    ∃ last, Stops xs last d'.commands ending ∧
      (∀ bytes, script = .bytes bytes →
        TakesLines bytes (xs.map (fun x => .ok x.line) ++ last) d'.commands ∧
        TakesLines input (xs.flatMap Exchange.answers) d'.console.input) ∧
      (script = .absent →
        TakesLines input (xs.flatMap Exchange.lines ++ last) d'.console.input) := by
  rcases desk_eq_ok_iff.mp hDesk with ⟨rfl, rfl⟩ | ⟨bytes, rfl, rfl⟩
  · obtain ⟨last, hStops, hLines⟩ := h.lines_of_input rfl
    exact ⟨last, hStops, fun _ hBytes => (by cases hBytes), fun _ => hLines⟩
  · obtain ⟨last, hStops, hLines⟩ := h.lines_of_script rfl
    refine ⟨last, hStops, ?_, fun hAbsent => (by cases hAbsent)⟩
    rintro _ ⟨⟩
    exact hLines

end Start

/-- If every run that a batch reaches has an end, the batch has one outcome, and every line up to
the last one that is read is taken once, in the order of the lines. -/
theorem run_takes_lines_in_order
    {script : Script} {input : List UInt8}
    (hRuns : ∀ d, desk script input = .ok d → RunsEnd d) :
    ∃ ending output xs last,
      (∃ fuel, run fuel script input = some (ending, output)) ∧
      (∀ fuel outcome, run fuel script input = some outcome → outcome = (ending, output)) ∧
      (ending.exitCode = 1 ↔
        (∃ failure, script = .unreadable failure) ∨ last = [.error decodingFailure]) ∧
      output = Console.written (xs.flatMap Exchange.allCalls) ∧
      (∀ x ∈ xs, .error decodingFailure ∈ x.answers ↔
        ∃ e, x.outcome = .error e ∧ e.code = .internalError) ∧
      ∀ d, desk script input = .ok d → ∃ d',
        Course d xs ending d' ∧ Stops xs last d'.commands ending ∧
        (∀ bytes, script = .bytes bytes →
          TakesLines bytes (xs.map (fun x => .ok x.line) ++ last) d'.commands ∧
          TakesLines input (xs.flatMap Exchange.answers) d'.console.input) ∧
        (script = .absent →
          TakesLines input (xs.flatMap Exchange.lines ++ last) d'.console.input) := by
  cases hDesk : desk script input with
  | error failure =>
      obtain rfl := desk_eq_error_iff.mp hDesk
      refine ⟨.failure failure, "", [], [], ⟨0, rfl⟩, ?_, ?_, rfl, ?_, ?_⟩
      · intro fuel outcome hRun
        cases hRun
        rfl
      · simp [Ending.failure]
      · intro x hMem
        cases hMem
      · intro d hStart
        cases hStart
  | ok d =>
      obtain ⟨xs, ending, d', hCourse⟩ := exists_course_of_runsEnd (hRuns d hDesk)
      obtain ⟨last, hStops, hLines⟩ := hCourse.lines_of_desk hDesk
      refine ⟨ending, d'.console.output, xs, last, hCourse.exists_run hDesk,
        fun _ _ hRun => hCourse.run_unique hDesk hRun, ?_, hCourse.output_of_desk hDesk, ?_, ?_⟩
      · rw [hStops.exitCode_eq_one_iff, or_iff_right]
        rintro ⟨failure, rfl⟩
        cases hDesk
      · intro x hMem
        obtain ⟨s, s', hMaking⟩ := hCourse.exists_entersMaking hMem
        exact hMaking.undecodable_iff
      · rintro _ ⟨⟩
        exact ⟨d', hCourse, hStops, hLines⟩

/-- The answers after `10 INPUT N` and `RUN` are `x`, which is no number, and a byte that cannot be
decoded.  The batch goes on, and stops at a command that cannot be decoded either. -/
theorem run_takes_lines_in_order_undecodable :
    ∃ (input rest : List UInt8) (fuel : Nat) (xs : List Exchange),
      input = [49, 48, 32, 73, 78, 80, 85, 84, 32, 78, 10, 82, 85, 78, 10, 120, 10, 255, 10,
        80, 82, 73, 78, 84, 32, 55, 10, 254, 13, 10, 81, 85, 73, 84] ∧
      run fuel .absent input = some (.failure decodingFailure,
        " ? ?REDO FROM START\n ? ?INTERNAL ERROR IN 10; stream did not contain valid UTF-8\n7\n") ∧
      TakesLines input (xs.flatMap Exchange.lines ++ [.error decodingFailure]) rest ∧
      ∀ x ∈ xs, .error decodingFailure ∈ x.answers ↔
        ∃ e, x.outcome = .error e ∧ e.code = .internalError := by
  let input : List UInt8 := [49, 48, 32, 73, 78, 80, 85, 84, 32, 78, 10, 82, 85, 78, 10, 120, 10,
    255, 10, 80, 82, 73, 78, 84, 32, 55, 10, 254, 13, 10, 81, 85, 73, 84]
  let d : Desk := ⟨.fresh ⟨input, ""⟩, none⟩
  have hRun : run 8 .absent input = some (.failure decodingFailure,
      " ? ?REDO FROM START\n ? ?INTERNAL ERROR IN 10; stream did not contain valid UTF-8\n7\n") := by
    decide +kernel
  have hRuns : ∀ d', desk .absent input = .ok d' → RunsEnd d' := by
    intro d' hDesk
    exact runsEnd_of_run hDesk hRun
  obtain ⟨ending, output, xs, last, _, hOnly, hCode, _, hUndecodable, hLines⟩ :=
    run_takes_lines_in_order hRuns
  obtain ⟨rfl, rfl⟩ := Prod.mk.inj (hOnly 8 _ hRun)
  obtain ⟨d', _, _, _, hInput⟩ := hLines d rfl
  obtain ⟨failure, hScript⟩ | rfl := hCode.mp rfl
  · cases hScript
  · exact ⟨input, d'.console.input, 8, xs, rfl, hRun, hInput rfl, hUndecodable⟩

end Batch
end IntegerBasic
