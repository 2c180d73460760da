import IntegerBasic.Console.Transcript
import IntegerBasic.Proofs.Answers
import IntegerBasic.Proofs.Faults
import IntegerBasic.Proofs.Refusals

/-!
# Where errors come from

**Argument.**  A line can fail in three ways.  Its run fails, and then with a fault of the line
under the cursor.  Its text is refused when it is to be stored.  Or it fails without a line number.
What is stored has been parsed, and so a run never meets a syntax error.

**Causes.**  The error has a line number if a run has left the cursor at that line, or if the text
of a line with that number is refused, which is for a syntax error.  A run fails for a line number
only at a line whose target is not stored, past the end of the input only at an `INPUT` that the
console told so last, and with an internal error only if the last call to the console has failed,
for the reason that the error gives.

**Results.**
* `Answers.error_cases`: the three ways.
* `line_eq_some_iff_of_enters`: which errors have which line number.
* `error_of_enters`: the line numbers and the causes of all errors.
-/

namespace IntegerBasic

namespace Session

variable {σ : Type} [Console σ] {s s' : Session σ} {c : Command} {line : String} {e : Error}

theorem line_eq_none_of_printing
    {lines : List String}
    (h : (s.printing lines).1 = .error e) :
    e.line = none := by
  cases hPrint : Console.printLines lines s.machine.console with
  | mk result console =>
      rw [printing, hPrint] at h
      cases result with
      | ok u => cases h
      | error failure =>
          cases h
          rfl

theorem line_eq_none_of_executesDirectly
    {listing : Listing} {text : String} {m m' : Machine σ}
    (h : Machine.ExecutesDirectly listing text m (.error e) m') :
    e.line = none := by
  rcases h.cases with ⟨_, hParse, hError, _⟩ | ⟨_, _, hError, _⟩ | ⟨_, _, _, hExecutes, _⟩
  · cases hError
    exact (Statement.refuses_parse text e hParse).line_eq_none
  · cases hError
    rfl
  · exact Machine.line_eq_none_of_executes hExecutes

theorem eq_error_of_map
    {r : Except Error Unit}
    (h : (r.map fun _ => Reply.ready) = .error e) :
    r = .error e := by
  cases r with
  | ok u => cases h
  | error e' =>
      cases h
      rfl

/-- A command fails when its run fails, or when its text is refused, or else without a line
number. -/
theorem Answers.error_cases
    (h : Answers s c (.error e) s') :
    (c = .run ∧ ∃ m', Machine.RunsTo s.listing s.machine (.error e) m' ∧
      s' = { s with machine := m' }) ∨
    (∃ n text e', c = .insert n text ∧ Statement.parse text = .error e' ∧ e = e'.inLine n) ∨
    (e.line = none ∧ c ≠ .run ∧ ∀ n text, c ≠ .insert n text) := by
  generalize hOutcome : Except.error e = outcome at h
  cases h with
  | nothing | quit | clear | remove | insert => cases hOutcome
  | run hRun => exact Or.inl ⟨rfl, _, eq_error_of_map hOutcome.symm ▸ hRun, rfl⟩
  | refused hParse =>
      cases hOutcome
      exact Or.inr (Or.inl ⟨_, _, _, rfl, hParse, rfl⟩)
  | direct hDirect =>
      rw [eq_error_of_map hOutcome.symm] at hDirect
      exact Or.inr (Or.inr ⟨line_eq_none_of_executesDirectly hDirect, by simp, by simp⟩)
  | list => exact Or.inr (Or.inr ⟨line_eq_none_of_printing hOutcome.symm, by simp, by simp⟩)
  | help => exact Or.inr (Or.inr ⟨line_eq_none_of_printing hOutcome.symm, by simp, by simp⟩)

/-- The listing has the line under the cursor of a run that fails, and the error has its number. -/
theorem exists_cursor_of_runsTo
    {listing : Listing} {m m' : Machine σ}
    (h : Machine.RunsTo listing m (.error e) m') :
    ∃ n, m'.cursor = some n ∧ listing.contains n = true ∧ e.line = some n := by
  obtain ⟨point, _, hEnds⟩ := Machine.runsTo_iff_halts.mp h
  cases hEnds with
  | failed _ hGet _ hCursor _ => exact ⟨_, hCursor, Option.isSome_of_eq_some hGet, rfl⟩

/-- The error of a line has a number exactly if it is a run and the cursor is left at the stored
line with that number, or if the line has that number and its text is refused. -/
theorem line_eq_some_iff_of_enters
    {n : LineNumber}
    (h : s.Enters line (.error e) s') :
    e.line = some n ↔
      (Line.Runs line ∧ s'.machine.cursor = some n ∧ s'.listing.contains n = true) ∨
      ∃ text e', Line.parse line = .ok ⟨some n, text⟩ ∧ text ≠ "" ∧
        Statement.parse text = .error e' := by
  have hNumbered : (∃ text e', Line.parse line = .ok ⟨some n, text⟩ ∧ text ≠ "" ∧
      Statement.parse text = .error e') ↔
      ∃ text e', Command.parse line = .ok (.insert n text) ∧ Statement.parse text = .error e' := by
    simp only [Command.parse_eq_insert_iff, and_assoc]
  rw [hNumbered, ← Command.parse_eq_run_iff]
  rcases cases_of_enters h with ⟨e', hCommand, hError, rfl⟩ | ⟨c, hCommand, hAnswers⟩
  · cases hError
    have hRefused := Line.refuses_parse line e (Command.parse_eq_error_iff.mp hCommand)
    simp [hCommand, hRefused.line_eq_none]
  · rw [hCommand]
    rcases hAnswers.error_cases with ⟨rfl, m', hRun, rfl⟩ | ⟨n', text, e', rfl, hParse, rfl⟩ |
      ⟨hNone, hRun, hInsert⟩
    · obtain ⟨k, hCursor, hStored, hLine⟩ := exists_cursor_of_runsTo hRun
      simp only [hLine, hCursor, Option.some_inj, true_and, Except.ok.injEq, reduceCtorEq,
        false_and, exists_false, or_false]
      constructor
      · rintro rfl
        exact ⟨rfl, hStored⟩
      · rintro ⟨rfl, _⟩
        rfl
    · have hLine : (e'.inLine n').line = some n' := rfl
      simp only [hLine, Option.some_inj, Except.ok.injEq, reduceCtorEq, false_and, false_or,
        Command.insert.injEq]
      constructor
      · rintro rfl
        exact ⟨text, e', ⟨rfl, rfl⟩, hParse⟩
      · rintro ⟨_, _, ⟨rfl, _⟩, _⟩
        rfl
    · simp [hNone, hRun, hInsert]

/-- A numbered line fails for a syntax error. -/
theorem code_of_enters_numbered
    {n : LineNumber} {text : String}
    (h : s.Enters line (.error e) s') (hLine : Line.parse line = .ok ⟨some n, text⟩) :
    e.code = .syntaxError := by
  by_cases hText : text = ""
  · subst hText
    cases answers_of_enters h (Command.parse_eq_remove_iff.mpr hLine)
  · cases answers_of_enters h (Command.parse_eq_insert_iff.mpr ⟨hLine, hText⟩) with
    | @refused _ _ e' hParse => exact (Statement.refuses_parse text e' hParse).code_eq

/-- A run that fails leaves the cursor at a stored line, and its error is a fault of this line after
the calls that the run has made. -/
theorem exists_fault_of_enters
    (h : s.Enters line (.error e) s') (hRuns : Line.Runs line) :
    ∃ n statement calls e', s'.machine.cursor = some n ∧ s.listing.get? n = some statement ∧
      Machine.Makes (fun fuel => Machine.run fuel s.listing) s.machine calls ∧
      e = e'.inLine n ∧ Fault s.listing calls statement.instruction e' := by
  rcases (answers_of_enters h (Command.parse_eq_run_iff.mpr hRuns)).error_cases with
    ⟨_, m', hRun, rfl⟩ | ⟨_, _, _, hInsert, _⟩ | ⟨_, hNot, _⟩
  · obtain ⟨d, ⟨fuel, hRecorded⟩, _, hCursor⟩ := Machine.exists_recorded_of_runsTo hRun
    obtain ⟨n, statement, e', hAt, hGet, hError, hFault⟩ :=
      Machine.exists_fault_of_runsTo ⟨fuel, hRecorded⟩
    exact ⟨n, statement, d.console.calls, e', hCursor ▸ hAt, hGet, ⟨fuel, _, d, hRecorded, rfl⟩,
      hError, hFault⟩
  · cases hInsert
  · exact absurd rfl hNot

/-- Where the error of a line comes from: which line number it has, and for which causes the line
can have failed. -/
theorem error_of_enters
    {s s' : Session σ} {line : String} {e : Error}
    (h : s.Enters line (.error e) s') :
    (∀ n, e.line = some n ↔
      (Line.Runs line ∧ s'.machine.cursor = some n ∧ s'.listing.contains n = true) ∨
      ∃ text e', Line.parse line = .ok ⟨some n, text⟩ ∧ text ≠ "" ∧
        Statement.parse text = .error e') ∧
    (∀ text, Line.parse line = .ok ⟨none, text⟩ → text ≠ "RUN" → e.line = none) ∧
    (∀ e', Line.parse line = .error e' → e.line = none) ∧
    (∀ n text, Line.parse line = .ok ⟨some n, text⟩ → e.code = .syntaxError) ∧
    (Line.Runs line →
      (e.code ≠ .syntaxError ∧ e.code ≠ .illegalDirect ∧ e.code ≠ .lineNotFound) ∧
      ((∀ stored ∈ s.listing.lines, ∀ target ∈ stored.2.instruction.target?,
        s.listing.contains target = true) → e.code ≠ .lineNumberError) ∧
      ∃ n statement calls, s'.machine.cursor = some n ∧ s.listing.get? n = some statement ∧
        Machine.Makes (fun fuel => Machine.run fuel s.listing) s.machine calls ∧
        (e.code = .lineNumberError → ∃ target, statement.instruction.target? = some target ∧
          s.listing.contains target = false) ∧
        (e.code = .inputPastEnd → (∃ column x, statement.instruction = .input column x) ∧
          calls.getLast? = some (.read Machine.inputPrompt (.ok none))) ∧
        (e.code = .internalError → ∃ call, calls.getLast? = some call ∧
          call.failure? = some e.message)) := by
  have hNone : (∀ n, e.line ≠ some n) → e.line = none := Option.eq_none_iff_forall_ne_some.mpr
  refine ⟨fun n => line_eq_some_iff_of_enters h, ?_, ?_, fun n text => code_of_enters_numbered h,
    ?_⟩
  · intro text hLine hText
    refine hNone fun n hSome => ?_
    rcases (line_eq_some_iff_of_enters h).mp hSome with ⟨hRuns, _⟩ | ⟨_, _, hNumbered, _⟩
    · cases hLine.symm.trans (Line.runs_iff.mp hRuns)
      exact hText rfl
    · cases hLine.symm.trans hNumbered
  · intro e' hLine
    refine hNone fun n hSome => ?_
    rcases (line_eq_some_iff_of_enters h).mp hSome with ⟨hRuns, _⟩ | ⟨_, _, hNumbered, _⟩
    · have hCommand := Command.parse_eq_error_iff.mpr hLine
      cases hCommand.symm.trans (Command.parse_eq_run_iff.mpr hRuns)
    · cases hLine.symm.trans hNumbered
  · intro hRuns
    obtain ⟨n, statement, calls, e', hCursor, hGet, hMakes, rfl, hFault⟩ :=
      exists_fault_of_enters h hRuns
    refine ⟨hFault.code_ne, ?_, n, statement, calls, hCursor, hGet, hMakes, hFault.exists_target,
      hFault.input_ended, hFault.call_failed⟩
    intro hTargets hCode
    obtain ⟨target, hTarget, hMissing⟩ := hFault.exists_target hCode
    have hStored := hTargets (n, statement) (Listing.get?_eq_some_iff.mp hGet) target hTarget
    rw [hMissing] at hStored
    contradiction

/-- There is input for the first of two `INPUT`s only. -/
theorem error_of_enters_inputPastEnd :
    ∃ (s s' : Session Transcript) (e : Error) (calls : List Console.Call),
      s.Enters " RUN " (.error e) s' ∧ e.line = some 20 ∧ e.code = .inputPastEnd ∧
      s'.machine.cursor = some 20 ∧
      Machine.Makes (fun fuel => Machine.run fuel s.listing) s.machine calls ∧
      calls.getLast? = some (.read " ? " (.ok none)) := by
  let input : Statement :=
    { text := "INPUT N", instruction := .input ⟨6, 7⟩ "N", trim_text := rfl, spells := rfl }
  let s : Session Transcript := ⟨⟨[(10, input), (20, input)], by decide⟩, .idle ⟨["1"], ""⟩⟩
  have hOutcome :
      ((enter 8 " RUN ").run.run s).map (fun o =>
        (match o.1 with
          | .error e => some e.code
          | .ok _ => none, o.2.machine.cursor, o.2.listing.contains 20)) =
      some (some .inputPastEnd, some 20, true) := by
    decide +kernel
  obtain ⟨⟨outcome, s'⟩, hRun, hSeen⟩ := Option.map_eq_some_iff.mp hOutcome
  obtain ⟨hCode, hSeen⟩ := Prod.mk.inj hSeen
  obtain ⟨hCursor, hStored⟩ := Prod.mk.inj hSeen
  cases outcome with
  | ok reply => cases hCode
  | error e =>
      have hEnters : s.Enters " RUN " (.error e) s' := ⟨8, hRun⟩
      have hRuns : Line.Runs " RUN " := rfl
      have hCode : e.code = .inputPastEnd := Option.some_inj.mp hCode
      obtain ⟨hLine, _, _, _, hCauses⟩ := error_of_enters hEnters
      obtain ⟨_, _, _, _, calls, _, _, hMakes, _, hEnded, _⟩ := hCauses hRuns
      exact ⟨s, s', e, calls, hEnters, (hLine 20).mpr (Or.inl ⟨hRuns, hCursor, hStored⟩), hCode,
        hCursor, hMakes, (hEnded hCode).2⟩

end Session
end IntegerBasic
