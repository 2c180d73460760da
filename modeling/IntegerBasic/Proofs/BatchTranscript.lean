import IntegerBasic.Console.Transcript
import IntegerBasic.Proofs.BatchLines

/-!
# A batch repeated on a transcript

**Input.**  A script and a standard input that are both UTF-8.  The batch reads them as bytes and
does not echo its input.  The lines of the script are entered once more, in a session on a
transcript whose input are the lines of the standard input.

**Definition.**  `Plays s entries s'` says that the lines of the entries are entered one after the
other with these outcomes, and that every error is shown on the console after a question mark.

**Invariant.**  What is left of the bytes has the lines that are left of the transcript
(`Mirrors`).  Then both consoles answer each call alike, and so the sessions stay `Alike`; what each
console shows is read off the calls, which are the same.

**Outputs.**  The commands are the lines of the script up to the first one to leave.  The transcript
shows after each prompt the line that was consumed and its end, or only the end if there was no line
left.  Neither the batch nor the session can come to anything else.

**Results.**
* `ReadsAs.cases`: how bytes are read whose lines are known.
* `exists_entersMaking_transcript`: an entry does the same on the transcript.
* `Course.exists_plays`: so does a whole batch.
* `transcript_repeats_batch`: outcomes, listing, variables and outputs of the two.
-/

namespace IntegerBasic

open Console (Call)

/-- The lines of the bytes are all decoded, to these texts. -/
def ReadsAs (bytes : List UInt8) (lines : List String) : Prop :=
  (byteLines bytes).map decodeLine = lines.map .ok

/-- Bytes that are a text are read as its lines. -/
theorem readsAs_of_decodes
    {bytes : List UInt8} {s : String}
    (h : String.fromUTF8? ⟨bytes.toArray⟩ = some s) :
    ReadsAs bytes (textLines s) :=
  map_decodeLine_byteLines h

/-- Reading gives the first of the lines, and the others are left. -/
theorem ReadsAs.cases
    {bytes : List UInt8} {lines : List String}
    (h : ReadsAs bytes lines) :
    (lines = [] ∧ (readTextLine bytes).1 = .ok none ∧ ReadsAs (readTextLine bytes).2 []) ∨
      ∃ line rest, lines = line :: rest ∧ (readTextLine bytes).1 = .ok (some line) ∧
        ReadsAs (readTextLine bytes).2 rest := by
  by_cases hEnd : bytes = []
  · subst hEnd
    have hLines : lines = [] := List.map_eq_nil_iff.mp h.symm
    exact Or.inl ⟨hLines, rfl, rfl⟩
  · rw [ReadsAs, byteLines_eq_cons hEnd] at h
    cases lines with
    | nil => cases h
    | cons line rest =>
        rw [List.map_cons, List.map_cons, List.cons.injEq] at h
        rw [readTextLine_of_ne_nil hEnd, h.1]
        exact Or.inr ⟨line, rest, rfl, rfl, h.2⟩

/-- The lines up to the first that is the command to leave, and with it. -/
def untilQuit : List String → List String
  | [] => []
  | line :: rest => if Line.Quits line then [line] else line :: untilQuit rest

namespace Session

variable {σ : Type} [Console σ]

/-- The lines are entered one after the other with these outcomes, and every error is shown. -/
inductive Plays : Session σ → List Entry → Session σ → Prop
  | nil (s : Session σ) :
      Plays s [] s
  | cons {s s₁ s' : Session σ} {entry : Entry} {rest : List Entry} :
      s.Enters entry.line entry.outcome s₁ →
      Plays (s₁.afterShowing entry.outcome) rest s' →
      Plays s (entry :: rest) s'

/-- Lines can be played in one way only. -/
theorem Plays.unique
    {s s₁ s₂ : Session σ} {entries₁ entries₂ : List Entry}
    (h₁ : s.Plays entries₁ s₁) (h₂ : s.Plays entries₂ s₂)
    (hLines : entries₁.map Entry.line = entries₂.map Entry.line) :
    entries₁ = entries₂ ∧ s₁ = s₂ := by
  induction h₁ generalizing entries₂ with
  | nil =>
      obtain rfl := List.map_eq_nil_iff.mp hLines.symm
      cases h₂
      exact ⟨rfl, rfl⟩
  | @cons _ _ _ entry _ hEnters _ ih =>
      cases h₂ with
      | nil => cases hLines
      | @cons _ _ _ entry' _ hEnters' hRest' =>
          obtain ⟨line, outcome⟩ := entry
          obtain ⟨line', outcome'⟩ := entry'
          rw [List.map_cons, List.map_cons, List.cons.injEq] at hLines
          obtain ⟨rfl, hLines⟩ := hLines
          obtain ⟨rfl, rfl⟩ := hEnters.unique hEnters'
          obtain ⟨rfl, hEnd⟩ := ih hRest' hLines
          exact ⟨rfl, hEnd⟩

end Session

/-- What is left of the bytes has the lines that are left of the transcript. -/
def Mirrors (p : Pipe) (t : Transcript) : Prop :=
  ReadsAs p.input t.input

/-- The pipe that writes its calls down mirrors the transcript, which has shown them. -/
def MirrorsCalls (before : String) (d : Recorded Pipe) (t : Transcript) : Prop :=
  Mirrors d.console t ∧ t.output = before ++ Console.shown d.calls

/-- A pipe and a transcript with the same lines give the same answers. -/
theorem corresponds_mirrorsCalls
    (before : String) :
    Console.Corresponds (MirrorsCalls before) where
  prints := by
    rintro line d t ⟨hMirrors, hOutput⟩
    refine ⟨rfl, hMirrors, ?_⟩
    change t.output ++ line ++ "\n" = before ++ Console.shown (d.calls ++ [.print line (.ok ())])
    rw [hOutput, Console.shown_append, Console.shown_singleton]
    simp [Call.written, Call.echo, String.append_assoc]
  reads := by
    rintro prompt d ⟨lines, output⟩ ⟨hMirrors, hOutput⟩
    have hRead : Console.readLine prompt d = ((readTextLine d.console.input).1,
        ⟨⟨(readTextLine d.console.input).2, d.console.output ++ prompt⟩,
          d.calls ++ [.read prompt (readTextLine d.console.input).1]⟩) := rfl
    have hOutput : output = before ++ Console.shown d.calls := hOutput
    rw [hRead]
    rcases hMirrors.cases with ⟨rfl, hAnswer, hLeft⟩ | ⟨line, rest, rfl, hAnswer, hLeft⟩
    · rw [hAnswer, MirrorsCalls, Console.shown_append, Console.shown_singleton,
        ← String.append_assoc, ← hOutput]
      exact ⟨rfl, hLeft, String.append_assoc⟩
    · rw [hAnswer, MirrorsCalls, Console.shown_append, Console.shown_singleton,
        ← String.append_assoc, ← hOutput]
      refine ⟨rfl, hLeft, ?_⟩
      change output ++ prompt ++ line ++ "\n" = output ++ (prompt ++ (line ++ "\n"))
      simp only [String.append_assoc]

namespace Session

/-- An entry at a pipe does the same on a transcript with the same lines, which shows its calls. -/
theorem exists_entersMaking_transcript
    {s s' : Session Pipe} {t : Session Transcript} {line : String} {calls : List Call}
    {outcome : Except Error Reply}
    (hAlike : Alike Mirrors s t) (h : s.EntersMaking line calls outcome s') :
    ∃ t', t.Enters line outcome t' ∧ Alike Mirrors s' t' ∧
      t'.machine.console.output = t.machine.console.output ++ Console.shown calls := by
  obtain ⟨u, hRecorded, hConsole, hRecord⟩ := h.exists_alike
  have hStart : Alike (MirrorsCalls t.machine.console.output)
      (s.withConsole (Recorded.start s.machine.console)) t :=
    ⟨hAlike.listing, hAlike.linked.vars, hAlike.linked.console, String.append_empty.symm⟩
  obtain ⟨t', hEnters, hEnd⟩ := hStart.exists_enters (corresponds_mirrorsCalls _) hRecorded
  obtain ⟨hMirrors, hOutput⟩ := hEnd.linked.console
  rw [hConsole] at hMirrors hOutput
  refine ⟨t', hEnters, ⟨hRecord.listing.trans hEnd.listing, ?_, hMirrors⟩, hOutput⟩
  intro x _
  exact (hEnd.linked.vars x trivial).trans (hRecord.linked.vars x trivial)

/-- Showing an error keeps the sessions alike. -/
theorem Alike.afterShowing
    {s : Session Pipe} {t : Session Transcript}
    (h : Alike Mirrors s t) (outcome : Except Error Reply) :
    Alike Mirrors (s.afterShowing outcome) (t.afterShowing outcome) := by
  cases outcome with
  | ok reply => exact h
  | error e => exact ⟨h.listing, h.linked.vars, h.linked.console⟩

end Session

namespace Batch

/-- An exchange does the same on a transcript, and so does showing its error. -/
theorem exists_exchange_transcript
    {s s' : Session Pipe} {t : Session Transcript} {x : Exchange}
    (hAlike : Session.Alike Mirrors s t)
    (h : s.EntersMaking x.line x.calls x.outcome s') :
    ∃ t₁, t.Enters x.line x.outcome t₁ ∧
      Session.Alike Mirrors (s'.afterShowing x.outcome) (t₁.afterShowing x.outcome) ∧
      (t₁.afterShowing x.outcome).machine.console.output =
        t.machine.console.output ++ Console.shown x.allCalls := by
  obtain ⟨t₁, hEnters, hAlike₁, hOutput⟩ := Session.exists_entersMaking_transcript hAlike h
  refine ⟨t₁, hEnters, hAlike₁.afterShowing x.outcome, ?_⟩
  rw [Exchange.allCalls]
  cases x.outcome with
  | ok reply => exact hOutput
  | error e =>
      rw [Console.shown_append, ← String.append_assoc, ← hOutput, Console.shown_singleton]
      change t₁.machine.console.output ++ ("?" ++ e.render) ++ "\n" =
        t₁.machine.console.output ++ ("?" ++ e.render ++ "\n" ++ "")
      rw [String.append_empty, String.append_assoc]

/-- The next command of a batch is the first of the lines that are left, and its exchange does the
same on a transcript. -/
theorem exists_next_transcript
    {d d₁ : Desk} {bytes : List UInt8} {lines : List String} {t : Session Transcript}
    {x : Exchange} {s : Session Pipe}
    (hScript : d.script = some bytes) (hLines : ReadsAs bytes lines)
    (hAlike : Session.Alike Mirrors d.session t)
    (hNext : d.nextCommand = (.ok (some x.line), d₁))
    (hMaking : d₁.session.EntersMaking x.line x.calls x.outcome s) :
    ∃ left rest t₁, (d₁.after x.outcome s).script = some left ∧ lines = x.line :: rest ∧
      ReadsAs left rest ∧ t.Enters x.line x.outcome t₁ ∧
      Session.Alike Mirrors (d₁.after x.outcome s).session (t₁.afterShowing x.outcome) ∧
      (t₁.afterShowing x.outcome).machine.console.output =
        t.machine.console.output ++ Console.shown x.allCalls := by
  obtain ⟨hLine, hSession, hScript₁⟩ := Desk.nextCommand_script hScript hNext
  rcases hLines.cases with ⟨_, hAnswer, _⟩ | ⟨line, rest, rfl, hAnswer, hLeft⟩
  · cases hLine.trans hAnswer
  · cases hLine.trans hAnswer
    obtain ⟨t₁, hEnters, hAlike₁, hOutput⟩ :=
      exists_exchange_transcript (hSession ▸ hAlike) hMaking
    exact ⟨_, rest, t₁, hScript₁, rfl, hLeft, hEnters, hAlike₁, hOutput⟩

/-- A batch whose script and input are texts does the same on a transcript. -/
theorem Course.exists_plays
    {d d' : Desk} {xs : List Exchange} {ending : Ending} {bytes : List UInt8} {lines : List String}
    {t : Session Transcript}
    (h : Course d xs ending d') (hScript : d.script = some bytes) (hLines : ReadsAs bytes lines)
    (hAlike : Session.Alike Mirrors d.session t) :
    ending = .success ∧ xs.map (fun x => x.line) = untilQuit lines ∧
      ∃ t', t.Plays (xs.map Exchange.toEntry) t' ∧ Session.Alike Mirrors d'.session t' ∧
        t'.machine.console.output =
          t.machine.console.output ++ Console.shown (xs.flatMap Exchange.allCalls) := by
  induction h generalizing bytes lines t with
  | ended hNext =>
      obtain ⟨hLine, hSession, _⟩ := Desk.nextCommand_script hScript hNext
      rcases hLines.cases with ⟨rfl, _, _⟩ | ⟨line, rest, _, hAnswer, _⟩
      · exact ⟨rfl, rfl, t, .nil t, hSession ▸ hAlike, String.append_empty.symm⟩
      · cases hLine.trans hAnswer
  | undecodable hNext =>
      -- All lines of a text are decoded.
      obtain ⟨hLine, _, _⟩ := Desk.nextCommand_script hScript hNext
      rcases hLines.cases with ⟨_, hAnswer, _⟩ | ⟨line, rest, _, hAnswer, _⟩ <;>
        cases hLine.trans hAnswer
  | @quit _ _ x _ hNext hMaking hQuit =>
      obtain ⟨_, rest, t₁, _, rfl, _, hEnters, hAlike₁, hOutput⟩ :=
        exists_next_transcript hScript hLines hAlike hNext hMaking
      have hQuits := (Session.outcome_eq_quit_iff hMaking.1).mp hQuit
      refine ⟨rfl, ?_, _, .cons hEnters (.nil _), hAlike₁, ?_⟩
      · rw [untilQuit, if_pos hQuits]
        rfl
      · rw [List.flatMap_singleton]
        exact hOutput
  | @goesOn _ _ _ x xs _ _ hNext hMaking hOther _ ih =>
      obtain ⟨left, rest, t₁, hScript₁, rfl, hLeft, hEnters, hAlike₁, hOutput⟩ :=
        exists_next_transcript hScript hLines hAlike hNext hMaking
      have hQuits : ¬ Line.Quits x.line := mt (Session.outcome_eq_quit_iff hMaking.1).mpr hOther
      obtain ⟨hEnding, hRest, t', hPlays, hAlike', hOutput'⟩ := ih hScript₁ hLeft hAlike₁
      refine ⟨hEnding, ?_, t', .cons hEnters hPlays, hAlike', ?_⟩
      · rw [untilQuit, if_neg hQuits, List.map_cons, hRest]
      · rw [hOutput', hOutput, List.flatMap_cons, Console.shown_append, String.append_assoc]

/-- A batch whose script and input are UTF-8 comes to the same outcomes, listing and variables as a
session on a transcript, and what both write is read off the same calls. -/
theorem transcript_repeats_batch
    {script input : List UInt8} {scriptText inputText : String}
    (hScript : String.fromUTF8? ⟨script.toArray⟩ = some scriptText)
    (hInput : String.fromUTF8? ⟨input.toArray⟩ = some inputText)
    (hRuns : ∀ d, desk (.bytes script) input = .ok d → RunsEnd d) :
    ∃ (d : Desk) (xs : List Exchange) (d' : Desk) (t : Session Transcript),
      desk (.bytes script) input = .ok d ∧ Course d xs .success d' ∧
      (∃ fuel, run fuel (.bytes script) input = some (.success, d'.console.output)) ∧
      (∀ fuel outcome, run fuel (.bytes script) input = some outcome →
        outcome = (.success, d'.console.output)) ∧
      xs.map (fun x => x.line) = untilQuit (textLines scriptText) ∧
      (∀ entries t', entries.map Session.Entry.line = untilQuit (textLines scriptText) →
        (Session.Plays (.fresh ⟨textLines inputText, ""⟩) entries t' ↔
          entries = xs.map Exchange.toEntry ∧ t' = t)) ∧
      t.listing = d'.session.listing ∧
      (∀ x, t.machine.vars.get? x = d'.session.machine.vars.get? x) ∧
      (textLines inputText).map .ok =
        xs.flatMap Exchange.answers ++ t.machine.console.input.map .ok ∧
      d'.console.output = Console.written (xs.flatMap Exchange.allCalls) ∧
      t.machine.console.output = Console.shown (xs.flatMap Exchange.allCalls) := by
  let d : Desk := ⟨.fresh ⟨input, ""⟩, some script⟩
  have hDesk : desk (.bytes script) input = .ok d := rfl
  obtain ⟨xs, ending, d', hCourse⟩ := exists_course_of_runsEnd (hRuns d hDesk)
  have hStart : Session.Alike Mirrors d.session (Session.fresh ⟨textLines inputText, ""⟩) :=
    ⟨rfl, .refl _ _, readsAs_of_decodes hInput⟩
  obtain ⟨rfl, hLines, t, hPlays, hEnd, hShown⟩ :=
    hCourse.exists_plays rfl (readsAs_of_decodes hScript) hStart
  refine ⟨d, xs, d', t, hDesk, hCourse, hCourse.exists_run hDesk,
    fun _ _ hRun => hCourse.run_unique hDesk hRun, hLines, ?_, hEnd.listing.symm, ?_, ?_,
    hCourse.output_of_desk hDesk, ?_⟩
  · intro entries t' hEntries
    constructor
    · intro hPlays'
      refine hPlays'.unique hPlays ?_
      rw [hEntries, ← hLines, List.map_map]
      rfl
    · rintro ⟨rfl, rfl⟩
      exact hPlays
  · exact fun x => hEnd.linked.vars x trivial
  · obtain ⟨_, _, _, cut, hCut, hAnswers⟩ := hCourse.lines_of_script rfl
    have hAll : ReadsAs input (textLines inputText) := readsAs_of_decodes hInput
    have hLeft : ReadsAs d'.console.input t.machine.console.input := hEnd.linked.console
    rw [← hAll, ← hLeft, ← hAnswers, ← List.map_append, ← hCut]
    rfl
  · rw [hShown]
    exact String.empty_append

/-- The script is left at `QUIT`; the first answer is asked for again, and the second has no end. -/
theorem transcript_repeats_batch_redo :
    ∃ (script input : List UInt8) (xs : List Exchange) (t : Session Transcript),
      String.fromUTF8? ⟨script.toArray⟩ = some "10 INPUT N\nRUN\nPRINT N\nQUIT\nRUN" ∧
      String.fromUTF8? ⟨input.toArray⟩ = some "x\r\n5" ∧
      run 8 (.bytes script) input = some (.success, " ? ?REDO FROM START\n ? 5\n") ∧
      xs.map (fun x => x.line) = ["10 INPUT N", "RUN", "PRINT N", "QUIT"] ∧
      Session.Plays (.fresh ⟨["x", "5"], ""⟩) (xs.map Exchange.toEntry) t ∧
      Console.written (xs.flatMap Exchange.allCalls) = " ? ?REDO FROM START\n ? 5\n" ∧
      t.machine.console.output = Console.shown (xs.flatMap Exchange.allCalls) := by
  let script : List UInt8 :=
    [49, 48, 32, 73, 78, 80, 85, 84, 32, 78, 10, 82, 85, 78, 10, 80, 82, 73, 78, 84, 32, 78, 10,
     81, 85, 73, 84, 10, 82, 85, 78]
  let input : List UInt8 := [120, 13, 10, 53]
  have hScript : String.fromUTF8? ⟨script.toArray⟩ =
      some "10 INPUT N\nRUN\nPRINT N\nQUIT\nRUN" := by
    decide +kernel
  have hInput : String.fromUTF8? ⟨input.toArray⟩ = some "x\r\n5" := by
    decide +kernel
  have hRun : run 8 (.bytes script) input = some (.success, " ? ?REDO FROM START\n ? 5\n") := by
    decide +kernel
  have hRuns : ∀ d', desk (.bytes script) input = .ok d' → RunsEnd d' := by
    intro d' hDesk
    exact runsEnd_of_run hDesk hRun
  obtain ⟨_, xs, d', t, _, _, _, hOnly, hLines, hPlays, _, _, _, hWritten, hShown⟩ :=
    transcript_repeats_batch hScript hInput hRuns
  have hOutput : " ? ?REDO FROM START\n ? 5\n" = d'.console.output :=
    congrArg Prod.snd (hOnly 8 _ hRun)
  have hCommands : untilQuit (textLines "10 INPUT N\nRUN\nPRINT N\nQUIT\nRUN") =
      ["10 INPUT N", "RUN", "PRINT N", "QUIT"] := by
    decide +kernel
  have hAnswers : textLines "x\r\n5" = ["x", "5"] := by
    decide +kernel
  rw [hAnswers] at hPlays
  refine ⟨script, input, xs, t, hScript, hInput, hRun, hLines.trans hCommands, ?_,
    (hOutput.trans hWritten).symm, hShown⟩
  refine (hPlays _ _ ?_).mpr ⟨rfl, rfl⟩
  rw [List.map_map, ← hLines]
  rfl

end Batch

end IntegerBasic
