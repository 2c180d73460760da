import IntegerBasic.Proofs.InputQueue

/-!
# Asking for a value

Somebody who is asked for a value may answer with anything.  Here it is shown what comes of it, on
consoles whose input is a queue of lines.

**Definitions.**  `Denotes line v` says which lines are accepted, without reading them.  `refusal`
lists the two calls of a round that is followed by another, and `LastRound` the calls of the last
one, with what comes of them.

**Argument.**  One round reads a line and, if the line denotes nothing, prints a message and starts
over (`run_readInteger_succ`).  Each such round takes a line from the queue, so the queue bounds
their number.  The calls of all the rounds lead from the console before to the one after, which
tells what is left of the queue and what a transcript shows.

**Outcome.**  On a transcript each line refused is shown after its prompt and is followed by a
message.  On any console whose input is a queue, a call that fails is the last one and becomes an
internal error; the lines given are those that are gone from the queue, which is empty if the error
says so; and nothing but the console has changed.

**Results.**
* `exists_run_readInteger_of_length_lt`: there are no more rounds than lines, and one for the end.
* `exists_calls_of_readInteger`: which calls are made, and that nothing but the console changes.
* `asking_ends`: the value, the queue and what is shown afterwards.
-/

namespace IntegerBasic

open Console (Call Follows ReadsFrom)

namespace Recorded

variable {σ : Type} [Console σ] {c c' : σ}

theorem printLine_eq
    {line : String} {result : Except String Unit} {before : List Call}
    (h : Console.printLine line c = (result, c')) :
    Console.printLine line (⟨c, before⟩ : Recorded σ) =
      (result, ⟨c', before ++ [.print line result]⟩) := by
  simp only [Console.printLine, h]

theorem readLine_eq
    {prompt : String} {answer : Except String (Option String)} {before : List Call}
    (h : Console.readLine prompt c = (answer, c')) :
    Console.readLine prompt (⟨c, before⟩ : Recorded σ) =
      (answer, ⟨c', before ++ [.read prompt answer]⟩) := by
  simp only [Console.readLine, h]

end Recorded

namespace Machine

/-- Apart from the white space around it, the line is at most one sign and then one or more digits,
and what they denote is the value. -/
def Denotes (line : String) (v : Value) : Prop :=
  Text.SpellsInt (Text.trim line.toList) v.toInt

theorem denotes_iff
    {line : String} {v : Value} :
    Denotes line v ↔ valueOfText? line = some v := by
  rw [valueOfText?_eq_some_iff, Text.signed?_eq_some_iff]
  rfl

theorem not_denotes_of_valueOfText?
    {line : String}
    (h : valueOfText? line = none) (v : Value) :
    ¬ Denotes line v := by
  rw [denotes_iff, h]
  nofun

/-- The calls of a round after which there is another. -/
def refusal (line : String) : List Call :=
  [.read inputPrompt (.ok (some line)), .print redoMessage (.ok ())]

/-- The calls of the last round, and what comes of them. -/
inductive LastRound : List Call → Except Error Value → Prop
  | answered {line : String} {v : Value} :
      Denotes line v →
      LastRound [.read inputPrompt (.ok (some line))] (.ok v)
  | ended :
      LastRound [.read inputPrompt (.ok none)] (.error (.of .inputPastEnd))
  | unread (failure : String) :
      LastRound [.read inputPrompt (.error failure)] (.error (.ofConsole failure))
  | unprinted {line : String} (failure : String) :
      (∀ v, ¬ Denotes line v) →
      LastRound [.read inputPrompt (.ok (some line)), .print redoMessage (.error failure)]
        (.error (.ofConsole failure))

/-- A call that fails is the last one, and is what comes of asking. -/
theorem LastRound.error_of_failure
    {last : List Call} {r : Except Error Value} {call : Call} {failure : String}
    (h : LastRound last r) (hCall : call ∈ last) (hFailed : call.failure? = some failure) :
    last.getLast? = some call ∧ r = .error (.ofConsole failure) := by
  cases h with
  | answered hLine =>
      cases List.mem_singleton.mp hCall
      cases hFailed
  | ended =>
      cases List.mem_singleton.mp hCall
      cases hFailed
  | unread failure' =>
      cases List.mem_singleton.mp hCall
      cases hFailed
      exact ⟨rfl, rfl⟩
  | unprinted failure' hLine =>
      rcases List.mem_pair.mp hCall with rfl | rfl
      · cases hFailed
      · cases hFailed
        exact ⟨rfl, rfl⟩

/-- No call of a round after which there is another has failed. -/
theorem failure?_of_mem_refusal
    {line : String} {call : Call}
    (h : call ∈ refusal line) :
    call.failure? = none := by
  rcases List.mem_pair.mp h with rfl | rfl <;> rfl

/-- Whatever was refused before, a call that fails is the last one of all. -/
theorem LastRound.error_of_failure_of_append
    {refused : List String} {last : List Call} {r : Except Error Value} {call : Call}
    {failure : String}
    (h : LastRound last r) (hCall : call ∈ refused.flatMap refusal ++ last)
    (hFailed : call.failure? = some failure) :
    (refused.flatMap refusal ++ last).getLast? = some call ∧ r = .error (.ofConsole failure) := by
  rcases List.mem_append.mp hCall with hRefused | hInLast
  · obtain ⟨line, _, hRefusal⟩ := List.mem_flatMap.mp hRefused
    rw [failure?_of_mem_refusal hRefusal] at hFailed
    cases hFailed
  · obtain ⟨hIsLast, hError⟩ := h.error_of_failure hInLast hFailed
    refine ⟨?_, hError⟩
    rw [List.getLast?_append, hIsLast]
    rfl

theorem given_flatMap_refusal
    (refused : List String) :
    (refused.flatMap refusal).filterMap Call.given? = refused := by
  induction refused with
  | nil => rfl
  | cons line refused ih =>
      rw [List.flatMap_cons, List.filterMap_append, ih]
      rfl

/-- What a transcript shows of a round after which there is another. -/
def refusalText (line : String) : String :=
  " ? " ++ line ++ "\n" ++ "?REDO FROM START\n"

theorem shown_flatMap_refusal
    (refused : List String) :
    Console.shown (refused.flatMap refusal) = String.join (refused.map refusalText) := by
  induction refused with
  | nil => rfl
  | cons line refused ih =>
      rw [List.flatMap_cons, Console.shown_append, ih, List.map_cons, String.join_cons]
      rfl

variable {σ : Type}

/-- The machine, with the calls to its console being written down after those made before. -/
def noting (before : List Call) (m : Machine σ) : Machine (Recorded σ) :=
  ⟨m.vars, m.cursor, ⟨m.console, before⟩, m.events⟩

variable [Console σ]

/-- One round of asking. -/
theorem run_readInteger_succ
    (fuel : Nat) (m : Machine σ) :
    (readInteger (fuel + 1)).run.run m =
      match Console.readLine inputPrompt m.console with
      | (.error failure, c) => some (.error (.ofConsole failure), { m with console := c })
      | (.ok none, c) => some (.error (.of .inputPastEnd), { m with console := c })
      | (.ok (some line), c) =>
          match valueOfText? line with
          | some v => some (.ok v, { m with console := c })
          | none =>
              match Console.printLine redoMessage c with
              | (.error failure, c') => some (.error (.ofConsole failure), { m with console := c' })
              | (.ok (), c') => (readInteger fuel).run.run { m with console := c' } := by
  have hRead := run_useConsole (Console.readLine inputPrompt) m
  rcases hAnswer : Console.readLine inputPrompt m.console with ⟨failure | _ | line, c⟩ <;>
    rw [hAnswer] at hRead
  · exact Action.run_bind_of_error hRead _
  · exact Action.run_bind_of_ok hRead _
  · cases hValue : valueOfText? line with
    | some v =>
        refine (Action.run_bind_of_ok hRead _).trans ?_
        simp only [hValue]
        rfl
    | none =>
        have hPrint := run_useConsole (Console.printLine redoMessage) { m with console := c }
        refine (run_readInteger_of_redo hRead hValue fuel).trans ?_
        rcases hResult : Console.printLine redoMessage c with ⟨failure | _, c'⟩ <;>
          rw [hResult] at hPrint
        · simp only [hValue, hResult]
          exact Action.run_bind_of_error hPrint _
        · simp only [hValue, hResult]
          exact Action.run_bind_of_ok hPrint _

/-- There are no more rounds than lines, and one for the end of the input. -/
theorem exists_run_readInteger_of_length_lt
    {queue : σ → List String} (hQueue : ReadsFrom queue) :
    ∀ (fuel : Nat) (m : Machine σ), (queue m.console).length < fuel →
      ∃ r m', (readInteger fuel).run.run m = some (r, m') := by
  intro fuel
  induction fuel with
  | zero => exact fun m hFuel => absurd hFuel (Nat.not_lt_zero _)
  | succ fuel ih =>
      intro m hFuel
      rw [run_readInteger_succ]
      rcases hAnswer : Console.readLine inputPrompt m.console with ⟨failure | _ | line, c⟩
      · exact ⟨_, _, rfl⟩
      · exact ⟨_, _, rfl⟩
      · cases hValue : valueOfText? line with
        | some v =>
            simp only [hValue]
            exact ⟨_, _, rfl⟩
        | none =>
            rcases hPrint : Console.printLine redoMessage c with ⟨failure | _, c'⟩
            · simp only [hValue, hPrint]
              exact ⟨_, _, rfl⟩
            · have hPrinted := hQueue.prints redoMessage c
              rw [hPrint] at hPrinted
              rw [hQueue.gives _ _ _ _ hAnswer, List.length_cons, ← hPrinted] at hFuel
              simp only [hValue, hPrint]
              exact ih { m with console := c' } (Nat.lt_of_succ_lt_succ hFuel)

/-- Asking makes the calls of refused lines and then those of the last round, and changes nothing
but the console. -/
theorem exists_calls_of_readInteger
    {r : Except Error Value} :
    ∀ (fuel : Nat) (m m' : Machine σ), (readInteger fuel).run.run m = some (r, m') →
      ∃ (refused : List String) (last : List Call), (∀ line ∈ refused, ∀ v, ¬ Denotes line v) ∧
        LastRound last r ∧
        m' = { m with console := m'.console } ∧
        ∀ before, (readInteger fuel).run.run (m.noting before) =
          some (r, m'.noting (before ++ (refused.flatMap refusal ++ last))) := by
  intro fuel
  induction fuel with
  | zero =>
      intro m m' h
      cases h
  | succ fuel ih =>
      intro m m' h
      rw [run_readInteger_succ] at h
      simp only [run_readInteger_succ, noting]
      rcases hAnswer : Console.readLine inputPrompt m.console with ⟨failure | _ | line, c⟩
      · rw [hAnswer] at h
        cases h
        refine ⟨[], _, nofun, .unread failure, rfl, fun before => ?_⟩
        rw [Recorded.readLine_eq hAnswer]
        rfl
      · rw [hAnswer] at h
        cases h
        refine ⟨[], _, nofun, .ended, rfl, fun before => ?_⟩
        rw [Recorded.readLine_eq hAnswer]
        rfl
      · simp only [hAnswer] at h
        simp only [Recorded.readLine_eq hAnswer]
        cases hValue : valueOfText? line with
        | some v =>
            simp only [hValue] at h
            cases h
            exact ⟨[], _, nofun, .answered (denotes_iff.mpr hValue), rfl, fun before => rfl⟩
        | none =>
            simp only [hValue] at h
            have hLine := not_denotes_of_valueOfText? hValue
            rcases hPrint : Console.printLine redoMessage c with ⟨failure | _, c'⟩
            · simp only [hPrint] at h
              cases h
              refine ⟨[], _, nofun, .unprinted failure hLine, rfl, fun before => ?_⟩
              simp only [Recorded.printLine_eq hPrint, List.append_assoc]
              rfl
            · simp only [hPrint] at h
              obtain ⟨refused, last, hRefused, hLast, hSame, hRun⟩ := ih _ m' h
              refine ⟨line :: refused, last, List.forall_mem_cons.mpr ⟨hLine, hRefused⟩, hLast, ?_,
                fun before => ?_⟩
              · rw [hSame]
              · simp only [Recorded.printLine_eq hPrint]
                refine (hRun _).trans ?_
                simp [noting, List.flatMap_cons, refusal, List.append_assoc]

/-- The calls lead from the console before to the one after. -/
theorem follows_of_noting
    {fuel : Nat} {m m' : Machine σ} {r : Except Error Value} {calls : List Call}
    (h : (readInteger fuel).run.run (m.noting []) = some (r, m'.noting calls)) :
    Follows m.console calls m'.console := by
  have hUses := effectClosed_usesConsole.readInteger fuel _ _ _ h
  obtain ⟨calls', hCalls, hFollows⟩ := Recorded.exists_follows_of_uses hUses
  obtain rfl : calls = calls' := hCalls
  exact hFollows

end Machine

namespace Session

open Machine (Denotes LastRound denotes_iff given_flatMap_refusal not_denotes_of_valueOfText?
  refusal refusalText shown_flatMap_refusal)

variable {σ : Type} [Console σ]

/-- Asks for a value. -/
def ask (fuel : Nat) : Action (Session σ) Value :=
  onMachine fun _ => Machine.readInteger fuel

/-- On a console whose input is a queue, asking comes to an end. -/
theorem exists_run_ask
    {queue : σ → List String} {fuel : Nat} {s : Session σ}
    (hQueue : ReadsFrom queue) (hFuel : (queue s.machine.console).length < fuel) :
    ∃ (refused : List String) (last : List Call) (r : Except Error Value) (c' : σ),
      (ask fuel).run.run s = some (r, s.withConsole c') ∧
      (ask fuel).run.run (s.withConsole (Recorded.start s.machine.console)) =
        some (r, s.withConsole (⟨c', refused.flatMap refusal ++ last⟩ : Recorded σ)) ∧
      (∀ line ∈ refused, ∀ v, ¬ Denotes line v) ∧ LastRound last r ∧
      Follows s.machine.console (refused.flatMap refusal ++ last) c' := by
  obtain ⟨r, m', hRun⟩ := Machine.exists_run_readInteger_of_length_lt hQueue fuel s.machine hFuel
  obtain ⟨refused, last, hRefused, hLast, hSame, hNoting⟩ :=
    Machine.exists_calls_of_readInteger fuel s.machine m' hRun
  refine ⟨refused, last, r, m'.console, ?_, ?_, hRefused, hLast,
    Machine.follows_of_noting (hNoting [])⟩
  · rw [ask, run_onMachine, hRun, hSame]
    rfl
  · have hNoted := hNoting []
    rw [hSame] at hNoted
    rw [ask, run_onMachine]
    exact congrArg (Option.map _) hNoted

/-- What asking comes to on a transcript, by the calls that were made. -/
theorem cases_of_follows_transcript
    {t t' : Transcript} {refused : List String} {last : List Call} {r : Except Error Value}
    (hLast : LastRound last r) (hFollows : Follows t (refused.flatMap refusal ++ last) t') :
    (∃ line v, Denotes line v ∧ r = .ok v ∧ t.input = refused ++ line :: t'.input ∧
      t'.output = t.output ++ String.join (refused.map refusalText) ++ " ? " ++ line ++ "\n") ∨
    r = .error (.of .inputPastEnd) ∧ t.input = refused ∧ t'.input = [] ∧
      t'.output = t.output ++ String.join (refused.map refusalText) ++ " ? " ++ "\n" := by
  have hInput := Transcript.readsFrom.queue_of_follows hFollows
  have hOutput := Transcript.output_of_follows hFollows
  rw [List.filterMap_append, given_flatMap_refusal, List.append_assoc] at hInput
  rw [Console.shown_append, shown_flatMap_refusal, ← String.append_assoc] at hOutput
  cases hLast with
  | @answered line v hLine =>
      rw [Console.shown_answer, ← String.append_assoc, ← String.append_assoc] at hOutput
      exact .inl ⟨line, v, hLine, rfl, hInput, hOutput⟩
  | ended =>
      obtain ⟨between, _, hRead⟩ := hFollows.exists_readLine
      obtain ⟨_, hEmpty⟩ := Transcript.readsFrom.ends _ _ _ hRead
      rw [hEmpty] at hInput
      rw [Console.shown_end, ← String.append_assoc] at hOutput
      exact .inr ⟨rfl, hInput.trans (List.append_nil _), hEmpty, hOutput⟩
  | unread failure =>
      cases Transcript.failure?_of_follows hFollows (List.mem_append_right _ (.head _))
  | unprinted failure =>
      cases Transcript.failure?_of_follows hFollows (List.mem_append_right _ (.tail _ (.head _)))

end Session
end IntegerBasic
