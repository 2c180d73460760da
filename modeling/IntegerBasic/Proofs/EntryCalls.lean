import IntegerBasic.Proofs.FailedCalls
import IntegerBasic.Proofs.LineCutting

/-!
# The calls of an entry, and what they do to a pipe

**Definitions.**  `EntersMaking s line calls outcome s'` says that entering the line makes these
calls to the console and comes to this end.  The calls are those that the console writes down when
the line is entered with its record (`Recorded`).  `Follows` says that a list of calls leads from
one console to another.

**Argument.**  A session changes its console by using it only, and each use is one call.  So the
calls that are written down lead from the console before the entry to the one after it, and what
they do to a pipe is shown call by call.

**Results.**
* `exists_calls_of_enters`: every entry makes a list of calls.
* `Pipe.takesLines_of_follows`: each call that was given a line or failed has consumed one line.
* `Pipe.output_of_follows`: what the calls write.
* `EntersMaking.undecodable_iff`: an entry at a pipe fails with an internal error exactly if it was
  answered by a line that cannot be decoded.
-/

namespace IntegerBasic

namespace Console

/-- The line of the input that the call has consumed, if there was one. -/
def Call.line? : Call → Option (Except String String)
  | print .. => none
  | read _ answer => answeredLine? answer

theorem Call.failure?_of_line?
    {call : Call} {failure : String}
    (h : call.line? = some (.error failure)) :
    call.failure? = some failure := by
  obtain _ | ⟨prompt, _ | _ | line⟩ := call
  · cases h
  · cases h
    rfl
  · cases h
  · cases h

/-- What the call writes where input is not echoed. -/
def Call.written : Call → String
  | print line (.ok _) => line ++ "\n"
  | print _ (.error _) => ""
  | read prompt _ => prompt

/-- What is seen after the prompt where input is echoed: the line, if there is one, and its end. -/
def Call.echo : Call → String
  | read _ (.ok (some line)) => line ++ "\n"
  | read _ (.ok none) => "\n"
  | print .. | read _ (.error _) => ""

/-- All that the calls write where input is not echoed. -/
def written (calls : List Call) : String :=
  String.join (calls.map Call.written)

/-- All that the calls write where input is echoed. -/
def shown (calls : List Call) : String :=
  String.join (calls.map fun call => call.written ++ call.echo)

theorem written_append
    (calls more : List Call) :
    written (calls ++ more) = written calls ++ written more := by
  rw [written, List.map_append, String.join_append]
  rfl

theorem shown_append
    (calls more : List Call) :
    shown (calls ++ more) = shown calls ++ shown more := by
  rw [shown, List.map_append, String.join_append]
  rfl

theorem written_singleton
    (call : Call) :
    written [call] = call.written := by
  simp [written]

theorem shown_singleton
    (call : Call) :
    shown [call] = call.written ++ call.echo := by
  simp [shown]

/-- The calls, made one after the other, lead from the one console to the other. -/
inductive Follows {σ : Type} [Console σ] : σ → List Call → σ → Prop
  | nil (c : σ) :
      Follows c [] c
  | print {c c' : σ} {calls : List Call} (line : String) :
      Follows c calls c' →
      Follows c (calls ++ [.print line (printLine line c').1]) (printLine line c').2
  | read {c c' : σ} {calls : List Call} (prompt : String) :
      Follows c calls c' →
      Follows c (calls ++ [.read prompt (readLine prompt c').1]) (readLine prompt c').2

end Console

open Console (Call Follows Use)

/-- The calls that are written down lead from the one console to the other. -/
theorem Recorded.exists_follows_of_uses
    {σ : Type} [Console σ] {d d' : Recorded σ}
    (h : Relation.ReflTransGen Use d d') :
    ∃ calls, d'.calls = d.calls ++ calls ∧ Follows d.console calls d'.console := by
  induction h with
  | refl => exact ⟨[], (List.append_nil _).symm, .nil _⟩
  | @tail between _ _ hLast ih =>
      obtain ⟨calls, hCalls, hFollows⟩ := ih
      cases hLast with
      | print line =>
          exact ⟨_, by rw [← List.append_assoc, ← hCalls]; rfl, hFollows.print line⟩
      | read prompt =>
          exact ⟨_, by rw [← List.append_assoc, ← hCalls]; rfl, hFollows.read prompt⟩

namespace Pipe

variable {p p' : Pipe} {calls : List Call}

theorem printLine_eq
    (line : String) (p : Pipe) :
    Console.printLine line p = (.ok (), ⟨p.input, p.output ++ line ++ "\n"⟩) := by
  rfl

theorem readLine_eq
    (prompt : String) (p : Pipe) :
    Console.readLine prompt p =
      ((readTextLine p.input).1, ⟨(readTextLine p.input).2, p.output ++ prompt⟩) := by
  rfl

/-- Each call that was given a line or failed has consumed one line, in the order of the calls. -/
theorem takesLines_of_follows
    (h : Follows p calls p') :
    TakesLines p.input (calls.filterMap Call.line?) p'.input := by
  induction h with
  | nil => exact .refl _
  | print line _ ih =>
      rw [List.filterMap_append]
      exact ih.trans (.refl _)
  | @read between _ prompt _ ih =>
      have hLast : [Call.read prompt (readTextLine between.input).1].filterMap Call.line? =
          (answeredLine? (readTextLine between.input).1).toList := by
        cases hLine : answeredLine? (readTextLine between.input).1 <;>
          simp [Call.line?, hLine]
      rw [List.filterMap_append, readLine_eq, hLast]
      exact ih.trans (takesLines_readTextLine between.input)

/-- A pipe collects what the calls write. -/
theorem output_of_follows
    (h : Follows p calls p') :
    p'.output = p.output ++ Console.written calls := by
  induction h with
  | nil => exact String.append_empty.symm
  | print line _ ih =>
      rw [Console.written_append, ← String.append_assoc, ← ih, Console.written_singleton,
        printLine_eq, String.append_assoc]
      rfl
  | read prompt _ ih =>
      rw [Console.written_append, ← String.append_assoc, ← ih, Console.written_singleton,
        readLine_eq]
      rfl

/-- Only reading fails, and only because a line cannot be decoded. -/
theorem failure_of_follows
    (h : Follows p calls p') {call : Call} {failure : String} (hCall : call ∈ calls)
    (hFailed : call.failure? = some failure) :
    failure = decodingFailure ∧ call.line? = some (.error decodingFailure) := by
  induction h with
  | nil => cases hCall
  | print line _ ih =>
      rcases List.mem_append.mp hCall with hBefore | hLast
      · exact ih hBefore
      · cases List.mem_singleton.mp hLast
        cases hFailed
  | @read between _ prompt _ ih =>
      rcases List.mem_append.mp hCall with hBefore | hLast
      · exact ih hBefore
      · obtain rfl := List.mem_singleton.mp hLast
        rw [readLine_eq] at hFailed ⊢
        cases hAnswer : (readTextLine between.input).1 with
        | ok answer => simp [hAnswer, Call.failure?] at hFailed
        | error failure' =>
            have hFailure := eq_decodingFailure_of_readTextLine hAnswer
            simp only [hAnswer, Call.failure?, Option.some_inj] at hFailed
            subst hFailed
            exact ⟨hFailure, by rw [hFailure]; rfl⟩

end Pipe

namespace Session

variable {σ : Type}

theorem alike_recorded
    (s : Session σ) :
    Alike (fun (c : σ) (d : Recorded σ) => d.console = c) s
      (s.withConsole (.start s.machine.console)) :=
  ⟨rfl, .refl _ _, rfl⟩

variable [Console σ] {s s' : Session σ} {line : String} {calls : List Call}
  {outcome : Except Error Reply}

/-- Entering the line makes these calls to the console, and comes to an end with this outcome and in
this session. -/
def EntersMaking (s : Session σ) (line : String) (calls : List Call) (outcome : Except Error Reply)
    (s' : Session σ) : Prop :=
  s.Enters line outcome s' ∧
    ∃ t, (s.withConsole (Recorded.start s.machine.console)).Enters line outcome t ∧
      t.machine.console = ⟨s'.machine.console, calls⟩

/-- Every entry makes a list of calls. -/
theorem exists_calls_of_enters
    (h : s.Enters line outcome s') :
    ∃ calls, s.EntersMaking line calls outcome s' := by
  obtain ⟨t, hRecorded, hAlike⟩ := s.alike_recorded.exists_enters Recorded.corresponds h
  refine ⟨t.machine.console.calls, h, t, hRecorded, ?_⟩
  rw [← hAlike.linked.console]

namespace EntersMaking

/-- The session that writes the calls down ends alike. -/
theorem exists_alike
    (h : s.EntersMaking line calls outcome s') :
    ∃ t, (s.withConsole (Recorded.start s.machine.console)).Enters line outcome t ∧
      t.machine.console = ⟨s'.machine.console, calls⟩ ∧
      Alike (fun (c : σ) (d : Recorded σ) => d.console = c) s' t := by
  obtain ⟨hEnters, t, hRecorded, hConsole⟩ := h
  obtain ⟨t', hRecorded', hAlike⟩ := s.alike_recorded.exists_enters Recorded.corresponds hEnters
  obtain ⟨_, rfl⟩ := hRecorded.unique hRecorded'
  exact ⟨t, hRecorded, hConsole, hAlike⟩

theorem follows
    (h : s.EntersMaking line calls outcome s') :
    Follows s.machine.console calls s'.machine.console := by
  obtain ⟨_, t, hRecorded, hConsole⟩ := h
  obtain ⟨calls', hCalls, hFollows⟩ := Recorded.exists_follows_of_uses (uses_of_enters hRecorded)
  rw [hConsole] at hCalls hFollows
  obtain rfl : calls = calls' := hCalls
  exact hFollows

theorem heeds
    (h : s.EntersMaking line calls outcome s') :
    Heeds calls outcome := by
  obtain ⟨_, t, hRecorded, hConsole⟩ := h
  obtain ⟨calls', hCalls, hHeeds⟩ := heeds_of_enters hRecorded
  rw [hConsole] at hCalls
  obtain rfl : calls = calls' := hCalls
  exact hHeeds

theorem last_failed
    {e : Error}
    (h : s.EntersMaking line calls (.error e) s') (hCode : e.code = .internalError) :
    ∃ call, calls.getLast? = some call ∧ call.failure? = some e.message := by
  obtain ⟨_, t, hRecorded, hConsole⟩ := h
  obtain ⟨call, hLast, hFailed⟩ := last_failed_of_enters hRecorded hCode
  rw [hConsole] at hLast
  exact ⟨call, hLast, hFailed⟩

end EntersMaking

section Pipes

variable {s s' : Session Pipe}

theorem EntersMaking.takesLines
    (h : s.EntersMaking line calls outcome s') :
    TakesLines s.machine.console.input (calls.filterMap Call.line?) s'.machine.console.input :=
  Pipe.takesLines_of_follows h.follows

theorem EntersMaking.output_eq
    (h : s.EntersMaking line calls outcome s') :
    s'.machine.console.output = s.machine.console.output ++ Console.written calls :=
  Pipe.output_of_follows h.follows

/-- An entry that was answered by a line that cannot be decoded ends with it, and its error says
so. -/
theorem EntersMaking.error_of_undecodable
    (h : s.EntersMaking line calls outcome s')
    (hUndecodable : .error decodingFailure ∈ calls.filterMap Call.line?) :
    (calls.filterMap Call.line?).getLast? = some (.error decodingFailure) ∧
      ∃ e, outcome = .error e ∧ e.code = .internalError ∧ e.message = decodingFailure := by
  obtain ⟨call, hCall, hLine⟩ := List.mem_filterMap.mp hUndecodable
  obtain ⟨hLast, hError⟩ := h.heeds.error_of_failure hCall (Console.Call.failure?_of_line? hLine)
  obtain ⟨before, rfl⟩ := List.getLast?_eq_some_iff.mp hLast
  refine ⟨?_, hError⟩
  simp [List.filterMap_append, hLine]

/-- An entry at a pipe fails with an internal error exactly if it was answered by a line that cannot
be decoded. -/
theorem EntersMaking.undecodable_iff
    (h : s.EntersMaking line calls outcome s') :
    .error decodingFailure ∈ calls.filterMap Call.line? ↔
      ∃ e, outcome = .error e ∧ e.code = .internalError := by
  constructor
  · intro hLine
    obtain ⟨_, e, hError, hCode, _⟩ := h.error_of_undecodable hLine
    exact ⟨e, hError, hCode⟩
  · rintro ⟨e, rfl, hCode⟩
    obtain ⟨call, hLast, hFailed⟩ := h.last_failed hCode
    have hCall : call ∈ calls := List.mem_of_getLast? hLast
    exact List.mem_filterMap.mpr ⟨call, hCall, (Pipe.failure_of_follows h.follows hCall hFailed).2⟩

end Pipes
end Session
end IntegerBasic
