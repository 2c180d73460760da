import IntegerBasic.Console.Transcript
import IntegerBasic.Proofs.Outcome
import IntegerBasic.Session.Command

/-!
# What has been entered in a session

**Definitions.**  `Enters s line outcome s'` says that entering the line comes to an end, however
many steps that takes.  `Logged log s` says that the session has come from a fresh one by the
entries of the log, each made with a console of its own choice; a line that fails is logged like
any other.  `printLines` prints until the console fails.

**Results.**
* `run_enter_of_ok`, `run_enter_of_error`: a line is parsed, and then its command is carried out.
* `run_perform_run`, `run_perform_direct`, `run_perform_list`, `run_perform_help`: what those
  commands do to a session; the listing is not part of it.
* `Records.printLines`: on a console that does not fail, all lines are printed.
-/

namespace IntegerBasic

namespace Console

variable {σ : Type} [Console σ]

/-- Prints lines one after the other, until one of them cannot be printed. -/
def printLines : List String → σ → Except String Unit × σ
  | [], console => (.ok (), console)
  | line :: lines, console =>
      match printLine line console with
      | (.ok (), console) => printLines lines console
      | (.error failure, console) => (.error failure, console)

/-- The console never fails to print a line, and `shown` is what has been printed so far. -/
def Records (shown : σ → String) : Prop :=
  ∀ line console, ∃ console', printLine line console = (.ok (), console') ∧
    shown console' = shown console ++ (line ++ "\n")

/-- The text that lines make when each of them is ended. -/
def joinLines (lines : List String) : String :=
  String.join (lines.map fun line => line ++ "\n")

/-- A console that does not fail prints all lines. -/
theorem Records.printLines
    {shown : σ → String}
    (h : Records shown) (lines : List String) (console : σ) :
    ∃ console', printLines lines console = (.ok (), console') ∧
      shown console' = shown console ++ joinLines lines := by
  induction lines generalizing console with
  | nil => exact ⟨console, rfl, by simp [joinLines]⟩
  | cons line lines ih =>
      obtain ⟨console₁, hPrint, hShown₁⟩ := h line console
      obtain ⟨console₂, hRest, hShown₂⟩ := ih console₁
      refine ⟨console₂, ?_, ?_⟩
      · simp only [Console.printLines, hPrint, hRest]
      · rw [hShown₂, hShown₁]
        simp [joinLines, String.append_assoc]

theorem records_transcript :
    Records Transcript.output := by
  intro line console
  exact ⟨console.printLine line, rfl, by rw [Transcript.printLine, String.append_assoc]⟩

end Console

namespace Session

variable {σ τ : Type}

/-- The session with another console. -/
def withConsole (console : τ) (s : Session σ) : Session τ :=
  ⟨s.listing, s.machine.vars, s.machine.cursor, console, s.machine.events⟩

/-- A line as it is listed: its number, a space and its text. -/
def listed (line : LineNumber × String) : String :=
  toString line.1 ++ " " ++ line.2

theorem run_onMachine
    {α : Type} (act : Listing → Action (Machine σ) α) (s : Session σ) :
    (onMachine act).run.run s =
      ((act s.listing).run.run s.machine).map fun (result, machine) =>
        (result, { s with machine := machine }) := by
  rfl

/-- After a step without a result of its own the session is ready. -/
theorem run_then_ready
    (act : Action (Session σ) Unit) (s : Session σ) :
    (do act; return .ready : Action (Session σ) Reply).run.run s =
      (act.run.run s).map fun (result, s') => (result.map fun _ => .ready, s') := by
  cases hRun : act.run.run s with
  | none => exact Action.run_bind_of_none hRun _
  | some outcome =>
      obtain ⟨result, s'⟩ := outcome
      cases result with
      | error e => exact Action.run_bind_of_error hRun _
      | ok _ => exact Action.run_bind_of_ok hRun _

variable [Console σ]

theorem run_printLine
    (line : String) (s : Session σ) :
    (printLine line).run.run s =
      some ((Console.printLine line s.machine.console).1.mapError Error.ofConsole,
        s.withConsole (Console.printLine line s.machine.console).2) := by
  rfl

/-- The items are shown one after the other until the console fails. -/
theorem run_forM_printLine
    {α : Type} (text : α → String) (items : List α) (s : Session σ) :
    (items.forM fun item => printLine (text item) : Action (Session σ) PUnit).run.run s =
      some ((Console.printLines (items.map text) s.machine.console).1.mapError Error.ofConsole,
        s.withConsole (Console.printLines (items.map text) s.machine.console).2) := by
  induction items generalizing s with
  | nil => rfl
  | cons item items ih =>
      have hFirst := run_printLine (text item) s
      rw [List.forM, List.map_cons, Console.printLines]
      cases hPrint : Console.printLine (text item) s.machine.console with
      | mk result console =>
          rw [hPrint] at hFirst
          cases result with
          | error failure => exact Action.run_bind_of_error hFirst _
          | ok _ => exact (Action.run_bind_of_ok hFirst _).trans (ih (s.withConsole console))

/-- A line that asks for nothing is refused, and the session stays as it was. -/
theorem run_enter_of_error
    {line : String} {e : Error} (fuel : Nat) (s : Session σ)
    (h : Command.parse line = .error e) :
    (enter fuel line).run.run s = some (.error e, s) := by
  rw [enter, h]
  rfl

/-- A line is entered by carrying out what it asks for. -/
theorem run_enter_of_ok
    {line : String} {command : Command} (fuel : Nat) (s : Session σ)
    (h : Command.parse line = .ok command) :
    (enter fuel line).run.run s = (perform fuel command).run.run s := by
  rw [enter, h]
  rfl

/-- Prints lines, after which the session is ready unless the console failed. -/
def printing (lines : List String) (s : Session σ) : Except Error Reply × Session σ :=
  let (result, console) := Console.printLines lines s.machine.console
  (result.mapError Error.ofConsole |>.map fun _ => .ready, s.withConsole console)

theorem printing_of_ok
    {lines : List String} {s : Session σ} {console : σ}
    (h : Console.printLines lines s.machine.console = (.ok (), console)) :
    s.printing lines = (.ok .ready, s.withConsole console) := by
  rw [printing, h]
  rfl

/-- `LIST` prints every line with its number. -/
theorem run_perform_list
    (fuel : Nat) (s : Session σ) :
    (perform fuel .list).run.run s = some (s.printing (s.list.map listed)) := by
  exact (run_then_ready _ s).trans (congrArg _ (run_forM_printLine listed s.list s))

/-- `HELP` prints the lines about the commands. -/
theorem run_perform_help
    (fuel : Nat) (s : Session σ) :
    (perform fuel .help).run.run s = some (s.printing Command.helpLines) := by
  have hPrint := run_forM_printLine id Command.helpLines s
  rw [List.map_id] at hPrint
  exact (run_then_ready _ s).trans (congrArg _ hPrint)

/-- `RUN` runs the listing on the machine. -/
theorem run_perform_run
    (fuel : Nat) (s : Session σ) :
    (perform fuel .run).run.run s =
      ((Machine.run fuel s.listing).run.run s.machine).map fun (result, machine) =>
        (result.map fun _ => .ready, { s with machine := machine }) := by
  rw [perform, run_then_ready, run, run_onMachine, Option.map_map]
  rfl

/-- A direct statement is executed on the machine. -/
theorem run_perform_direct
    (fuel : Nat) (text : String) (s : Session σ) :
    (perform fuel (.direct text)).run.run s =
      ((Machine.runDirect fuel s.listing text).run.run s.machine).map fun (result, machine) =>
        (result.map fun _ => .ready, { s with machine := machine }) := by
  rw [perform, run_then_ready, runDirect, run_onMachine, Option.map_map]
  rfl

/-- A text that spells a statement is stored. -/
theorem run_perform_insert_of_ok
    {n : LineNumber} {text : String} {statement : Statement} (fuel : Nat) (s : Session σ)
    (h : Statement.parse text = .ok statement) :
    (perform fuel (.insert n text)).run.run s =
      some (.ok .ready,
        { s with listing := s.listing.insert n statement }.note
          (.inserted n (s.listing.contains n))) := by
  exact Action.run_bind_of_ok (run_insertLine_of_ok s h) _

/-- A text that spells no statement is refused. -/
theorem run_perform_insert_of_error
    {n : LineNumber} {text : String} {e : Error} (fuel : Nat) (s : Session σ)
    (h : Statement.parse text = .error e) :
    (perform fuel (.insert n text)).run.run s = some (.error (e.inLine n), s) := by
  exact Action.run_bind_of_error (run_insertLine_of_error s h) _

/-- A line that was entered, and what came of it. -/
structure Entry where
  line : String
  outcome : Except Error Reply

/-- Entering the line comes to an end with this outcome and in this session. -/
def Enters (s : Session σ) (line : String) (outcome : Except Error Reply) (s' : Session σ) :
    Prop :=
  ∃ fuel, (enter fuel line).run.run s = some (outcome, s')

/-- The session has come from a fresh one by the entries of the log.  Each line is entered at a
console of its own, and the session goes on when a line is refused. -/
inductive Logged : List Entry → Session σ → Prop where
  | fresh (console : σ) :
      Logged [] (.fresh console)
  | enter {log : List Entry} {s s' : Session σ} (console : σ) (entry : Entry) :
      Logged log s →
      Enters (s.withConsole console) entry.line entry.outcome s' →
      Logged (log ++ [entry]) s'

end Session
end IntegerBasic
