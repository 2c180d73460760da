import IntegerBasic.Proofs.Guarded.Running
import IntegerBasic.Proofs.Refusals
import IntegerBasic.Proofs.SessionLog

/-!
# Tags put on the errors of a session

**Definitions.**  The functions of a session once more, with errors as failures to which tags are
put.  `Guarded.Logged log s` says that the session has come from a fresh one by lines entered in
this way, so that a tag put on another would be logged as a crash.

**Argument.**  A text that spells no statement is refused without a line number; whoever stores it
adds that.  All else is passed on as it comes from the machine.

**Results.**
* `perform_eq`, `enter_eq`: a line that is entered.
* `logged_iff`: a session in which tags could be overwritten is a session.
* `no_tag_is_overwritten`: so there is no crash in it.
-/

namespace IntegerBasic
namespace Guarded

section Sessions

variable {σ : Type}

/-- An activity of the machine that may read the listing. -/
def onMachine {α : Type} (act : Listing → Activity (Machine σ) α) : Activity (Session σ) α :=
  ExceptT.mk fun s =>
    ((act s.listing).run.run s.machine).map fun (result, machine) =>
      (result, { s with machine := machine })

/-- Parses a statement and stores it, in the place of what was stored at its number. -/
def insertLine (n : LineNumber) (text : String) : Activity (Session σ) Unit := do
  let statement ← (statement text).mapError (Failure.inLine n)
  modify fun s =>
    { s with listing := s.listing.insert n statement }.note (.inserted n (s.listing.contains n))

/-- What a line asks for. -/
def commandOf (s : String) : Guarded Command :=
  match trimmed s with
  | "" => .ok .nothing
  | "RUN" => .ok .run
  | "LIST" => .ok .list
  | "CLEAR" => .ok .clear
  | "HELP" => .ok .help
  | "QUIT" => .ok .quit
  | _ => (line s).map Command.ofLine

variable [Console σ]

/-- Carries out a command. -/
def perform (fuel : Nat) : Command → Activity (Session σ) Reply
  | .nothing => return .ready
  | .run => do
      onMachine (run fuel)
      return .ready
  | .list => do
      (← get).list.forM fun (n, text) => onMachine fun _ => printLine (toString n ++ " " ++ text)
      return .ready
  | .clear => do
      modify Session.clear
      return .ready
  | .help => do
      Command.helpLines.forM fun text => onMachine fun _ => printLine text
      return .ready
  | .quit => return .quit
  | .direct text => do
      onMachine fun listing => runDirect fuel listing text
      return .ready
  | .remove n => do
      modify (Session.removeLine n)
      return .ready
  | .insert n text => do
      insertLine n text
      return .ready

/-- Enters a line. -/
def enter (fuel : Nat) (s : String) : Activity (Session σ) Reply := do
  perform fuel (← commandOf s)

end Sessions

section Sessions

variable {σ : Type}

theorem onMachine_eq
    {α : Type} {act : Listing → Activity (Machine σ) α} {act' : Listing → Action (Machine σ) α}
    (h : ∀ listing, act listing = lift (act' listing)) :
    onMachine act = lift (Session.onMachine act') := by
  apply ExceptT.ext
  funext s
  refine Eq.trans ?_ (run_lift (Session.onMachine act') s).symm
  rw [Session.run_onMachine, Option.map_map]
  change ((act s.listing).run.run s.machine).map _ = _
  rw [h, run_lift, Option.map_map]
  rfl

/-- A text that cannot be stored is given its number once. -/
theorem insertLine_eq
    (n : LineNumber) (text : String) :
    (insertLine n text : Activity (Session σ) Unit) = lift (Session.insertLine n text) := by
  rw [insertLine, Session.insertLine, lift_bind, lift_liftM, statement_eq,
    mapError_inLine_safe fun e h => (Statement.refuses_parse text e h).line_eq_none]
  rfl

theorem commandOf_eq
    (s : String) :
    commandOf s = safe (Command.parse s) := by
  rw [commandOf, Command.parse, trimmed, line_eq]
  generalize String.ofList (Text.trim s.toList) = typed
  split
  · rfl
  · rfl
  · rfl
  · rfl
  · rfl
  · rfl
  · simp_all [safe_map]

variable [Console σ]

theorem onMachine_printLine_eq
    (text : String) :
    (onMachine fun _ => printLine text : Activity (Session σ) Unit) =
      lift (Session.printLine text) :=
  onMachine_eq fun _ => printLine_eq text

theorem forM_eq
    {s α : Type} {f : α → Activity s PUnit} {g : α → Action s PUnit}
    (h : ∀ a, f a = lift (g a)) (as : List α) :
    as.forM f = lift (as.forM g) := by
  induction as with
  | nil => rfl
  | cons a as ih =>
      rw [List.forM, List.forM, lift_bind, h, ih]

theorem perform_eq
    (fuel : Nat) (command : Command) :
    (perform fuel command : Activity (Session σ) Reply) = lift (Session.perform fuel command) := by
  cases command with
  | nothing | quit | clear | remove => rfl
  | run =>
      rw [perform, Session.perform, lift_bind, onMachine_eq (run_eq fuel)]
      rfl
  | list =>
      rw [perform, Session.perform, lift_bind]
      refine congrArg _ (funext fun s => ?_)
      rw [lift_bind, forM_eq fun line => onMachine_printLine_eq _]
      rfl
  | help =>
      rw [perform, Session.perform, lift_bind, forM_eq onMachine_printLine_eq]
      rfl
  | direct text =>
      rw [perform, Session.perform, lift_bind,
        onMachine_eq fun listing => runDirect_eq fuel listing text]
      rfl
  | insert n text =>
      rw [perform, Session.perform, lift_bind, insertLine_eq]
      rfl

/-- A line is entered without a tag being put on another. -/
theorem enter_eq
    (fuel : Nat) (s : String) :
    (enter fuel s : Activity (Session σ) Reply) = lift (Session.enter fuel s) := by
  rw [enter, Session.enter, lift_bind, lift_liftM, commandOf_eq]
  exact congrArg _ (funext (perform_eq fuel))

/-- A line that was entered, and what came of it. -/
structure Entry where
  line : String
  outcome : Guarded Reply

/-- An entry in a session in which there is nothing to crash. -/
def Entry.of (entry : Session.Entry) : Entry :=
  ⟨entry.line, safe entry.outcome⟩

/-- Entering the line comes to an end with this outcome and in this session. -/
def Enters (s : Session σ) (line : String) (outcome : Guarded Reply) (s' : Session σ) : Prop :=
  ∃ fuel, (enter fuel line).run.run s = some (outcome, s')

/-- The session has come from a fresh one by the entries of the log.  Each line is entered at a
console of its own, and the session goes on when a line is refused. -/
inductive Logged : List Entry → Session σ → Prop where
  | fresh (console : σ) :
      Logged [] (.fresh console)
  | enter {log : List Entry} {s s' : Session σ} (console : σ) (entry : Entry) :
      Logged log s →
      Enters (s.withConsole console) entry.line entry.outcome s' →
      Logged (log ++ [entry]) s'

variable {s s' : Session σ} {line : String} {outcome : Guarded Reply} {log : List Entry}

theorem run_enter_eq_some_iff
    {fuel : Nat} :
    (enter fuel line).run.run s = some (outcome, s') ↔
      ∃ plain, (Session.enter fuel line).run.run s = some (plain, s') ∧ outcome = safe plain := by
  rw [enter_eq, run_lift, Option.map_eq_some_iff]
  constructor
  · rintro ⟨⟨plain, s₁⟩, hRun, hPair⟩
    cases hPair
    exact ⟨plain, hRun, rfl⟩
  · rintro ⟨plain, hRun, rfl⟩
    exact ⟨(plain, s'), hRun, rfl⟩

/-- A line has the outcome that it has where there is nothing to crash. -/
theorem enters_iff :
    Enters s line outcome s' ↔ ∃ plain, Session.Enters s line plain s' ∧ outcome = safe plain := by
  constructor
  · rintro ⟨fuel, hRun⟩
    obtain ⟨plain, hPlain, hOutcome⟩ := run_enter_eq_some_iff.mp hRun
    exact ⟨plain, ⟨fuel, hPlain⟩, hOutcome⟩
  · rintro ⟨plain, ⟨fuel, hPlain⟩, hOutcome⟩
    exact ⟨fuel, run_enter_eq_some_iff.mpr ⟨plain, hPlain, hOutcome⟩⟩

/-- And so have all lines of a session. -/
theorem logged_iff :
    Logged log s ↔ ∃ plain, Session.Logged plain s ∧ log = plain.map Entry.of := by
  constructor
  · intro h
    induction h with
    | fresh console => exact ⟨[], .fresh console, rfl⟩
    | enter console entry _ hEnters ih =>
        obtain ⟨plain, hLogged, rfl⟩ := ih
        obtain ⟨typed, outcome⟩ := entry
        obtain ⟨result, hPlain, hOutcome⟩ := enters_iff.mp hEnters
        refine ⟨plain ++ [⟨typed, result⟩], .enter console ⟨typed, result⟩ hLogged hPlain, ?_⟩
        rw [List.map_append, List.map_singleton, Entry.of, ← hOutcome]
  · rintro ⟨plain, hLogged, rfl⟩
    induction hLogged with
    | fresh console => exact .fresh console
    | enter console entry _ hEnters ih =>
        rw [List.map_append, List.map_singleton]
        exact .enter console (Entry.of entry) ih (enters_iff.mpr ⟨_, hEnters, rfl⟩)

/-- The sessions in which a tag put on another would be a crash are the sessions, line by line and
with the same outcomes, and none of their lines crashes. -/
theorem no_tag_is_overwritten
    (log : List Entry) (s : Session σ) :
    (∀ e : Error,
      (∀ n, e.line ≠ none → Failure.inLine n (.error e) = .crash (.retag e)) ∧
      (∀ c, e.column ≠ none → Failure.inColumn c (.error e) = .crash (.retag e)) ∧
      (∀ text, e.message ≠ "" → Failure.withMessage text (.error e) = .crash (.retag e))) ∧
    (Logged log s ↔ ∃ plain, Session.Logged plain s ∧ log = plain.map Entry.of) ∧
    (Logged log s → ∀ entry ∈ log, ∀ c, entry.outcome ≠ .error (.crash c)) ∧
    ∀ fuel line s' c, (enter fuel line).run.run s ≠ some (.error (.crash c), s') := by
  refine ⟨fun e => ⟨fun n h => ?_, fun c h => ?_, fun text h => ?_⟩, logged_iff,
    fun hLogged entry hMem c => ?_, fun fuel line s' c hRun => ?_⟩
  · exact Failure.tag_of_taken (Option.isNone_eq_false_iff.mpr (Option.isSome_iff_ne_none.mpr h)) _
  · exact Failure.tag_of_taken (Option.isNone_eq_false_iff.mpr (Option.isSome_iff_ne_none.mpr h)) _
  · exact Failure.tag_of_taken (by simpa using h) _
  · obtain ⟨plain, _, rfl⟩ := logged_iff.mp hLogged
    obtain ⟨entry, _, rfl⟩ := List.mem_map.mp hMem
    exact safe_ne_crash entry.outcome c
  · obtain ⟨plain, _, hOutcome⟩ := run_enter_eq_some_iff.mp hRun
    exact safe_ne_crash plain c hOutcome.symm

/-- A variable without a value is tagged twice: with its columns when it is evaluated, and with its
line by the run. -/
theorem no_tag_is_overwritten_twice_tagged :
    ∃ s : Session Transcript,
      Logged [⟨"10 PRINT X", .ok .ready⟩,
        ⟨"RUN", .error (.error ⟨.undefinedVariable, some 10, some ⟨6, 7⟩, ""⟩)⟩] s := by
  have hOutcome :
      ((Session.enter 8 "10 PRINT X").run.run
          ((Session.fresh Transcript.empty).withConsole Transcript.empty)).bind (fun o =>
        ((Session.enter 8 "RUN").run.run (o.2.withConsole Transcript.empty)).map fun o' =>
          (o.1.toOption, errorOf? o'.1)) =
      some (some .ready, some ⟨.undefinedVariable, some 10, some ⟨6, 7⟩, ""⟩) := by
    decide +kernel
  obtain ⟨⟨r₁, s₁⟩, hStore, hOutcome⟩ := Option.bind_eq_some_iff.mp hOutcome
  obtain ⟨⟨r₂, s₂⟩, hRun, hSeen⟩ := Option.map_eq_some_iff.mp hOutcome
  obtain ⟨hReady, hError⟩ := Prod.mk.inj hSeen
  cases r₁ with
  | error e => cases hReady
  | ok reply =>
      cases hReady
      cases errorOf?_eq_some_iff.mp hError
      have h₁ : ((Session.fresh Transcript.empty).withConsole Transcript.empty).Enters
        "10 PRINT X" _ s₁ := ⟨8, hStore⟩
      have h₂ : (s₁.withConsole Transcript.empty).Enters "RUN" _ s₂ := ⟨8, hRun⟩
      have hLogged := ((Session.Logged.fresh Transcript.empty).enter Transcript.empty ⟨_, _⟩ h₁).enter
        Transcript.empty ⟨_, _⟩ h₂
      exact ⟨s₂, (no_tag_is_overwritten _ s₂).2.1.mpr ⟨_, hLogged, rfl⟩⟩

end Sessions

end Guarded
end IntegerBasic
