import IntegerBasic.Proofs.Correspondence

/-!
# The calls made to a console

A program is told by a console only what the console answers.  To say which calls a program makes
and in which order, the console is exchanged for one that gives the same answers and writes down
every call with its answer.

**Definitions.**  `Recorded σ` is a console of type `σ` with the calls made to it so far.  `Makes`
says that a computation of a machine comes to its end after these calls.

**Argument.**  A console corresponds to its record, so nothing else is changed by writing the calls
down.  A computation that never ends makes no list of calls; what it does can be seen with a console
that fails after so many calls.

**Results.**
* `makes_iff`: a computation makes one list of calls at most.
* `exists_recorded_of_runsTo`: whatever a run does, it also does when its calls are written down.
-/

namespace IntegerBasic

namespace Console

/-- A call to a console and its answer. -/
inductive Call where
  | print (line : String) (result : Except String Unit)
  | read (prompt : String) (answer : Except String (Option String))

/-- Why the call failed, if it did. -/
def Call.failure? : Call → Option String
  | print _ (.error failure) | read _ (.error failure) => some failure
  | print _ (.ok _) | read _ (.ok _) => none

end Console

/-- A console and the calls made to it, in their order. -/
structure Recorded (σ : Type) where
  console : σ
  calls : List Console.Call

namespace Recorded

variable {σ : Type}

/-- No calls have been made yet. -/
def start (console : σ) : Recorded σ :=
  ⟨console, []⟩

variable [Console σ]

instance : Console (Recorded σ) where
  printLine line d :=
    let (result, console) := Console.printLine line d.console
    (result, ⟨console, d.calls ++ [.print line result]⟩)
  readLine prompt d :=
    let (answer, console) := Console.readLine prompt d.console
    (answer, ⟨console, d.calls ++ [.read prompt answer]⟩)

/-- A console corresponds to its record. -/
theorem corresponds :
    Console.Corresponds fun (c : σ) (d : Recorded σ) => d.console = c where
  prints := by
    rintro line _ d rfl
    exact ⟨rfl, rfl⟩
  reads := by
    rintro prompt _ d rfl
    exact ⟨rfl, rfl⟩

end Recorded

namespace Machine

variable {σ : Type}

/-- The machine, with the calls to its console being written down from now on. -/
def recording (m : Machine σ) : Machine (Recorded σ) :=
  ⟨m.vars, m.cursor, .start m.console, m.events⟩

/-- The computation, which may take any number of steps, comes to an end after these calls. -/
def Makes (x : Nat → Action (Machine (Recorded σ)) Unit) (m : Machine σ)
    (calls : List Console.Call) : Prop :=
  ∃ fuel r m', (x fuel).run.run m.recording = some (r, m') ∧ m'.console.calls = calls

/-- There is one list of calls that the computation makes. -/
theorem makes_iff
    {x : Nat → Action (Machine (Recorded σ)) Unit} {m : Machine σ} {fuel : Nat}
    {r : Except Error Unit} {d : Machine (Recorded σ)} {calls : List Console.Call}
    (hFueled : Action.Fueled x) (h : (x fuel).run.run m.recording = some (r, d)) :
    Makes x m calls ↔ calls = d.console.calls := by
  constructor
  · rintro ⟨fuel', r', d', hRun, rfl⟩
    cases hFueled.unique h hRun
    rfl
  · rintro rfl
    exact ⟨fuel, r, d, h, rfl⟩

theorem linked_recording
    (m : Machine σ) :
    Linked Variables.SameValues (fun (c : σ) (d : Recorded σ) => d.console = c) m m.recording :=
  ⟨.refl _ _, rfl⟩

variable [Console σ] {listing : Listing}

/-- A run does the same when its calls are written down. -/
theorem exists_recorded_of_runsTo
    {m m' : Machine σ} {r : Except Error Unit}
    (h : RunsTo listing m r m') :
    ∃ d, RunsTo listing m.recording r d ∧ d.console.console = m'.console ∧
      d.cursor = m'.cursor := by
  obtain ⟨fuel, hRun⟩ := h
  obtain ⟨d, hRun', hStep⟩ := exists_run_of_linked Recorded.corresponds
    (fun line _ => line.2.instruction.respects_sameValues) m.linked_recording hRun
  exact ⟨d, ⟨fuel, hRun'⟩, hStep.linked.console, hStep.cursor⟩

end Machine
end IntegerBasic
