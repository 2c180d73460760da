import IntegerBasic.Console
import IntegerBasic.Expr.Eval
import IntegerBasic.Listing

/-!
# The machine

**Definitions.**  A `Machine` is what a running program changes: the variables, the cursor, the
console and a record of the events so far.  The cursor is the number of the line to execute next,
or `none` when there is nothing left to do; it is looked up in the listing at every step.

An `Action` may fail, and leaves a state behind when it does; it may also run out of the steps it
was allowed, and then has no outcome at all.  The actions here are those that statements are made
of.  A listing is only ever read.

**Results.**
* `cursor_advance`: the cursor moves to the next stored line.
* `run_jump_of_contains`, `run_jump_of_not_contains`: a jump succeeds exactly to a stored line, and
  otherwise changes nothing.
-/

namespace IntegerBasic

/-- What is worth noting while a program is edited and run. -/
inductive Event where
  | inserted (line : LineNumber) (replaced : Bool)
  | removed (line : LineNumber)
  | cleared (lines : Nat)
  | started (first : Option LineNumber)
  | executing (line : LineNumber)
  | jumped (source : Option LineNumber) (target : LineNumber)
  | finished
deriving DecidableEq

/-- The state of a running program. -/
structure Machine (σ : Type) where
  vars : Variables
  cursor : Option LineNumber
  console : σ
  events : Array Event

/-- A computation on a state: without outcome if it was allowed too few steps, and otherwise
ending in a value or an error, and a state. -/
abbrev Action (s : Type) (α : Type) : Type :=
  ExceptT Error (StateT s Option) α

/-- The action that has no outcome. -/
def Action.exhausted {s α : Type} : Action s α :=
  ExceptT.mk fun _ => none

namespace Machine

variable {σ : Type}

/-- A machine at rest, with no variables. -/
def idle (console : σ) : Machine σ :=
  ⟨.empty, none, console, #[]⟩

/-- Adds an event to the record. -/
def note (event : Event) (m : Machine σ) : Machine σ :=
  { m with events := m.events.push event }

/-- The line under the cursor, if it is stored. -/
def current? (listing : Listing) (m : Machine σ) : Option (LineNumber × Statement) := do
  let n ← m.cursor
  let s ← listing.get? n
  return (n, s)

/-- Moves the cursor to the first line. -/
def start (listing : Listing) (m : Machine σ) : Machine σ :=
  { m with cursor := listing.first? }

/-- Moves the cursor to the next line. -/
def advance (listing : Listing) (m : Machine σ) : Machine σ :=
  { m with cursor := m.cursor.bind listing.next? }

/-- Takes the cursor away, so that there is nothing left to do. -/
def halt (m : Machine σ) : Machine σ :=
  { m with cursor := none }

/-- Assigns a value to a name. -/
def assign (x : Name) (v : Value) (m : Machine σ) : Machine σ :=
  { m with vars := m.vars.set x v }

/-- Moves the cursor to a line, which has to be stored. -/
def jump (listing : Listing) (target : LineNumber) : Action (Machine σ) Unit := do
  if listing.contains target then
    modify fun m => { m.note (.jumped m.cursor target) with cursor := some target }
  else
    throw (.of .lineNumberError)

/-- Evaluates an expression with the machine's variables. -/
def eval (e : Expr) : Action (Machine σ) Value :=
  ExceptT.mk fun m =>
    let (result, vars) := e.eval.run.run m.vars
    some (result, { m with vars := vars })

/-- Turns the outcome of using the console into that of an action. -/
def useConsole {α : Type} (use : σ → Except String α × σ) : Action (Machine σ) α :=
  ExceptT.mk fun m =>
    let (outcome, console) := use m.console
    some (outcome.mapError Error.ofConsole, { m with console := console })

@[simp] theorem cursor_advance
    (listing : Listing) (m : Machine σ) :
    (m.advance listing).cursor = m.cursor.bind listing.next? := by
  rfl

/-- A jump to a stored line moves the cursor there. -/
theorem run_jump_of_contains
    {listing : Listing} {target : LineNumber} (m : Machine σ)
    (h : listing.contains target = true) :
    (jump listing target).run.run m =
      some (.ok (), { m.note (.jumped m.cursor target) with cursor := some target }) := by
  simp only [jump, h, if_true]
  rfl

/-- A jump to any other line fails and changes nothing. -/
theorem run_jump_of_not_contains
    {listing : Listing} {target : LineNumber} (m : Machine σ)
    (h : listing.contains target = false) :
    (jump listing target).run.run m = some (.error (.of .lineNumberError), m) := by
  simp only [jump, h, Bool.false_eq_true, if_false]
  rfl

variable [Console σ]

/-- Prints a line on the console. -/
def printLine (line : String) : Action (Machine σ) Unit :=
  useConsole (Console.printLine line)

/-- Shows a prompt and reads a line from the console. -/
def readLine (prompt : String) : Action (Machine σ) (Option String) :=
  useConsole (Console.readLine prompt)

end Machine
end IntegerBasic
