import IntegerBasic.Machine.Run

/-!
# Sessions

**Definitions.**  A `Session` is a listing and the machine that runs it.  The operations are those
of somebody who edits a program and runs it.  Errors in a stored line are tagged with its number;
an operation that fails leaves the listing as it was.

**Results.**
* `run_insertLine_of_error`, `run_insertLine_of_ok`: when a line is stored.
-/

namespace IntegerBasic

/-- A listing and the machine that runs it. -/
structure Session (σ : Type) where
  listing : Listing
  machine : Machine σ

namespace Session

variable {σ : Type}

/-- No program, no variables, and a console to talk to. -/
def fresh (console : σ) : Session σ :=
  ⟨.empty, .idle console⟩

/-- Adds an event to the record. -/
def note (event : Event) (s : Session σ) : Session σ :=
  { s with machine := s.machine.note event }

/-- An action of the machine that may read the listing. -/
def onMachine {α : Type} (act : Listing → Action (Machine σ) α) : Action (Session σ) α :=
  ExceptT.mk fun s =>
    ((act s.listing).run.run s.machine).map fun (result, machine) =>
      (result, { s with machine := machine })

/-- Parses a statement and stores it, in the place of what was stored at its number. -/
def insertLine (n : LineNumber) (text : String) : Action (Session σ) Unit := do
  let statement ← (Statement.parse text).mapError (Error.inLine n)
  modify fun s =>
    { s with listing := s.listing.insert n statement }.note (.inserted n (s.listing.contains n))

/-- Removes a line, if it is stored. -/
def removeLine (n : LineNumber) (s : Session σ) : Session σ :=
  if s.listing.contains n then
    { s with listing := s.listing.remove n }.note (.removed n)
  else
    s

/-- The text of a line, which has to be stored. -/
def lineText (n : LineNumber) (s : Session σ) : Except Error String :=
  match s.listing.get? n with
  | some statement => .ok statement.text
  | none => .error ((Error.of .lineNotFound).inLine n)

/-- The numbers and texts of all lines, in ascending order. -/
def list (s : Session σ) : List (LineNumber × String) :=
  s.listing.lines.map fun (n, statement) => (n, statement.text)

/-- Forgets every line and every variable. -/
def clear (s : Session σ) : Session σ :=
  let s := s.note (.cleared s.listing.size)
  ⟨.empty, { s.machine with vars := .empty, cursor := none }⟩

/-- A text that spells no statement is not stored. -/
theorem run_insertLine_of_error
    {n : LineNumber} {text : String} {e : Error} (s : Session σ)
    (h : Statement.parse text = .error e) :
    (insertLine n text).run.run s = some (.error (e.inLine n), s) := by
  rw [insertLine, h]
  rfl

/-- A text that spells a statement is stored. -/
theorem run_insertLine_of_ok
    {n : LineNumber} {text : String} {statement : Statement} (s : Session σ)
    (h : Statement.parse text = .ok statement) :
    (insertLine n text).run.run s =
      some (.ok (),
        { s with listing := s.listing.insert n statement }.note
          (.inserted n (s.listing.contains n))) := by
  rw [insertLine, h]
  rfl

variable [Console σ]

/-- Runs the program from its first line. -/
def run (fuel : Nat) : Action (Session σ) Unit :=
  onMachine (Machine.run fuel)

/-- Executes one statement at once. -/
def runDirect (fuel : Nat) (text : String) : Action (Session σ) Unit :=
  onMachine fun listing => Machine.runDirect fuel listing text

/-- Prints a line on the console. -/
def printLine (line : String) : Action (Session σ) Unit :=
  onMachine fun _ => Machine.printLine line

end Session
end IntegerBasic
