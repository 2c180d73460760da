import IntegerBasic.Machine.Execute

/-!
# Running a program

**Algorithm.**  The cursor is set to the first line; then the statement under the cursor is
executed again and again until there is none.  An error ends the run, tagged with the line that was
executed.  A program may run forever, so the number of statements is bounded by `fuel`; with too
little of it a run has no outcome.

**Results.**
* `runFrom_of_current?_eq_none`, `runFrom_of_error`, `runFrom_of_ok`: the equations of the loop.
* `run_runDirect_of_error`, `run_runDirect_of_illegal`, `run_runDirect_of_allowed`: what becomes of
  a text that is to be executed at once.
-/

namespace IntegerBasic
namespace Machine

variable {σ : Type} [Console σ]

/-- Executes statements from the cursor on until there is none under it. -/
def runFrom (listing : Listing) : Nat → Machine σ → Option (Except Error Unit × Machine σ)
  | 0, _ => none
  | fuel + 1, m =>
      match m.current? listing with
      | none => some (.ok (), m.note .finished)
      | some (n, s) =>
          match (execute fuel listing s.instruction).run.run (m.note (.executing n)) with
          | none => none
          | some (.error e, m) => some (.error (e.inLine n), m)
          | some (.ok (), m) => runFrom listing fuel m

/-- Runs a program from its first line. -/
def run (fuel : Nat) (listing : Listing) : Action (Machine σ) Unit :=
  ExceptT.mk fun m =>
    let m := m.start listing
    runFrom listing fuel (m.note (.started m.cursor))

/-- Executes one statement that is not a line of the program; the cursor stays where it is. -/
def runDirect (fuel : Nat) (listing : Listing) (text : String) : Action (Machine σ) Unit :=
  ExceptT.mk fun m =>
    match Statement.parse text with
    | .error e => some (.error e, m)
    | .ok s =>
        if s.instruction.allowedDirect then
          ((execute fuel listing s.instruction).run.run m).map fun (result, after) =>
            (result, { after with cursor := m.cursor })
        else
          some (.error (.of .illegalDirect), m)

theorem runFrom_of_current?_eq_none
    {listing : Listing} {m : Machine σ} (fuel : Nat)
    (h : m.current? listing = none) :
    runFrom listing (fuel + 1) m = some (.ok (), m.note .finished) := by
  rw [runFrom, h]

theorem runFrom_of_error
    {listing : Listing} {fuel : Nat} {m m' : Machine σ} {n : LineNumber} {s : Statement} {e : Error}
    (hCurrent : m.current? listing = some (n, s))
    (hExecute :
      (execute fuel listing s.instruction).run.run (m.note (.executing n)) = some (.error e, m')) :
    runFrom listing (fuel + 1) m = some (.error (e.inLine n), m') := by
  rw [runFrom, hCurrent]
  simp only [hExecute]

theorem runFrom_of_ok
    {listing : Listing} {fuel : Nat} {m m' : Machine σ} {n : LineNumber} {s : Statement}
    (hCurrent : m.current? listing = some (n, s))
    (hExecute :
      (execute fuel listing s.instruction).run.run (m.note (.executing n)) = some (.ok (), m')) :
    runFrom listing (fuel + 1) m = runFrom listing fuel m' := by
  rw [runFrom, hCurrent]
  simp only [hExecute]

/-- A text that spells no statement is refused. -/
theorem run_runDirect_of_error
    {text : String} {e : Error} (fuel : Nat) (listing : Listing) (m : Machine σ)
    (h : Statement.parse text = .error e) :
    (runDirect fuel listing text).run.run m = some (.error e, m) := by
  change (match Statement.parse text with | .error e => _ | .ok s => _) = _
  rw [h]

/-- A statement that makes sense only in a program is refused. -/
theorem run_runDirect_of_illegal
    {text : String} {s : Statement} (fuel : Nat) (listing : Listing) (m : Machine σ)
    (h : Statement.parse text = .ok s) (hIllegal : s.instruction.allowedDirect = false) :
    (runDirect fuel listing text).run.run m = some (.error (.of .illegalDirect), m) := by
  change (match Statement.parse text with | .error e => _ | .ok s => _) = _
  rw [h]
  exact if_neg (by rw [hIllegal]; decide)

/-- Any other statement is executed, and the cursor is put back. -/
theorem run_runDirect_of_allowed
    {text : String} {s : Statement} (fuel : Nat) (listing : Listing) (m : Machine σ)
    (h : Statement.parse text = .ok s) (hAllowed : s.instruction.allowedDirect = true) :
    (runDirect fuel listing text).run.run m =
      ((execute fuel listing s.instruction).run.run m).map fun (result, after) =>
        (result, { after with cursor := m.cursor }) := by
  change (match Statement.parse text with | .error e => _ | .ok s => _) = _
  rw [h]
  exact if_pos hAllowed

end Machine
end IntegerBasic
