import IntegerBasic.Console.Pipe
import IntegerBasic.Session.Command

/-!
# Batch operation

**Input.**  The bytes of the standard input, and possibly the bytes of a script.

**Rule.**  Commands are the lines of the script if there is one, and otherwise those of the
standard input; `INPUT` always reads the standard input, so that without a script it takes the
lines that follow its command.  An error is printed after a question mark, and the session goes
on.  It ends well with `QUIT` or with the end of the commands, and badly when a command is not
UTF-8 or the script cannot be opened.
-/

namespace IntegerBasic
namespace Batch

/-- Where commands come from. -/
inductive Script where
  | absent
  | bytes (bytes : List UInt8)
  | unreadable (failure : String)
deriving DecidableEq

/-- A batch in operation: the session, and what is left of the script if there is one. -/
structure Desk where
  session : Session Pipe
  script : Option (List UInt8)

/-- How a batch ends: an exit code, and what is reported if it is not zero. -/
structure Ending where
  exitCode : UInt32
  report : Option String
deriving DecidableEq

namespace Ending

/-- The batch came to its end. -/
def success : Ending :=
  ⟨0, none⟩

/-- The batch could not go on. -/
def failure (report : String) : Ending :=
  ⟨1, some report⟩

end Ending

namespace Desk

/-- The console of the session. -/
def console (d : Desk) : Pipe :=
  d.session.machine.console

/-- The desk with another console. -/
def withConsole (console : Pipe) (d : Desk) : Desk :=
  { d with session.machine.console := console }

/-- The next command, if there is one. -/
def nextCommand (d : Desk) : Except String (Option String) × Desk :=
  match d.script with
  | some bytes =>
      let (answer, rest) := readTextLine bytes
      (answer, { d with script := some rest })
  | none =>
      let (answer, console) := d.console.nextLine
      (answer, d.withConsole console)

/-- Shows an error after a question mark. -/
def showError (e : Error) (d : Desk) : Desk :=
  d.withConsole (d.console.printLine ("?" ++ e.render))

end Desk

/-- Enters the next command; there is an ending if the batch does not go on. -/
def step (fuel : Nat) (d : Desk) : Option (Option Ending × Desk) :=
  match d.nextCommand with
  | (.error failure, d) => some (some (.failure failure), d)
  | (.ok none, d) => some (some .success, d)
  | (.ok (some line), d) =>
      ((Session.enter fuel line).run.run d.session).map fun (result, session) =>
        let d := { d with session := session }
        match result with
        | .ok .quit => (some .success, d)
        | .ok .ready => (none, d)
        | .error e => (none, d.showError e)

/-- Enters one command after the other; `fuel` bounds their number as well as each run. -/
def loop : Nat → Desk → Option (Ending × Desk)
  | 0, _ => none
  | fuel + 1, d =>
      match step fuel d with
      | none => none
      | some (some ending, d) => some (ending, d)
      | some (none, d) => loop fuel d

/-- The desk at which a batch starts, unless its script cannot be opened. -/
def desk (script : Script) (input : List UInt8) : Except String Desk :=
  let session := Session.fresh ⟨input, ""⟩
  match script with
  | .absent => .ok ⟨session, none⟩
  | .bytes bytes => .ok ⟨session, some bytes⟩
  | .unreadable failure => .error failure

/-- A whole batch: how it ends and what is printed. -/
def run (fuel : Nat) (script : Script) (input : List UInt8) : Option (Ending × String) :=
  match desk script input with
  | .error failure => some (.failure failure, "")
  | .ok d => (loop fuel d).map fun (ending, d) => (ending, d.console.output)

end Batch
end IntegerBasic
