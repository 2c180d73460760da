import IntegerBasic.Batch

/-!
# The command line

`basic [FILE] [--plain]` runs a batch: the commands of `FILE` if one is named, and otherwise those
of the standard input.  With or without `--plain`, input is read without a line editor.
-/

namespace IntegerBasic

/-- What the command line asks for. -/
inductive Invocation where
  | batch (file : Option String)
  | refused (reason : String)

namespace Invocation

/-- Reads the arguments: at most one file, and the flag `--plain`. -/
def parse (args : List String) : Invocation :=
  match args.filter fun arg => arg != "--plain" with
  | [] => batch none
  | [file] => if file.startsWith "-" then refused ("unexpected argument " ++ file) else batch file
  | _ :: extra :: _ => refused ("unexpected argument " ++ extra)

end Invocation

/-- More statements than any machine executes. -/
def ampleFuel : Nat :=
  Nat.pow 2 62

/-- Reads a stream to its end. -/
partial def readAll (stream : IO.FS.Stream) (read : ByteArray) : IO ByteArray := do
  let chunk ← stream.read 65536
  if chunk.isEmpty then return read else readAll stream (read ++ chunk)

/-- Opens and reads a script. -/
def readScript : Option String → IO Batch.Script
  | none => return .absent
  | some file => do
      try
        return .bytes (← IO.FS.readBinFile file).toList
      catch
        | .noFileOrDirectory .. => return .unreadable "No such file or directory (os error 2)"
        | e => return .unreadable (toString e)

/-- Writes what the console has collected. -/
def flushConsole (stdout : IO.FS.Stream) (d : Batch.Desk) : IO Batch.Desk := do
  stdout.putStr d.console.output
  stdout.flush
  return d.withConsole { d.console with output := "" }

/-- Enters the commands of a batch until it ends, and shows what each of them prints. -/
partial def enterAll (stdout : IO.FS.Stream) (d : Batch.Desk) : IO Batch.Ending := do
  match Batch.step ampleFuel d with
  | none => return .failure ""
  | some (ending?, d) => do
      let d ← flushConsole stdout d
      match ending? with
      | some ending => return ending
      | none => enterAll stdout d

/-- Runs a batch between the standard streams. -/
def runBatch (file : Option String) : IO UInt32 := do
  let script ← readScript file
  let input ← readAll (← IO.getStdin) .empty
  let ending ←
    match Batch.desk script input.toList with
    | .error failure => pure (.failure failure)
    | .ok d => enterAll (← IO.getStdout) d
  if let some report := ending.report then IO.eprintln report
  return ending.exitCode

end IntegerBasic

open IntegerBasic in
/-- The entry point. -/
def main (args : List String) : IO UInt32 := do
  match Invocation.parse args with
  | .batch file => runBatch file
  | .refused reason => do
      IO.eprintln reason
      return 2
