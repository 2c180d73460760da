import IntegerBasic.Console

/-!
# Transcripts

A `Transcript` is a console whose input is prepared in advance and which never fails.  Its output
shows what a terminal would show: the lines printed, and each prompt with the line that was typed
in answer to it.
-/

namespace IntegerBasic

/-- The lines not yet read and the text shown so far. -/
structure Transcript where
  input : List String
  output : String
deriving DecidableEq

namespace Transcript

/-- Nothing to read and nothing shown. -/
def empty : Transcript :=
  ⟨[], ""⟩

/-- One more line to read, after those that are waiting. -/
def pushInput (line : String) (t : Transcript) : Transcript :=
  { t with input := t.input ++ [line] }

/-- Shows a line. -/
def printLine (line : String) (t : Transcript) : Transcript :=
  { t with output := t.output ++ line ++ "\n" }

/-- Shows the prompt and the line that answers it. -/
def readLine (prompt : String) (t : Transcript) : Option String × Transcript :=
  match t.input with
  | [] => (none, { t with output := t.output ++ prompt ++ "\n" })
  | line :: rest => (some line, ⟨rest, t.output ++ prompt ++ line ++ "\n"⟩)

instance : Console Transcript where
  printLine line t := (.ok (), t.printLine line)
  readLine prompt t :=
    let (answer, t) := t.readLine prompt
    (.ok answer, t)

end Transcript
end IntegerBasic
