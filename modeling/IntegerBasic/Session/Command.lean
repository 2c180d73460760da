import IntegerBasic.Line
import IntegerBasic.Session

/-!
# Entering lines

**Input.**  A line as it was typed.

**Rule.**  A line that consists of one of the words `RUN`, `LIST`, `CLEAR`, `HELP` and `QUIT`,
white space apart, is a command, and an empty line does nothing.  Every other line is cut into its
number and its text: without a number it is executed at once, a number alone removes a line, and a
number with a text stores one.
-/

namespace IntegerBasic

/-- What an entered line asks for. -/
inductive Command where
  | nothing
  | run
  | list
  | clear
  | help
  | quit
  | direct (text : String)
  | remove (line : LineNumber)
  | insert (line : LineNumber) (text : String)
deriving DecidableEq

namespace Command

/-- What a line asks for once it is cut into number and text. -/
def ofLine (l : Line) : Command :=
  match l.number with
  | none => direct l.text
  | some n => if l.isEmpty then remove n else insert n l.text

/-- What a line asks for. -/
def parse (s : String) : Except Error Command :=
  match String.ofList (Text.trim s.toList) with
  | "" => .ok nothing
  | "RUN" => .ok run
  | "LIST" => .ok list
  | "CLEAR" => .ok clear
  | "HELP" => .ok help
  | "QUIT" => .ok quit
  | _ => (Line.parse s).map ofLine

/-- The lines printed by `HELP`. -/
def helpLines : List String :=
  ["RUN          run the program from its first line",
    "LIST         show the program",
    "CLEAR        delete the program and all variables",
    "QUIT         leave BASIC",
    "<n> <stmt>   store a statement at line <n>",
    "<n>          delete line <n>",
    "<stmt>       run LET, PRINT or INPUT immediately"]

end Command

/-- Whether the session goes on after a line was entered. -/
inductive Reply where
  | ready
  | quit
deriving DecidableEq

namespace Session

variable {σ : Type} [Console σ]

/-- Carries out a command; `fuel` bounds the statements and the questions of a run. -/
def perform (fuel : Nat) : Command → Action (Session σ) Reply
  | .nothing => return .ready
  | .run => do
      run fuel
      return .ready
  | .list => do
      (← get).list.forM fun (n, text) => printLine (toString n ++ " " ++ text)
      return .ready
  | .clear => do
      modify clear
      return .ready
  | .help => do
      Command.helpLines.forM printLine
      return .ready
  | .quit => return .quit
  | .direct text => do
      runDirect fuel text
      return .ready
  | .remove n => do
      modify (removeLine n)
      return .ready
  | .insert n text => do
      insertLine n text
      return .ready

/-- Enters a line. -/
def enter (fuel : Nat) (s : String) : Action (Session σ) Reply := do
  perform fuel (← Command.parse s)

end Session
end IntegerBasic
