import IntegerBasic.Machine
import IntegerBasic.Text.Blank
import IntegerBasic.Text.Numeral

/-!
# Executing one statement

**Rule.**  Every statement does its work first and moves the cursor last, so that a statement that
fails leaves the cursor where it was.  `INPUT` asks again until it is given the text of a value;
since a console may answer forever, the number of questions is bounded by `fuel`.

**Results.**
* `valueOfText?_eq_some_iff`: which answers are accepted.
-/

namespace IntegerBasic
namespace Machine

/-- The value that a line of input spells, apart from the white space around it. -/
def valueOfText? (s : String) : Option Value :=
  (Text.signed? (Text.trim s.toList)).bind Value.ofInt?

/-- The prompt of an `INPUT`. -/
def inputPrompt : String :=
  " ? "

/-- What is printed after an answer that is not the text of a value. -/
def redoMessage : String :=
  "?REDO FROM START"

theorem valueOfText?_eq_some_iff
    {s : String} {v : Value} :
    valueOfText? s = some v ↔ Text.signed? (Text.trim s.toList) = some v.toInt := by
  simp [valueOfText?, Option.bind_eq_some_iff, Value.ofInt?_eq_some_iff]

variable {σ : Type} [Console σ]

/-- Asks for a value until one is given, at most `fuel` times. -/
def readInteger : Nat → Action (Machine σ) Value
  | 0 => Action.exhausted
  | fuel + 1 => do
      match ← readLine inputPrompt with
      | none => throw (.of .inputPastEnd)
      | some line =>
          match valueOfText? line with
          | some v => return v
          | none => do
              printLine redoMessage
              readInteger fuel

/-- Prints a value on a line of its own. -/
def print (v : Value) : Action (Machine σ) Unit :=
  printLine v.render

/-- Executes one instruction and moves the cursor. -/
def execute (fuel : Nat) (listing : Listing) : Instruction → Action (Machine σ) Unit
  | .remark => modify (advance listing)
  | .assign e => do
      let _ ← eval e
      modify (advance listing)
  | .print e => do
      print (← eval e)
      modify (advance listing)
  | .input _ x => do
      let v ← readInteger fuel
      modify fun m => (m.assign x v).advance listing
  | .stop => modify halt
  | .jump c target => (jump listing target).adapt (Error.inColumn c)
  | .branch l relation r c target => do
      let a ← eval l
      let b ← eval r
      if relation.holds a b then
        (jump listing target).adapt (Error.inColumn c)
      else
        modify (advance listing)

end Machine
end IntegerBasic
