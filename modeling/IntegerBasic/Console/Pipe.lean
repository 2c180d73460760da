import IntegerBasic.Console

/-!
# Pipes

A `Pipe` is a console between two streams: it reads bytes and collects the text written.  Prompts
are written, but what is read is not echoed.

**Lines.**  A line reaches up to and including the next newline byte, or to the end of the bytes.
It has to be UTF-8; its carriage returns and newlines at the end do not belong to its text.  A line
that is not UTF-8 is a failure, and is consumed nevertheless.

**Results.**
* `append_of_takeLine`: a line and what follows it are all the bytes.
* `length_takeLine_lt`, `length_readTextLine_lt`: reading a line consumes something, unless there is
  nothing left.
-/

namespace IntegerBasic

/-- The byte that ends a line. -/
def newlineByte : UInt8 :=
  10

/-- The bytes of the first line with the newline that ends it, and the bytes after it. -/
def takeLine : List UInt8 → List UInt8 × List UInt8
  | [] => ([], [])
  | b :: bs =>
      if b = newlineByte then ([b], bs)
      else ((b :: (takeLine bs).1), (takeLine bs).2)

/-- The text without the carriage returns and newlines at its end. -/
def dropLineEnd (s : String) : String :=
  String.ofList (s.toList.reverse.dropWhile fun c => c == '\n' || c == '\r').reverse

/-- What it means to read bytes that are not UTF-8. -/
def decodingFailure : String :=
  "stream did not contain valid UTF-8"

/-- The text of the first line of the bytes, if there is one, and the bytes after it. -/
def readTextLine (bytes : List UInt8) : Except String (Option String) × List UInt8 :=
  match bytes with
  | [] => (.ok none, [])
  | _ =>
      let (line, rest) := takeLine bytes
      match String.fromUTF8? ⟨line.toArray⟩ with
      | some s => (.ok (some (dropLineEnd s)), rest)
      | none => (.error decodingFailure, rest)

/-- A line and what follows it are all the bytes. -/
theorem append_of_takeLine
    (bytes : List UInt8) :
    (takeLine bytes).1 ++ (takeLine bytes).2 = bytes := by
  induction bytes with
  | nil => rfl
  | cons b bs ih =>
      by_cases h : b = newlineByte
      · simp [takeLine, h]
      · simp [takeLine, h, ih]

/-- Reading a line consumes something, unless there is nothing left. -/
theorem length_takeLine_lt
    {bytes : List UInt8} (h : bytes ≠ []) :
    (takeLine bytes).2.length < bytes.length := by
  cases bytes with
  | nil => contradiction
  | cons b bs =>
      have hAll := congrArg List.length (append_of_takeLine bs)
      rw [List.length_append] at hAll
      by_cases hb : b = newlineByte
      · simp [takeLine, hb]
      · simp only [takeLine, if_neg hb, List.length_cons]
        omega

/-- Reading a line of text leaves fewer bytes, unless there are none. -/
theorem length_readTextLine_lt
    {bytes : List UInt8}
    (h : bytes ≠ []) :
    (readTextLine bytes).2.length < bytes.length := by
  have hRest : (readTextLine bytes).2 = (takeLine bytes).2 := by
    cases bytes with
    | nil => contradiction
    | cons b bs =>
        simp only [readTextLine]
        cases String.fromUTF8? ⟨(takeLine (b :: bs)).1.toArray⟩ <;> rfl
  rw [hRest]
  exact length_takeLine_lt h

/-- The bytes not yet read and the text written so far. -/
structure Pipe where
  input : List UInt8
  output : String
deriving DecidableEq

namespace Pipe

/-- Writes a line. -/
def printLine (line : String) (p : Pipe) : Pipe :=
  { p with output := p.output ++ line ++ "\n" }

/-- Reads a line without a prompt. -/
def nextLine (p : Pipe) : Except String (Option String) × Pipe :=
  let (answer, rest) := readTextLine p.input
  (answer, { p with input := rest })

instance : Console Pipe where
  printLine line p := (.ok (), p.printLine line)
  readLine prompt p := { p with output := p.output ++ prompt }.nextLine

end Pipe
end IntegerBasic
