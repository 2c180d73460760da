/-!
# Consoles

A program talks to the world through a console: it can print a line, and it can show a prompt and
read a line.  Either may fail, with a text that says why.  A console is a value, and each use
gives the console as it is afterwards, so that what was printed and read can be seen in it.
-/

namespace IntegerBasic

/-- What a program needs of a console whose states are the values of `σ`. -/
class Console (σ : Type) where
  /-- Prints a line. -/
  printLine : String → σ → Except String Unit × σ
  /-- Shows a prompt and reads a line; there is none once the input has ended. -/
  readLine : String → σ → Except String (Option String) × σ

end IntegerBasic
