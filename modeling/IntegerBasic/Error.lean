/-!
# Errors

**Input.**  Whatever goes wrong, from a stray token to a console that cannot be written to, is one
of nine causes, together with the places that are known: the program line, the columns within the
statement, and a free message.

**Definitions.**  `ErrorCode` holds the causes with their texts and numbers.  An `Error` is built
from a cause and tagged from the inside out: first with a message or a column where the fault is
found, last with the line number by whoever knows which line was running.  `Error.render` is the
text shown to the user.  `SyntaxFault` lists what can be wrong with a statement's text.
-/

namespace IntegerBasic

/-- Lines of a program are numbered. -/
abbrev LineNumber := Nat

/-- A half-open range of character positions within a statement. -/
structure Column where
  start : Nat
  stop : Nat
deriving DecidableEq

/-- The causes of failure. -/
inductive ErrorCode where
  | syntaxError
  | overflow
  | lineNumberError
  | divisionByZero
  | illegalDirect
  | undefinedVariable
  | lineNotFound
  | internalError
  | inputPastEnd
deriving DecidableEq

namespace ErrorCode

/-- The text that an error message starts with. -/
def text : ErrorCode → String
  | syntaxError => "SYNTAX ERROR"
  | overflow => "OVERFLOW"
  | lineNumberError => "LINE NUMBER ERROR"
  | divisionByZero => "DIVISION BY ZERO"
  | illegalDirect => "ILLEGAL DIRECT"
  | undefinedVariable => "VARIABLE NOT DEFINED"
  | lineNotFound => "LINE DOES NOT EXIST"
  | internalError => "INTERNAL ERROR"
  | inputPastEnd => "INPUT PAST END"

/-- The traditional number of the error. -/
def number : ErrorCode → Nat
  | syntaxError => 2
  | overflow => 6
  | lineNumberError => 8
  | divisionByZero => 11
  | illegalDirect => 12
  | undefinedVariable => 31
  | lineNotFound => 32
  | internalError => 51
  | inputPastEnd => 62

end ErrorCode

/-- A cause and what is known about where and why it arose. -/
structure Error where
  code : ErrorCode
  line : Option LineNumber
  column : Option Column
  message : String
deriving DecidableEq

namespace Error

/-- An error of which only the cause is known. -/
def of (code : ErrorCode) : Error :=
  ⟨code, none, none, ""⟩

/-- The error, known to have happened while the given line was stored or running. -/
def inLine (line : LineNumber) (e : Error) : Error :=
  { e with line := some line }

/-- The error, known to be about the given characters of its statement. -/
def inColumn (column : Column) (e : Error) : Error :=
  { e with column := some column }

/-- The error with an explanation. -/
def withMessage (message : String) (e : Error) : Error :=
  { e with message := message }

/-- The failure of a console, which is described by a text. -/
def ofConsole (failure : String) : Error :=
  (of .internalError).withMessage failure

/-- An error without a line number arose outside the stored program. -/
def isDirect (e : Error) : Bool :=
  e.line.isNone

/-- The line number, after a space. -/
def lineText : Option LineNumber → String
  | none => ""
  | some n => " " ++ toString n

/-- The columns in parentheses, after a space. -/
def columnText : Option Column → String
  | none => ""
  | some c => " (" ++ toString c.start ++ ".." ++ toString c.stop ++ ")"

/-- Where the error is: nothing if no place is known, else `IN`, the line and the columns. -/
def placeText (line : Option LineNumber) (column : Option Column) : String :=
  if line.isNone && column.isNone then "" else " IN" ++ lineText line ++ columnText column

/-- The explanation after a semicolon, if there is one. -/
def messageText (message : String) : String :=
  if message.isEmpty then "" else "; " ++ message

/-- The text shown to the user: the cause, the place and the explanation. -/
def render (e : Error) : String :=
  e.code.text ++ placeText e.line e.column ++ messageText e.message

end Error

/-- What can be wrong with the text of a line. -/
inductive SyntaxFault where
  | expectedExpression
  | expectedVariable
  | expectedRightParenthesis
  | unexpectedToken
  | numberTooLarge
  | unrecognizedStatement
  | expectedAssignment
  | expectedLineNumber
  | expectedThen
  | noComparison
  | multipleComparisons
  | invalidLineNumber
deriving DecidableEq

namespace SyntaxFault

/-- The explanation given with a syntax error. -/
def text : SyntaxFault → String
  | expectedExpression => "EXPECTED EXPRESSION"
  | expectedVariable => "EXPECTED VARIABLE"
  | expectedRightParenthesis => "EXPECTED RIGHT PARENTHESIS"
  | unexpectedToken => "UNEXPECTED TOKEN"
  | numberTooLarge => "NUMBER TOO LARGE"
  | unrecognizedStatement => "UNRECOGNIZED STATEMENT"
  | expectedAssignment => "EXPECTED ASSIGNMENT"
  | expectedLineNumber => "EXPECTED LINE NUMBER"
  | expectedThen => "EXPECTED THEN"
  | noComparison => "NO COMPARISON OPERATOR FOUND"
  | multipleComparisons => "MULTIPLE COMPARISON OPERATORS FOUND"
  | invalidLineNumber => "INVALID LINE NUMBER"

/-- The fault as an error about no particular token. -/
def error (fault : SyntaxFault) : Error :=
  (Error.of .syntaxError).withMessage fault.text

/-- The fault as an error about the characters of one token. -/
def errorIn (fault : SyntaxFault) (column : Column) : Error :=
  fault.error.inColumn column

end SyntaxFault
end IntegerBasic
