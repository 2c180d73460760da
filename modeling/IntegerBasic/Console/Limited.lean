import IntegerBasic.Console

/-!
# Consoles that wear out

`Limited σ` is the console `σ` of which only so many lines can be printed and only so many read.
Once a limit is used up, every further use of that kind fails and leaves the console as it is.
-/

namespace IntegerBasic

/-- A console and how often it can still be used; `none` stands for no limit. -/
structure Limited (σ : Type) where
  console : σ
  printsLeft : Option Nat
  readsLeft : Option Nat

namespace Limited

variable {σ : Type}

/-- A console that does not wear out. -/
def unlimited (console : σ) : Limited σ :=
  ⟨console, none, none⟩

/-- One use of a budget: `none` if it is used up, else what is left of it. -/
def spend? : Option Nat → Option (Option Nat)
  | none => some none
  | some 0 => none
  | some (n + 1) => some (some n)

/-- The failure of a console that can print no more. -/
def printFailure : String :=
  "print failed"

/-- The failure of a console that can read no more. -/
def readFailure : String :=
  "read failed"

instance [Console σ] : Console (Limited σ) where
  printLine line l :=
    match spend? l.printsLeft with
    | none => (.error printFailure, l)
    | some left =>
        let (result, console) := Console.printLine line l.console
        (result, { l with console := console, printsLeft := left })
  readLine prompt l :=
    match spend? l.readsLeft with
    | none => (.error readFailure, l)
    | some left =>
        let (answer, console) := Console.readLine prompt l.console
        (answer, { l with console := console, readsLeft := left })

end Limited
end IntegerBasic
