import IntegerBasic.Machine
import IntegerBasic.Proofs.Outcome

/-!
# Computations that may crash

Some things must never happen: a text must not be cut off the boundaries of its characters, and a
tag must not be put on an error that has one of its kind already.  Here they are given an outcome
of their own, so that it can be shown that they do not happen.

**Definitions.**  A `Failure` is an error, which is reported, or a `Crash`, from which nothing
recovers.  Tags are put on failures by `inLine`, `inColumn` and `withMessage`, which crash where
they would overwrite; `blame` leaves columns alone that are already there.  `Guarded.safe` and
`Guarded.lift` turn computations that know of errors only into ones that could crash.

**Results.**
* `inLine_error`, `inColumn_error`, `blame_error`: tags on errors.
* `safe_bind`, `lift_bind`: a sequence of computations that do not crash does not crash.
* `mapError_inLine_safe`, `mapError_inColumn_safe`: tags on what a computation reports.
-/

namespace IntegerBasic

/-- What nothing recovers from: a text that is cut at byte offsets where it cannot be cut, or an
error that is given a tag of a kind that it has. -/
inductive Crash where
  | cut (text : String) (start stop : Nat)
  | retag (e : Error)
deriving DecidableEq

/-- Why a computation did not succeed. -/
inductive Failure where
  | error (e : Error)
  | crash (c : Crash)
deriving DecidableEq

namespace Failure

/-- Puts a tag on an error, which has to be free for it. -/
def tag (isFree : Error → Bool) (put : Error → Error) : Failure → Failure
  | error e => if isFree e then error (put e) else crash (.retag e)
  | crash c => crash c

/-- The failure, known to have happened while the given line was stored or running. -/
def inLine (line : LineNumber) : Failure → Failure :=
  tag (fun e => e.line.isNone) (Error.inLine line)

/-- The failure, known to be about the given characters of its statement. -/
def inColumn (column : Column) : Failure → Failure :=
  tag (fun e => e.column.isNone) (Error.inColumn column)

/-- The failure with an explanation. -/
def withMessage (message : String) : Failure → Failure :=
  tag (fun e => e.message.isEmpty) (Error.withMessage message)

/-- The failure, which is about the given characters if it is not yet known what it is about. -/
def blame (column : Column) : Failure → Failure
  | error e => if e.column.isNone then inColumn column (error e) else error e
  | crash c => crash c

/-- A failure of which only the cause is known. -/
def of (code : ErrorCode) : Failure :=
  error (Error.of code)

/-- The failure of a console, which is described by a text. -/
def ofConsole (reason : String) : Failure :=
  (of .internalError).withMessage reason

theorem inLine_error
    {e : Error}
    (h : e.line = none) (line : LineNumber) :
    inLine line (error e) = error (e.inLine line) := by
  simp [inLine, tag, h]

theorem inColumn_error
    {e : Error}
    (h : e.column = none) (column : Column) :
    inColumn column (error e) = error (e.inColumn column) := by
  simp [inColumn, tag, h]

/-- An error that has a tag must not be given another of its kind. -/
theorem tag_of_taken
    {e : Error} {isFree : Error → Bool}
    (h : isFree e = false) (put : Error → Error) :
    tag isFree put (error e) = crash (.retag e) := by
  simp [tag, h]

/-- A column that is already there is left alone. -/
theorem blame_error
    {e : Error} {c : Column}
    (h : e.column = some c) (column : Column) :
    blame column (error e) = error e := by
  simp [blame, h]

end Failure

/-- The fault as a failure that is about no particular token. -/
def SyntaxFault.failure (fault : SyntaxFault) : Failure :=
  (Failure.of .syntaxError).withMessage fault.text

/-- The fault as a failure that is about the characters of one token. -/
def SyntaxFault.failureIn (fault : SyntaxFault) (column : Column) : Failure :=
  ((Failure.of .syntaxError).inColumn column).withMessage fault.text

/-- A computation that may fail or crash. -/
abbrev Guarded (α : Type) : Type :=
  Except Failure α

namespace Guarded

variable {s α β : Type}

/-- The outcome of a computation that does not crash. -/
def safe (x : Except Error α) : Guarded α :=
  x.mapError Failure.error

theorem ok_bind
    (a : α) (f : α → Guarded β) :
    (Except.ok a >>= f) = f a := by
  rfl

/-- What comes after a step that does not crash. -/
theorem safe_bind
    (x : Except Error α) (f : α → Except Error β) :
    safe (x >>= f) = safe x >>= fun a => safe (f a) := by
  cases x <;> rfl

theorem safe_map
    (f : α → β) (x : Except Error α) :
    (safe x).map f = safe (x.map f) := by
  cases x <;> rfl

theorem eq_ok_of_safe
    {x : Except Error α} {a : α}
    (h : safe x = .ok a) :
    x = .ok a := by
  cases x with
  | ok b =>
      cases h
      rfl
  | error e => cases h

theorem exists_error_of_safe
    {x : Except Error α} {failure : Failure}
    (h : safe x = .error failure) :
    ∃ e, x = .error e ∧ failure = .error e := by
  cases x with
  | ok b => cases h
  | error e =>
      cases h
      exact ⟨e, rfl, rfl⟩

theorem safe_ne_crash
    (x : Except Error α) (c : Crash) :
    safe x ≠ .error (.crash c) := by
  cases x with
  | ok a => nofun
  | error e =>
      intro h
      cases h

theorem mapError_inColumn_safe
    {x : Except Error α}
    (h : ∀ e, x = .error e → e.column = none) (c : Column) :
    (safe x).mapError (Failure.inColumn c) = safe (x.mapError (Error.inColumn c)) := by
  cases x with
  | ok a => rfl
  | error e => exact congrArg Except.error (Failure.inColumn_error (h e rfl) c)

theorem mapError_inLine_safe
    {x : Except Error α}
    (h : ∀ e, x = .error e → e.line = none) (n : LineNumber) :
    (safe x).mapError (Failure.inLine n) = safe (x.mapError (Error.inLine n)) := by
  cases x with
  | ok a => rfl
  | error e => exact congrArg Except.error (Failure.inLine_error (h e rfl) n)

/-- A computation on the variables that may fail or crash. -/
abbrev Evaluation (α : Type) : Type :=
  ExceptT Failure (StateM Variables) α

/-- A computation on a state that may fail or crash, or be without outcome. -/
abbrev Activity (s α : Type) : Type :=
  ExceptT Failure (StateT s Option) α

/-- A computation of a monad that knows of errors only. -/
def lift {m : Type → Type} [Monad m] (x : ExceptT Error m α) : ExceptT Failure m α :=
  x.adapt Failure.error

section Lift

variable {m : Type → Type} [Monad m] [LawfulMonad m]

theorem lift_pure
    (a : α) :
    lift (pure a : ExceptT Error m α) = pure a := by
  apply ExceptT.ext
  rw [lift, ExceptT.run_adapt]
  exact map_pure _ _

/-- An outcome that is known is lifted as it is. -/
theorem lift_liftM
    (x : Except Error α) :
    lift (liftM x : ExceptT Error m α) = liftM (safe x) := by
  apply ExceptT.ext
  rw [lift, ExceptT.run_adapt]
  exact map_pure _ _

theorem lift_bind
    (x : ExceptT Error m α) (f : α → ExceptT Error m β) :
    lift (x >>= f) = lift x >>= fun a => lift (f a) := by
  apply ExceptT.ext
  rw [lift, ExceptT.run_adapt, ExceptT.run_bind, ExceptT.run_bind, lift, ExceptT.run_adapt,
    map_bind, bind_map_left]
  refine bind_congr fun r => ?_
  cases r with
  | ok a => exact (ExceptT.run_adapt _ _).symm
  | error e => exact map_pure _ _

end Lift

end Guarded
end IntegerBasic
