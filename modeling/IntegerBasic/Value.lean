import IntegerBasic.Error

/-!
# Values and checked arithmetic

**Definitions.**  A `Value` is an integer of 32 bits with a sign; that it is in range is part of
the type.  Arithmetic is exact arithmetic on the integers followed by one question: does the
result fit?  `BinaryOp.onInt?` is the exact result, undefined only for a division by zero;
`BinaryOp.apply` and `Value.negate` check the range.  `Comparison` holds the three relations that
a program can test.

**Results.**
* `Value.ofInt?_eq_some_iff`: exactly the integers in range are values.
* `Value.ofInt?_toInt`: a value is read back from its integer.
-/

namespace IntegerBasic

/-- The integers that 32 bits with a sign can hold. -/
def InRange (i : Int) : Prop :=
  -2147483648 ≤ i ∧ i ≤ 2147483647

instance (i : Int) : Decidable (InRange i) :=
  inferInstanceAs (Decidable (_ ∧ _))

/-- An integer of 32 bits with a sign. -/
structure Value where
  toInt : Int
  inRange : InRange toInt
deriving DecidableEq

namespace Value

/-- The value of an integer, if it is in range. -/
def ofInt? (i : Int) : Option Value :=
  if h : InRange i then some ⟨i, h⟩ else none

/-- Exactly the integers in range are values. -/
theorem ofInt?_eq_some_iff
    {i : Int} {v : Value} :
    ofInt? i = some v ↔ v.toInt = i := by
  constructor
  · intro h
    rw [ofInt?] at h
    split at h
    · rw [← Option.some_inj.mp h]
    · contradiction
  · rintro rfl
    simp [ofInt?, v.inRange]

@[simp] theorem ofInt?_toInt
    (v : Value) :
    ofInt? v.toInt = some v :=
  ofInt?_eq_some_iff.mpr rfl

theorem ofInt?_eq_none_iff
    {i : Int} :
    ofInt? i = none ↔ ¬ InRange i := by
  rw [ofInt?]
  split <;> simp_all

/-- The text of a value: its decimal digits, after a minus sign if it is negative. -/
def render (v : Value) : String :=
  toString v.toInt

/-- The result of an operation, if it is in range. -/
def checked (i : Int) : Except Error Value :=
  match ofInt? i with
  | some v => .ok v
  | none => .error (.of .overflow)

/-- The value with the other sign. -/
def negate (v : Value) : Except Error Value :=
  checked (-v.toInt)

end Value

/-- The operations with two operands. -/
inductive BinaryOp where
  | add
  | subtract
  | multiply
  | divide
deriving DecidableEq

namespace BinaryOp

/-- The exact result, where division drops the fraction and has none for the divisor zero. -/
def onInt? : BinaryOp → Int → Int → Option Int
  | add, a, b => some (a + b)
  | subtract, a, b => some (a - b)
  | multiply, a, b => some (a * b)
  | divide, a, b => if b = 0 then none else some (a.tdiv b)

/-- The exact result as a value: without a result it is a division by zero, out of range it
overflows. -/
def apply (op : BinaryOp) (a b : Value) : Except Error Value :=
  match op.onInt? a.toInt b.toInt with
  | some i => Value.checked i
  | none => .error (.of .divisionByZero)

end BinaryOp

/-- The relations between two values that a program can test. -/
inductive Comparison where
  | equal
  | less
  | greater
deriving DecidableEq

namespace Comparison

/-- The relation that a character stands for. -/
def ofChar? : Char → Option Comparison
  | '=' => some equal
  | '<' => some less
  | '>' => some greater
  | _ => none

/-- The character that stands for a relation. -/
def toChar : Comparison → Char
  | equal => '='
  | less => '<'
  | greater => '>'

/-- Whether the relation holds between two values. -/
def holds (c : Comparison) (a b : Value) : Bool :=
  match c with
  | equal => decide (a.toInt = b.toInt)
  | less => decide (a.toInt < b.toInt)
  | greater => decide (b.toInt < a.toInt)

theorem ofChar?_eq_some_iff
    {ch : Char} {c : Comparison} :
    ofChar? ch = some c ↔ ch = c.toChar := by
  constructor
  · intro h
    unfold ofChar? at h
    split at h <;> simp_all [toChar] <;> subst h <;> rfl
  · rintro rfl
    cases c <;> rfl

end Comparison
end IntegerBasic
