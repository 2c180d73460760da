import IntegerBasic.Expr

/-!
# Variables

**Definitions.**  `Variables` holds the names that are defined, each with one value, in the order
in which they were first assigned.  `get?` is the view through which everything else sees it.

**Results.**
* `get?_set_self`, `get?_set_of_ne`: an assignment is seen by its own name and by no other.
-/

namespace IntegerBasic

/-- The defined variables, each name once. -/
structure Variables where
  entries : List (Name × Value)
  nodup : (entries.map Prod.fst).Nodup
deriving DecidableEq

namespace Variables

/-- No variable is defined. -/
def empty : Variables :=
  ⟨[], List.nodup_nil⟩

/-- Replaces the value of a name where it stands, or adds the name at the end. -/
def put (x : Name) (v : Value) : List (Name × Value) → List (Name × Value)
  | [] => [(x, v)]
  | (y, w) :: rest => if y = x then (x, v) :: rest else (y, w) :: put x v rest

theorem fst_put
    (x : Name) (v : Value) (entries : List (Name × Value)) :
    (put x v entries).map Prod.fst =
      if x ∈ entries.map Prod.fst then entries.map Prod.fst
      else entries.map Prod.fst ++ [x] := by
  induction entries with
  | nil => simp [put]
  | cons entry rest ih =>
      obtain ⟨y, w⟩ := entry
      by_cases h : y = x
      · simp [put, h]
      · have h' : ¬ x = y := fun hEq => h hEq.symm
        simp only [put, if_neg h, List.map_cons, ih, List.mem_cons, h', false_or]
        split <;> simp

/-- Assigns a value to a name. -/
def set (vars : Variables) (x : Name) (v : Value) : Variables :=
  ⟨put x v vars.entries, by
    rw [fst_put]
    split
    · exact vars.nodup
    · next h =>
        rw [List.nodup_append]
        refine ⟨vars.nodup, by simp, ?_⟩
        intro y hy z hz
        rw [List.mem_singleton.mp hz]
        rintro rfl
        exact h hy⟩

/-- The value of a name, if it is defined. -/
def get? (vars : Variables) (x : Name) : Option Value :=
  (vars.entries.find? fun entry => entry.1 == x).map Prod.snd

/-- Whether a name is defined. -/
def contains (vars : Variables) (x : Name) : Bool :=
  (vars.get? x).isSome

/-- How many names are defined. -/
def size (vars : Variables) : Nat :=
  vars.entries.length

/-- The value of a name, which has to be defined. -/
def fetch (vars : Variables) (x : Name) : Except Error Value :=
  match vars.get? x with
  | some v => .ok v
  | none => .error (.of .undefinedVariable)

theorem find?_put
    (x y : Name) (v : Value) (entries : List (Name × Value)) :
    ((put x v entries).find? fun entry => entry.1 == y).map Prod.snd =
      if y = x then some v else (entries.find? fun entry => entry.1 == y).map Prod.snd := by
  induction entries with
  | nil =>
      by_cases h : y = x
      · simp [put, h]
      · have h' : ¬ x = y := fun hEq => h hEq.symm
        simp [put, h, h']
  | cons entry rest ih =>
      obtain ⟨z, w⟩ := entry
      by_cases hz : z = x
      · by_cases h : y = x
        · simp [put, hz, h]
        · have h' : ¬ x = y := fun hEq => h hEq.symm
          simp [put, hz, h, h']
      · by_cases hzy : z = y
        · have h : ¬ y = x := fun hEq => hz (hzy.trans hEq)
          simp [put, hzy, h]
        · simpa [put, hz, List.find?_cons, hzy] using ih

/-- What is defined after an assignment. -/
theorem get?_set
    (vars : Variables) (x y : Name) (v : Value) :
    (vars.set x v).get? y = if y = x then some v else vars.get? y :=
  find?_put x y v vars.entries

/-- An assignment is seen by its own name. -/
@[simp] theorem get?_set_self
    (vars : Variables) (x : Name) (v : Value) :
    (vars.set x v).get? x = some v := by
  simp [get?_set]

/-- An assignment is seen by no other name. -/
theorem get?_set_of_ne
    (vars : Variables) {x y : Name} (v : Value)
    (h : y ≠ x) :
    (vars.set x v).get? y = vars.get? y := by
  simp [get?_set, h]

end Variables
end IntegerBasic
