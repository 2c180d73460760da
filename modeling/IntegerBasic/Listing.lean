import IntegerBasic.Statement

/-!
# Listings

**Definitions.**  A `Listing` holds the lines of a program in strictly ascending order of their
numbers.  `get?` is the view through which the operations are described.

**Results.**
* `get?_insert`, `get?_remove`, `get?_empty`: what is stored after each operation.
* `next?_eq_some_iff`: the next line is the least stored number above the given one.
* `first?_eq_some_iff`: the first line is the least stored number.
-/

namespace IntegerBasic

/-- The lines of a program, in strictly ascending order. -/
structure Listing where
  lines : List (LineNumber × Statement)
  ascending : lines.Pairwise fun a b => a.1 < b.1
deriving DecidableEq

namespace Listing

/-- No line is stored. -/
def empty : Listing :=
  ⟨[], List.Pairwise.nil⟩

/-- The statement stored at a number. -/
def get? (l : Listing) (n : LineNumber) : Option Statement :=
  (l.lines.find? fun line => line.1 == n).map Prod.snd

/-- Whether a number is stored. -/
def contains (l : Listing) (n : LineNumber) : Bool :=
  (l.get? n).isSome

/-- How many lines are stored. -/
def size (l : Listing) : Nat :=
  l.lines.length

/-- The lowest number stored. -/
def first? (l : Listing) : Option LineNumber :=
  l.lines.head?.map Prod.fst

/-- The lowest number stored above the given one. -/
def next? (l : Listing) (n : LineNumber) : Option LineNumber :=
  (l.lines.find? fun line => decide (n < line.1)).map Prod.fst

/-- Stores a statement at a number, in the place of what was stored there. -/
def insert (l : Listing) (n : LineNumber) (s : Statement) : Listing :=
  ⟨l.lines.filter (fun line => decide (line.1 < n)) ++
      (n, s) :: l.lines.filter (fun line => decide (n < line.1)), by
    rw [List.pairwise_append, List.pairwise_cons]
    refine ⟨l.ascending.filter _, ⟨?_, l.ascending.filter _⟩, ?_⟩
    · intro b hb
      simpa using (List.mem_filter.mp hb).2
    · intro a ha b hb
      have ha : a.1 < n := by simpa using (List.mem_filter.mp ha).2
      cases hb with
      | head => exact ha
      | tail _ hb =>
          have hb : n < b.1 := by simpa using (List.mem_filter.mp hb).2
          exact Nat.lt_trans ha hb⟩

/-- Removes what is stored at a number. -/
def remove (l : Listing) (n : LineNumber) : Listing :=
  ⟨l.lines.filter fun line => line.1 != n, l.ascending.filter _⟩

@[simp] theorem get?_empty
    (n : LineNumber) :
    empty.get? n = none := by
  rfl

theorem find?_eq_some_iff_mem
    {lines : List (LineNumber × Statement)} {n : LineNumber} {s : Statement}
    (hAscending : lines.Pairwise fun a b => a.1 < b.1) :
    (lines.find? fun line => line.1 == n).map Prod.snd = some s ↔ (n, s) ∈ lines := by
  induction lines with
  | nil => simp
  | cons line rest ih =>
      obtain ⟨m, t⟩ := line
      rw [List.pairwise_cons] at hAscending
      by_cases h : m = n
      · subst h
        have hRest : (m, s) ∉ rest := fun hMem => Nat.lt_irrefl m (hAscending.1 _ hMem)
        simp [hRest, eq_comm]
      · have h' : ¬ n = m := fun hEq => h hEq.symm
        simp [h, h', ih hAscending.2]

/-- The statement stored at a number is the one in its line. -/
theorem get?_eq_some_iff
    {l : Listing} {n : LineNumber} {s : Statement} :
    l.get? n = some s ↔ (n, s) ∈ l.lines :=
  find?_eq_some_iff_mem l.ascending

/-- A number is stored when some line has it. -/
theorem contains_iff
    {l : Listing} {n : LineNumber} :
    l.contains n = true ↔ ∃ s, (n, s) ∈ l.lines := by
  rw [contains, Option.isSome_iff_exists]
  exact exists_congr fun s => get?_eq_some_iff

/-- What is stored after a line was stored. -/
theorem get?_insert
    (l : Listing) (n m : LineNumber) (s : Statement) :
    (l.insert n s).get? m = if m = n then some s else l.get? m := by
  apply Option.ext
  intro t
  rw [get?_eq_some_iff]
  by_cases h : m = n
  · subst h
    simp [insert, eq_comm]
  · simp only [insert, List.mem_append, List.mem_filter, List.mem_cons, Prod.mk.injEq, h,
      false_and, false_or, if_false, decide_eq_true_eq, get?_eq_some_iff]
    rw [← and_or_left]
    have hLt : m < n ∨ n < m := Nat.lt_or_gt_of_ne h
    simp [hLt]

/-- What is stored after a line was removed. -/
theorem get?_remove
    (l : Listing) (n m : LineNumber) :
    (l.remove n).get? m = if m = n then none else l.get? m := by
  apply Option.ext
  intro t
  rw [get?_eq_some_iff]
  by_cases h : m = n
  · simp [remove, h]
  · simp [remove, h, get?_eq_some_iff]

/-- The next line is the least number stored above the given one. -/
theorem next?_eq_some_iff
    {l : Listing} {n m : LineNumber} :
    l.next? n = some m ↔
      l.contains m = true ∧ n < m ∧ ∀ k, l.contains k = true → n < k → m ≤ k := by
  obtain ⟨lines, hAscending⟩ := l
  simp only [contains_iff, next?]
  induction lines with
  | nil => simp
  | cons line rest ih =>
      obtain ⟨j, s⟩ := line
      rw [List.pairwise_cons] at hAscending
      by_cases h : n < j
      · simp only [List.find?_cons, h, decide_true, Option.map_some, Option.some_inj]
        constructor
        · rintro rfl
          refine ⟨⟨s, List.mem_cons_self⟩, h, ?_⟩
          rintro k ⟨t, ht⟩ -
          cases ht with
          | head => exact Nat.le_refl _
          | tail _ ht => exact Nat.le_of_lt (hAscending.1 _ ht)
        · rintro ⟨⟨t, ht⟩, hn, hLeast⟩
          have hle := hLeast j ⟨s, List.mem_cons_self⟩ h
          cases ht with
          | head => rfl
          | tail _ ht => exact absurd (hAscending.1 _ ht) (Nat.not_lt.mpr hle)
      · have hne : ∀ k, n < k → ∀ t, (k, t) ≠ (j, s) := by
          intro k hk t hEq
          rw [Prod.mk.injEq] at hEq
          exact h (hEq.1 ▸ hk)
        simp only [List.find?_cons, h, decide_false, ih hAscending.2, List.mem_cons]
        constructor
        · rintro ⟨⟨t, ht⟩, hn, hLeast⟩
          refine ⟨⟨t, Or.inr ht⟩, hn, ?_⟩
          rintro k ⟨u, hu⟩ hk
          exact hLeast k ⟨u, hu.resolve_left (hne k hk u)⟩ hk
        · rintro ⟨⟨t, ht⟩, hn, hLeast⟩
          refine ⟨⟨t, ht.resolve_left (hne m hn t)⟩, hn, ?_⟩
          rintro k ⟨u, hu⟩ hk
          exact hLeast k ⟨u, Or.inr hu⟩ hk

/-- The first line is the least number stored. -/
theorem first?_eq_some_iff
    {l : Listing} {m : LineNumber} :
    l.first? = some m ↔ l.contains m = true ∧ ∀ k, l.contains k = true → m ≤ k := by
  obtain ⟨lines, hAscending⟩ := l
  simp only [contains_iff, first?]
  cases lines with
  | nil => simp
  | cons line rest =>
      obtain ⟨j, s⟩ := line
      rw [List.pairwise_cons] at hAscending
      simp only [List.head?_cons, Option.map_some, Option.some_inj]
      constructor
      · rintro rfl
        refine ⟨⟨s, List.mem_cons_self⟩, ?_⟩
        rintro k ⟨t, ht⟩
        cases ht with
        | head => exact Nat.le_refl _
        | tail _ ht => exact Nat.le_of_lt (hAscending.1 _ ht)
      · rintro ⟨⟨t, ht⟩, hLeast⟩
        have hle := hLeast j ⟨s, List.mem_cons_self⟩
        cases ht with
        | head => rfl
        | tail _ ht => exact absurd (hAscending.1 _ ht) (Nat.not_lt.mpr hle)

end Listing
end IntegerBasic
