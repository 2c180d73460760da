import IntegerBasic.Proofs.ProgramPath
import Mathlib.Order.Bounds.Basic

/-!
# Listings that differ in one line

A running program asks its listing for the statement at a number, for the first line and for the
next one above a number.  Here these answers are compared for two listings that agree except at one
number.

**Definitions.**  `AgreesExcept n l l'` says that the listings have the same lines but for `n`.
`IsLowest` says that a number is the lowest one stored among those with some property; the first
line and the next one are of this kind.  `Ahead l n c c'` compares two cursors: they are the same,
or `c'` is at `n` and `c` at the next line of `l` behind it.

**Results.**
* `IsLowest.unique`, `IsLowest.of_subset`: a lowest number is determined, and stays the lowest one
  when other numbers are removed.
* `IsLowest.of_agreesExcept`: changing or removing a line changes no answer but itself.
* `ahead_of_isLowest`: storing a new line changes an answer at most to the number of the new line.
-/

namespace IntegerBasic
namespace Listing

/-- The listings have the same lines, except perhaps at `n`. -/
def AgreesExcept (n : LineNumber) (l l' : Listing) : Prop :=
  ∀ k, k ≠ n → l'.get? k = l.get? k

theorem agreesExcept_insert
    (l : Listing) (n : LineNumber) (s : Statement) :
    AgreesExcept n l (l.insert n s) := by
  intro k hk
  rw [get?_insert, if_neg hk]

theorem agreesExcept_remove
    (l : Listing) (n : LineNumber) :
    AgreesExcept n l (l.remove n) := by
  intro k hk
  rw [get?_remove, if_neg hk]

theorem AgreesExcept.contains_eq
    {n k : LineNumber} {l l' : Listing}
    (h : AgreesExcept n l l') (hk : k ≠ n) :
    l'.contains k = l.contains k := by
  rw [contains, contains, h k hk]

theorem AgreesExcept.symm
    {n : LineNumber} {l l' : Listing}
    (h : AgreesExcept n l l') :
    AgreesExcept n l' l :=
  fun k hk => (h k hk).symm

theorem contains_insert_self
    (l : Listing) (n : LineNumber) (s : Statement) :
    (l.insert n s).contains n = true := by
  rw [contains, get?_insert, if_pos rfl]
  rfl

/-- The number is the lowest one stored that satisfies `p`; there is none if no stored number
does. -/
def IsLowest (l : Listing) (p : LineNumber → Prop) : Option LineNumber → Prop
  | none => ∀ k, l.contains k = true → ¬ p k
  | some n => IsLeast {k | l.contains k = true ∧ p k} n

/-- The first line is the lowest one of all. -/
theorem IsFirst.isLowest
    {l : Listing} {c : Option LineNumber}
    (h : l.IsFirst c) :
    l.IsLowest (fun _ => True) c := by
  cases c with
  | none =>
      intro k hk
      rw [h k] at hk
      contradiction
  | some n => exact ⟨⟨h.1, trivial⟩, fun k hk => h.2 k hk.1⟩

theorem isLowest_first?
    (l : Listing) :
    l.IsLowest (fun _ => True) l.first? :=
  l.isFirst_first?.isLowest

/-- The next line is the lowest one above the given number. -/
theorem IsNext.isLowest
    {l : Listing} {n : LineNumber} {c : Option LineNumber}
    (h : l.IsNext n c) :
    l.IsLowest (fun k => n < k) c := by
  cases c with
  | none => exact fun k hk => Nat.not_lt.mpr (h k hk)
  | some m => exact ⟨⟨h.1, h.2.1⟩, fun k hk => h.2.2 k hk.1 hk.2⟩

theorem isLowest_next?
    (l : Listing) (n : LineNumber) :
    l.IsLowest (fun k => n < k) (l.next? n) :=
  (l.isNext_next? n).isLowest

namespace IsLowest

variable {l l' : Listing} {p q : LineNumber → Prop} {c c' : Option LineNumber}

theorem unique
    (h : l.IsLowest p c) (h' : l.IsLowest p c') :
    c = c' := by
  cases c with
  | none =>
      cases c' with
      | none => rfl
      | some m => exact absurd h'.1.2 (h m h'.1.1)
  | some n =>
      cases c' with
      | none => exact absurd h.1.2 (h' n h.1.1)
      | some m => rw [IsLeast.unique h h']

theorem congr
    (h : l.IsLowest p c) (hSame : ∀ k, l.contains k = true → (p k ↔ q k)) :
    l.IsLowest q c := by
  cases c with
  | none => exact fun k hk hq => h k hk ((hSame k hk).mpr hq)
  | some n =>
      refine ⟨⟨h.1.1, (hSame n h.1.1).mp h.1.2⟩, ?_⟩
      rintro k ⟨hk, hq⟩
      exact h.2 ⟨hk, (hSame k hk).mpr hq⟩

/-- A number stays the lowest one when others are removed. -/
theorem of_subset
    (h : l.IsLowest p c) (hSubset : ∀ k, l'.contains k = true → l.contains k = true)
    (hKept : ∀ n, c = some n → l'.contains n = true) :
    l'.IsLowest p c := by
  cases c with
  | none => exact fun k hk => h k (hSubset k hk)
  | some n =>
      refine ⟨⟨hKept n rfl, h.1.2⟩, ?_⟩
      rintro k ⟨hk, hp⟩
      exact h.2 ⟨hSubset k hk, hp⟩

theorem contains
    {n : LineNumber}
    (h : l.IsLowest p (some n)) :
    l.contains n = true :=
  h.1.1

/-- Changing or removing a stored line changes no answer but the line itself. -/
theorem of_agreesExcept
    {n : LineNumber}
    (hAgrees : AgreesExcept n l l') (hStored : l.contains n = true)
    (h : l.IsLowest p c) (hOther : c ≠ some n) :
    l'.IsLowest p c := by
  apply h.of_subset
  · intro k hk
    by_cases hEq : k = n
    · rwa [hEq]
    · rwa [← hAgrees.contains_eq hEq]
  · rintro k rfl
    have hNe : k ≠ n := fun hEq => hOther (congrArg some hEq)
    rw [hAgrees.contains_eq hNe]
    exact h.contains

end IsLowest

section Change

variable {l l' : Listing} {n : LineNumber}

theorem next?_of_agreesExcept
    (hAgrees : AgreesExcept n l l') (hStored : l.contains n = true) {k : LineNumber}
    (hOther : l.next? k ≠ some n) :
    l'.next? k = l.next? k :=
  (l'.isLowest_next? k).unique ((l.isLowest_next? k).of_agreesExcept hAgrees hStored hOther)

theorem first?_of_agreesExcept
    (hAgrees : AgreesExcept n l l') (hStored : l.contains n = true)
    (hOther : l.first? ≠ some n) :
    l'.first? = l.first? :=
  l'.isLowest_first?.unique (l.isLowest_first?.of_agreesExcept hAgrees hStored hOther)

/-- The cursors are the same, or `c'` is at `n` and `c` at the next line behind it. -/
def Ahead (l : Listing) (n : LineNumber) (c c' : Option LineNumber) : Prop :=
  (c ≠ some n ∧ c' = c) ∨ (c = l.next? n ∧ c' = some n)

variable {s : Statement} {p : LineNumber → Prop} {c c' : Option LineNumber}

theorem contains_of_insert
    {k : LineNumber}
    (hk : l.contains k = true) :
    (l.insert n s).contains k = true := by
  by_cases hEq : k = n
  · rw [hEq]
    exact l.contains_insert_self n s
  · rwa [(l.agreesExcept_insert n s).contains_eq hEq]

/-- A new line can only come in front of a lowest number, if a property that higher numbers keep is
asked for. -/
theorem ahead_of_isLowest
    (hFree : l.contains n = false) (hUpward : ∀ j k, j < k → p j → p k)
    (h : l.IsLowest p c) (h' : (l.insert n s).IsLowest p c') :
    l.Ahead n c c' := by
  by_cases hNew : c' = some n
  · subst hNew
    refine Or.inr ⟨?_, rfl⟩
    have hSame : ∀ k, l.contains k = true → (p k ↔ n < k) := by
      intro k hk
      constructor
      · intro hp
        have hNe : n ≠ k := by
          rintro rfl
          rw [hFree] at hk
          contradiction
        exact Nat.lt_of_le_of_ne (h'.2 ⟨contains_of_insert hk, hp⟩) hNe
      · intro hLt
        exact hUpward n k hLt h'.1.2
    exact (h.congr hSame).unique (l.isLowest_next? n)
  · refine Or.inl ?_
    have hKept : ∀ k, c' = some k → l.contains k = true := by
      rintro k rfl
      have hNe : k ≠ n := fun hEq => hNew (congrArg some hEq)
      rw [← (l.agreesExcept_insert n s).contains_eq hNe]
      exact h'.contains
    have hOld : l.IsLowest p c' := h'.of_subset (fun k => contains_of_insert) hKept
    rw [hOld.unique h] at hNew
    exact ⟨hNew, hOld.unique h⟩

theorem ahead_first?
    (hFree : l.contains n = false) (s : Statement) :
    l.Ahead n l.first? (l.insert n s).first? :=
  ahead_of_isLowest hFree (fun _ _ _ h => h) l.isLowest_first? (isLowest_first? _)

theorem ahead_next?
    (hFree : l.contains n = false) (s : Statement) (k : LineNumber) :
    l.Ahead n (l.next? k) ((l.insert n s).next? k) :=
  ahead_of_isLowest hFree (fun _ _ hLt h => Nat.lt_trans h hLt) (l.isLowest_next? k)
    (isLowest_next? _ k)

theorem next?_ne_self
    (l : Listing) (n : LineNumber) :
    l.next? n ≠ some n :=
  fun h => Nat.lt_irrefl n (next?_eq_some_iff.mp h).2.1

/-- Behind the new line the listings go on alike. -/
theorem next?_insert_self
    (hFree : l.contains n = false) (s : Statement) :
    (l.insert n s).next? n = l.next? n := by
  rcases ahead_next? hFree s n with ⟨_, hSame⟩ | ⟨_, hNew⟩
  · exact hSame
  · exact absurd hNew (next?_ne_self _ n)

end Change

end Listing
end IntegerBasic
