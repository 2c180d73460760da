import IntegerBasic.Text.Fragment

/-!
# Keywords

**Input.**  The text of a statement.

**Rule.**  A statement is recognised by the first keyword, in the order of `Keyword.all`, that
occurs anywhere in its text, whether as a word or inside one.  `IF` counts only where `THEN`
occurs as well.  What follows the first occurrence of the keyword is the clause that the keyword
governs; what stands before it means nothing.

**Results.**
* `within_of_classify?`: the clause is a part of the text.
* `clause?_eq_none_iff`: a keyword is recognised exactly when it occurs.
-/

namespace IntegerBasic

/-- The words that statements are recognised by. -/
inductive Keyword where
  | remark
  | assign
  | print
  | input
  | stop
  | jump
  | branch
deriving DecidableEq

namespace Keyword

/-- The spelling of a keyword. -/
def word : Keyword → List Char
  | remark => ['R', 'E', 'M']
  | assign => ['L', 'E', 'T']
  | print => ['P', 'R', 'I', 'N', 'T']
  | input => ['I', 'N', 'P', 'U', 'T']
  | stop => ['E', 'N', 'D']
  | jump => ['G', 'O', 'T', 'O']
  | branch => ['I', 'F']

/-- The word between the condition and the target of a branch. -/
def thenWord : List Char :=
  ['T', 'H', 'E', 'N']

/-- The order in which a text is searched for keywords. -/
def all : List Keyword :=
  [remark, assign, print, input, stop, jump, branch]

/-- A text is searched for every keyword. -/
theorem mem_all
    (k : Keyword) :
    k ∈ all := by
  cases k <;> decide

/-- The clause that a keyword governs in a text, if it is recognised there. -/
def clause? (k : Keyword) (text : Fragment) : Option Fragment :=
  if k = branch ∧ ¬ Text.occursIn thenWord text.chars then none
  else (text.cutAt? k.word).map Prod.snd

/-- The keyword that a text is recognised by, and its clause. -/
def classify? (text : Fragment) : Option (Keyword × Fragment) :=
  all.findSome? fun k => (k.clause? text).map fun clause => (k, clause)

theorem within_of_clause?
    {k : Keyword} {f clause : Fragment} {text : List Char}
    (hWithin : f.Within text)
    (h : k.clause? f = some clause) :
    clause.Within text := by
  rw [clause?] at h
  split at h
  · contradiction
  · rw [Option.map_eq_some_iff] at h
    obtain ⟨⟨before, after⟩, hCut, rfl⟩ := h
    exact (hWithin.of_cutAt? hCut).2

/-- The clause is a part of the text. -/
theorem within_of_classify?
    {k : Keyword} {f clause : Fragment} {text : List Char}
    (hWithin : f.Within text)
    (h : classify? f = some (k, clause)) :
    clause.Within text := by
  obtain ⟨k', -, hMap⟩ := List.exists_of_findSome?_eq_some h
  rw [Option.map_eq_some_iff] at hMap
  obtain ⟨clause', hClause, hPair⟩ := hMap
  rw [Prod.mk.injEq] at hPair
  obtain ⟨rfl, rfl⟩ := hPair
  exact within_of_clause? hWithin hClause

/-- A keyword is recognised in a text when it occurs, with `THEN` in the case of `IF`. -/
theorem clause?_eq_none_iff
    {k : Keyword} {f : Fragment} :
    k.clause? f = none ↔
      ¬ (k.word <:+: f.chars ∧ (k = branch → thenWord <:+: f.chars)) := by
  rw [clause?]
  split
  · next h =>
      rw [Text.occursIn_iff] at h
      simp [h.1, h.2]
  · next h =>
      rw [Text.occursIn_iff] at h
      rw [Option.map_eq_none_iff, Fragment.cutAt?, Option.map_eq_none_iff,
        Text.cutAt?_eq_none_iff]
      constructor
      · intro hNone hBoth
        exact hNone hBoth.1
      · intro hNone hWord
        refine hNone ⟨hWord, fun hIf => ?_⟩
        exact Classical.byContradiction fun hNot => h ⟨hIf, hNot⟩

end Keyword
end IntegerBasic
