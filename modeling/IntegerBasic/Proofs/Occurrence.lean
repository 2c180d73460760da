import IntegerBasic.Text.Blank
import IntegerBasic.Text.Search

/-!
# Where words occur in a text that is put together

The text of a statement is put together from parts with separators between them.  A word without
the separator in it occurs in one of the parts or nowhere.  For this reason the cuts that the
parser makes fall on the places that the printer meant.

**Results.**
* `infix_append_cons_iff`: a word does not reach across a separator.
* `cutAt?_append`, `cutAt?_append_cons`: the cut at a word of the statement itself.
* `cutWhere?_append_cons`: the cut at a character.
-/

namespace IntegerBasic
namespace Text

section Separators

variable {w a b : List Char} {c : Char}

theorem prefix_append_cons_iff
    (hc : c ∉ w) :
    w <+: a ++ c :: b ↔ w <+: a := by
  constructor
  · rintro ⟨rest, hRest⟩
    rcases List.append_eq_append_iff.mp hRest with ⟨middle, hMiddle, _⟩ | ⟨middle, hMiddle, hTail⟩
    · exact ⟨middle, hMiddle.symm⟩
    · cases middle with
      | nil => exact ⟨[], by simpa using hMiddle⟩
      | cons d ds =>
          -- the word would contain the separator
          obtain ⟨rfl, _⟩ := List.cons.inj hTail
          exact absurd (by simp [hMiddle]) hc
  · intro h
    exact h.trans (List.prefix_append a (c :: b))

/-- A word does not reach across a separator. -/
theorem infix_append_cons_iff
    (hc : c ∉ w) :
    w <:+: a ++ c :: b ↔ w <:+: a ∨ w <:+: b := by
  induction a with
  | nil =>
      rw [List.nil_append, List.infix_cons_iff]
      cases w with
      | nil => simp
      | cons d ds =>
          have hNot : ¬ d :: ds <+: c :: b := by
            rw [List.cons_prefix_cons]
            rintro ⟨rfl, _⟩
            exact hc List.mem_cons_self
          simp [hNot]
  | cons d a ih =>
      have hHere : w <+: d :: a ++ c :: b ↔ w <+: d :: a := prefix_append_cons_iff hc
      rw [List.cons_append] at hHere
      rw [List.cons_append, List.infix_cons_iff, List.infix_cons_iff, ih, hHere, or_assoc]

theorem infix_cons_iff_of_notMem
    (hc : c ∉ w) :
    w <:+: c :: b ↔ w <:+: b := by
  have h : w <:+: [] ++ c :: b ↔ w <:+: [] ∨ w <:+: b := infix_append_cons_iff hc
  rw [List.nil_append, List.infix_nil] at h
  rw [h, or_iff_right_iff_imp]
  rintro rfl
  exact List.nil_infix

theorem infix_append_iff_of_head
    (hHead : ∀ c ∈ b.head?, c ∉ w) :
    w <:+: a ++ b ↔ w <:+: a ∨ w <:+: b := by
  cases b with
  | nil =>
      rw [List.append_nil, List.infix_nil, iff_self_or]
      rintro rfl
      exact List.nil_infix
  | cons c b =>
      have hc : c ∉ w := hHead c rfl
      rw [infix_append_cons_iff hc, infix_cons_iff_of_notMem hc]

/-- A text that starts with the word is cut there. -/
theorem cutAt?_append
    (w b : List Char) :
    cutAt? w (w ++ b) = some ([], b) := by
  cases h : w ++ b with
  | nil =>
      obtain ⟨rfl, rfl⟩ := List.append_eq_nil_iff.mp h
      rfl
  | cons c cs =>
      have hHere : w.isPrefixOf (c :: cs) = true :=
        List.isPrefixOf_iff_prefix.mpr ⟨b, h⟩
      rw [cutAt?, if_pos hHere, ← h, List.drop_left]

/-- A text is cut at the word behind a separator, if the word does not occur earlier. -/
theorem cutAt?_append_cons
    (hc : c ∉ w) (hWord : w ≠ []) (hNot : ¬ w <:+: a) :
    cutAt? w (a ++ c :: (w ++ b)) = some (a ++ [c], b) := by
  induction a with
  | nil =>
      have hHere : ¬ w <+: [] ++ c :: (w ++ b) := by
        rw [prefix_append_cons_iff hc, List.prefix_nil]
        exact hWord
      rw [List.nil_append] at hHere
      rw [List.nil_append, cutAt?, if_neg (by rwa [List.isPrefixOf_iff_prefix]), cutAt?_append]
      rfl
  | cons d a ih =>
      rw [List.infix_cons_iff, not_or] at hNot
      have hHere : ¬ w <+: d :: a ++ c :: (w ++ b) := by
        rw [prefix_append_cons_iff hc]
        exact hNot.1
      rw [List.cons_append] at hHere
      rw [List.cons_append, cutAt?, if_neg (by rwa [List.isPrefixOf_iff_prefix]), ih hNot.2]
      rfl

/-- A text is cut at the first character that has a value. -/
theorem cutWhere?_append_cons
    {β : Type} {f : Char → Option β} {v : β}
    (hBefore : ∀ d ∈ a, f d = none) (hValue : f c = some v) :
    cutWhere? f (a ++ c :: b) = some (a, v, b) := by
  induction a with
  | nil => simp [cutWhere?, hValue]
  | cons d a ih =>
      rw [List.forall_mem_cons] at hBefore
      simp [cutWhere?, hBefore.1, ih hBefore.2]

end Separators

end Text
end IntegerBasic
