/-!
# Cutting a text at a word

**Definitions.**  `cutAt? word text` finds the first place where `word` stands in `text` and gives
the text before it and the text after it; `cutWhere? f text` does the same for the first character
on which `f` is defined.

**Results.**
* `occursIn_iff`: to occur in a text is to be a part of it.
* `eq_append_of_cutAt?` and `eq_append_of_cutWhere?`: the pieces, put together again, are the text.
* `cutAt?_eq_none_iff`: there is no cut exactly when the word stands nowhere in the text.
* `none_before_of_cutWhere?`: the cut is the first one possible.
-/

namespace IntegerBasic
namespace Text

/-- The text before and the text after the first occurrence of a word. -/
def cutAt? (word : List Char) : List Char → Option (List Char × List Char)
  | [] => if word = [] then some ([], []) else none
  | c :: cs =>
      if word.isPrefixOf (c :: cs) then
        some ([], (c :: cs).drop word.length)
      else
        (cutAt? word cs).map fun cut => (c :: cut.1, cut.2)

/-- The text before and the text after the first character on which `f` has a value, and the
value. -/
def cutWhere? {β : Type} (f : Char → Option β) :
    List Char → Option (List Char × β × List Char)
  | [] => none
  | c :: cs =>
      match f c with
      | some b => some ([], b, cs)
      | none => (cutWhere? f cs).map fun cut => (c :: cut.1, cut.2)

/-- A word occurs in a text when the text can be cut at it. -/
def occursIn (word text : List Char) : Bool :=
  (cutAt? word text).isSome

theorem eq_append_of_cutAt?
    {word text before after : List Char}
    (h : cutAt? word text = some (before, after)) :
    text = before ++ word ++ after := by
  induction text generalizing before with
  | nil =>
      by_cases hWord : word = []
      · simp_all [cutAt?]
      · simp [cutAt?, hWord] at h
  | cons c cs ih =>
      by_cases hHere : word.isPrefixOf (c :: cs) = true
      · rw [cutAt?, if_pos hHere, Option.some_inj, Prod.mk.injEq] at h
        obtain ⟨rfl, rfl⟩ := h
        have hHere := List.isPrefixOf_iff_prefix.mp hHere
        simpa using (List.prefix_iff_eq_append.mp hHere).symm
      · rw [cutAt?, if_neg hHere, Option.map_eq_some_iff] at h
        obtain ⟨⟨before, after⟩, hRest, hPair⟩ := h
        rw [Prod.mk.injEq] at hPair
        obtain ⟨rfl, rfl⟩ := hPair
        simp [ih hRest]

/-- A text has no cut at a word exactly when the word is no part of it. -/
theorem cutAt?_eq_none_iff
    {word text : List Char} :
    cutAt? word text = none ↔ ¬ word <:+: text := by
  induction text with
  | nil => by_cases hWord : word = [] <;> simp [cutAt?, hWord]
  | cons c cs ih =>
      rw [List.infix_cons_iff]
      by_cases hHere : word.isPrefixOf (c :: cs) = true
      · simp [cutAt?, hHere, List.isPrefixOf_iff_prefix.mp hHere]
      · have hNot : ¬ word <+: c :: cs := fun hp => hHere (List.isPrefixOf_iff_prefix.mpr hp)
        simp [cutAt?, hHere, hNot, ih]

/-- A word occurs in a text when it is a part of it. -/
theorem occursIn_iff
    {word text : List Char} :
    occursIn word text = true ↔ word <:+: text := by
  have h : cutAt? word text = none ↔ ¬ word <:+: text := cutAt?_eq_none_iff
  rw [occursIn]
  cases hCut : cutAt? word text with
  | none => simp [h.mp hCut]
  | some cut =>
      have hNot : ¬ ¬ word <:+: text := fun hInfix => by simp [h.mpr hInfix] at hCut
      simp [Classical.not_not.mp hNot]

theorem eq_append_of_cutWhere?
    {β : Type} {f : Char → Option β} {text before after : List Char} {b : β}
    (h : cutWhere? f text = some (before, b, after)) :
    ∃ c, f c = some b ∧ text = before ++ c :: after := by
  induction text generalizing before with
  | nil => simp [cutWhere?] at h
  | cons c cs ih =>
      cases hc : f c with
      | some b' =>
          simp only [cutWhere?, hc, Option.some_inj, Prod.mk.injEq] at h
          obtain ⟨rfl, rfl, rfl⟩ := h
          exact ⟨c, hc, rfl⟩
      | none =>
          simp only [cutWhere?, hc, Option.map_eq_some_iff, Prod.exists, Prod.mk.injEq] at h
          obtain ⟨before, b', after', hRest, rfl, rfl, rfl⟩ := h
          obtain ⟨d, hd, rfl⟩ := ih hRest
          exact ⟨d, hd, rfl⟩

/-- Before the cut, no character has a value. -/
theorem none_before_of_cutWhere?
    {β : Type} {f : Char → Option β} {text before after : List Char} {b : β}
    (h : cutWhere? f text = some (before, b, after)) :
    ∀ c ∈ before, f c = none := by
  induction text generalizing before with
  | nil => simp [cutWhere?] at h
  | cons c cs ih =>
      cases hc : f c with
      | some b' =>
          simp only [cutWhere?, hc, Option.some_inj, Prod.mk.injEq] at h
          simp [← h.1]
      | none =>
          simp only [cutWhere?, hc, Option.map_eq_some_iff, Prod.exists, Prod.mk.injEq] at h
          obtain ⟨before, b', after', hRest, rfl, rfl, rfl⟩ := h
          simpa [hc] using ih hRest

end Text
end IntegerBasic
