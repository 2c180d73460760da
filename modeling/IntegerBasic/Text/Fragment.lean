import IntegerBasic.Text.Blank
import IntegerBasic.Text.Search

/-!
# Fragments: pieces of a text that know where they stand

A statement is parsed clause by clause, and every column in a tree or an error counts characters
from the start of the whole statement.  A `Fragment` is a piece of a text together with the number
of characters in front of it.

**Operations.**  `trim`, `cutAt?` and `cutWhere?` make smaller fragments from larger ones.

**Results.**  `Within f text` says that the fragment stands in the text at its offset.  Each
operation stays within: `Within.trim`, `Within.of_cutAt?`, `Within.of_cutWhere?`.
-/

namespace IntegerBasic

/-- A piece of a text and the number of characters in front of it. -/
structure Fragment where
  offset : Nat
  chars : List Char
deriving DecidableEq

namespace Fragment

/-- The fragment that is the whole of a text. -/
def whole (text : List Char) : Fragment :=
  ⟨0, text⟩

/-- The fragment without the white space at its ends. -/
def trim (f : Fragment) : Fragment :=
  ⟨f.offset + (f.chars.takeWhile Text.isWhiteSpace).length, Text.trim f.chars⟩

/-- The fragments before and after the first occurrence of a word. -/
def cutAt? (word : List Char) (f : Fragment) : Option (Fragment × Fragment) :=
  (Text.cutAt? word f.chars).map fun (before, after) =>
    (⟨f.offset, before⟩, ⟨f.offset + before.length + word.length, after⟩)

/-- The fragments before and after the first character on which `p` has a value, with the value. -/
def cutWhere? {β : Type} (p : Char → Option β) (f : Fragment) :
    Option (Fragment × β × Fragment) :=
  (Text.cutWhere? p f.chars).map fun (before, b, after) =>
    (⟨f.offset, before⟩, b, ⟨f.offset + before.length + 1, after⟩)

/-- The fragment is the part of the text that starts at its offset. -/
def Within (f : Fragment) (text : List Char) : Prop :=
  ∃ before after, text = before ++ f.chars ++ after ∧ before.length = f.offset

theorem within_whole
    (text : List Char) :
    (whole text).Within text :=
  ⟨[], [], by simp [whole], rfl⟩

theorem Within.trim
    {f : Fragment} {text : List Char}
    (h : f.Within text) :
    f.trim.Within text := by
  obtain ⟨before, after, rfl, hOffset⟩ := h
  have hStart := Text.eq_takeWhile_append_trimStart f.chars
  have hEnd := Text.eq_trimEnd_append (Text.trimStart f.chars)
  refine ⟨before ++ f.chars.takeWhile Text.isWhiteSpace,
    ((Text.trimStart f.chars).reverse.takeWhile Text.isWhiteSpace).reverse ++ after, ?_, ?_⟩
  · calc before ++ f.chars ++ after
        = before ++ (f.chars.takeWhile Text.isWhiteSpace ++ Text.trimStart f.chars) ++ after := by
          rw [← hStart]
      _ = before ++ (f.chars.takeWhile Text.isWhiteSpace ++ (Text.trimEnd (Text.trimStart f.chars) ++
            ((Text.trimStart f.chars).reverse.takeWhile Text.isWhiteSpace).reverse)) ++ after := by
          rw [← hEnd]
      _ = _ := by simp [Fragment.trim, Text.trim]
  · simp [Fragment.trim, hOffset]

/-- A space in front of a solid text is one character. -/
theorem trim_space_cons
    {text : List Char}
    (h : Text.Solid text) (offset : Nat) :
    trim ⟨offset, ' ' :: text⟩ = ⟨offset + 1, text⟩ := by
  have hTrim : Text.trim (' ' :: text) = text := Text.trim_space h
  have hSpace : Text.isWhiteSpace ' ' = true := rfl
  obtain ⟨⟨c, hHead, hSolid⟩, _⟩ := h
  obtain ⟨rest, rfl⟩ := List.head?_eq_some_iff.mp hHead
  simp [trim, hTrim, hSpace, hSolid]

theorem Within.of_cutAt?
    {f before after : Fragment} {word text : List Char}
    (h : f.Within text)
    (hCut : f.cutAt? word = some (before, after)) :
    before.Within text ∧ after.Within text := by
  obtain ⟨left, right, rfl, hOffset⟩ := h
  rw [Fragment.cutAt?, Option.map_eq_some_iff] at hCut
  obtain ⟨⟨b, a⟩, hText, hPair⟩ := hCut
  rw [Prod.mk.injEq] at hPair
  obtain ⟨rfl, rfl⟩ := hPair
  have hChars := Text.eq_append_of_cutAt? hText
  refine ⟨⟨left, word ++ a ++ right, ?_, hOffset⟩, ⟨left ++ b ++ word, right, ?_, ?_⟩⟩
  · simp [hChars]
  · simp [hChars]
  · simp [hOffset, Nat.add_assoc]

theorem Within.of_cutWhere?
    {β : Type} {p : Char → Option β} {f before after : Fragment} {b : β} {text : List Char}
    (h : f.Within text)
    (hCut : f.cutWhere? p = some (before, b, after)) :
    before.Within text ∧ after.Within text := by
  obtain ⟨left, right, rfl, hOffset⟩ := h
  rw [Fragment.cutWhere?, Option.map_eq_some_iff] at hCut
  obtain ⟨⟨l, b', r⟩, hText, hPair⟩ := hCut
  simp only [Prod.mk.injEq] at hPair
  obtain ⟨rfl, rfl, rfl⟩ := hPair
  obtain ⟨c, -, hChars⟩ := Text.eq_append_of_cutWhere? hText
  refine ⟨⟨left, c :: r ++ right, ?_, hOffset⟩, ⟨left ++ l ++ [c], right, ?_, ?_⟩⟩
  · simp [hChars]
  · simp [hChars]
  · simp [hOffset, Nat.add_assoc]

end Fragment
end IntegerBasic
