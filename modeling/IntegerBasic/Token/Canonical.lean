import IntegerBasic.Token.Lexer

/-!
# Canonical token lists

**Definitions.**  A list of tokens is canonical when each token is well formed and no two
neighbours would run together when written side by side: `Token.WellFormed` and `Token.Apart` say
so without mention of the lexer.  `shownChars` is the text that a list of tokens is shown as.

**Results.**
* `shownChars_lex`: the tokens of a text are shown as the text, with spaces for its tabs.
* `wellFormed_start`, `WellFormed.extend?`: the lexer keeps the token under construction well
  formed.
-/

namespace IntegerBasic
namespace Token

/-- The token has at least one character, and all its characters are of its class. -/
def WellFormed : Token → Prop
  | unknown text => text ≠ "" ∧ ∀ c ∈ text.toList, isUnknownChar c = true
  | blank width => 0 < width
  | literal digits => digits ≠ "" ∧ ∀ c ∈ digits.toList, c.isDigit = true
  | ident name =>
      ∃ c cs, name.toList = c :: cs ∧ c.isAlpha = true ∧ ∀ d ∈ cs, isNameChar d = true
  | operator _ | leftParen | rightParen => True

/-- The first token does not run into the second when they are written side by side. -/
def Apart : Token → Token → Prop
  | unknown _, unknown _ | blank _, blank _ | literal _, literal _ | ident _, ident _
  | ident _, literal _ => False
  | ident _, unknown text => text.toList.head? ≠ some '_'
  | _, _ => True

/-- Every token is well formed and stands apart from the next one. -/
def Canonical : List Token → Prop
  | [] => True
  | [t] => t.WellFormed
  | t :: u :: ts => t.WellFormed ∧ t.Apart u ∧ Canonical (u :: ts)

/-- The text that a list of tokens is shown as. -/
def shownChars (ts : List Token) : List Char :=
  ts.flatMap chars

/-- The tokens of a text are shown as the text, apart from its blanks. -/
theorem shownChars_lex
    (cs : List Char) :
    shownChars (lex cs) = cs.map shownAs :=
  flatMap_chars_lex cs

theorem push_ne_empty
    (s : String) (c : Char) :
    s.push c ≠ "" := by
  intro h
  have := congrArg String.length h
  simp at this

theorem wellFormed_of_ofChar?
    {c : Char} {t : Token}
    (h : ofChar? c = some t) :
    t.WellFormed := by
  unfold ofChar? at h
  split at h <;> simp_all <;> subst h <;> trivial

/-- The token that a character starts is well formed. -/
theorem wellFormed_start
    (c : Char) :
    (start c).WellFormed := by
  rcases start_cases c with
    ⟨_, hStart⟩ | ⟨hDigit, hStart⟩ | ⟨hAlpha, hStart⟩ | hOwn | ⟨hUnknown, hStart⟩
  · rw [hStart]
    exact Nat.one_pos
  · simp [hStart, WellFormed, hDigit, String.ext_iff]
  · rw [hStart]
    exact ⟨c, [], by simp, hAlpha, by simp⟩
  · exact wellFormed_of_ofChar? hOwn
  · simp [hStart, WellFormed, hUnknown, String.ext_iff]

/-- One more character of its class keeps a token well formed. -/
theorem WellFormed.extend?
    {t t' : Token} {c : Char}
    (hWell : t.WellFormed)
    (h : t.extend? c = some t') :
    t'.WellFormed := by
  cases t <;> simp only [Token.extend?, reduceCtorEq, Option.ite_none_right_eq_some,
    Option.some_inj] at h <;> obtain ⟨hc, rfl⟩ := h
  case unknown text =>
    refine ⟨push_ne_empty _ c, ?_⟩
    intro d hd
    rw [String.toList_push, List.mem_append, List.mem_singleton] at hd
    exact hd.elim (hWell.2 d) fun hEq => hEq ▸ hc
  case blank width => exact Nat.succ_pos width
  case literal digits =>
    refine ⟨push_ne_empty _ c, ?_⟩
    intro d hd
    rw [String.toList_push, List.mem_append, List.mem_singleton] at hd
    exact hd.elim (hWell.2 d) fun hEq => hEq ▸ hc
  case ident name =>
    obtain ⟨d, ds, hName, hAlpha, hRest⟩ := hWell
    refine ⟨d, ds ++ [c], by simp [hName], hAlpha, ?_⟩
    intro x hx
    rw [List.mem_append, List.mem_singleton] at hx
    exact hx.elim (hRest x) fun hEq => hEq ▸ hc

end Token
end IntegerBasic
