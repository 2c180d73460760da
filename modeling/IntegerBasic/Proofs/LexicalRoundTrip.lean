import IntegerBasic.Proofs.Separation
import IntegerBasic.Proofs.TokenPlaces
import Mathlib.Algebra.Ring.Nat

/-!
# Texts and canonical token lists

A text and its tokens determine each other, except that a tab is shown as a space.

**Argument.**  A character that does not extend the token under construction starts a token that
stands apart from it (`apart_start`), and it still does when that token has grown, because it has
kept its class and its first character.  The other way round, the first character of a token that
stands apart from the one before it does not extend that one (`extend?_of_apart`), so each token is
ended where it should be.

**Results.**
* `canonical_lex`: the tokens of a text are canonical.
* `lex_shownChars`: a canonical list is read back from the text that it is shown as.
* `lex_lossless`: both, for all texts and all lists of tokens.
-/

namespace IntegerBasic
namespace Token

/-- Of the tokens, all that stood apart from the first also stand apart from the second. -/
def KeepsApart (t u : Token) : Prop :=
  ∀ s : Token, s.Apart t → s.Apart u

/-- A token that has grown has kept its class and its first character. -/
theorem keepsApart_of_extend?
    {t t' : Token} {c : Char}
    (hWell : t.WellFormed) (h : t.extend? c = some t') :
    t.KeepsApart t' := by
  intro s hApart
  cases t <;> simp only [extend?, reduceCtorEq, Option.ite_none_right_eq_some,
    Option.some_inj] at h <;> obtain ⟨-, rfl⟩ := h
  case unknown text =>
    obtain ⟨hNotEmpty, _⟩ := hWell
    cases hText : text.toList with
    | nil => exact absurd (String.toList_eq_nil_iff.mp hText) hNotEmpty
    | cons d ds => cases s <;> simp_all [Apart]
  case blank | literal | ident => cases s <;> exact hApart

/-- The token under construction becomes the first of the tokens. -/
theorem exists_lexFrom_eq_cons
    {t : Token}
    (hWell : t.WellFormed) (cs : List Char) :
    ∃ u us, lexFrom t cs = u :: us ∧ t.KeepsApart u := by
  induction cs generalizing t with
  | nil => exact ⟨t, [], rfl, fun _ => id⟩
  | cons c cs ih =>
      cases hExtend : t.extend? c with
      | none => exact ⟨t, lexFrom (start c) cs, by simp only [lexFrom, hExtend], fun _ => id⟩
      | some t' =>
          obtain ⟨u, us, hLex, hKeeps⟩ := ih (hWell.extend? hExtend)
          refine ⟨u, us, by simp only [lexFrom, hExtend, hLex], fun s hApart => ?_⟩
          exact hKeeps s (keepsApart_of_extend? hWell hExtend s hApart)

theorem apart_of_ofChar?
    {u : Token} {c : Char}
    (h : ofChar? c = some u) (t : Token) :
    t.Apart u := by
  unfold ofChar? at h
  split at h <;> cases h <;> cases t <;> trivial

/-- A character that does not extend a token starts one that stands apart from it. -/
theorem apart_start
    {t : Token} {c : Char}
    (h : t.extend? c = none) :
    t.Apart (start c) := by
  rcases start_cases c with
    ⟨hBlank, hStart⟩ | ⟨hDigit, hStart⟩ | ⟨hAlpha, hStart⟩ | hOwn | ⟨hUnknown, hStart⟩
  · rw [hStart]
    cases t <;> simp_all [Apart, extend?]
  · have hName := isNameChar_of_isDigit hDigit
    rw [hStart]
    cases t <;> simp_all [Apart, extend?]
  · have hName := isNameChar_of_isAlpha hAlpha
    rw [hStart]
    cases t <;> simp_all [Apart, extend?]
  · exact apart_of_ofChar? hOwn t
  · rw [hStart]
    cases t with
    | ident name =>
        rintro hHead
        rw [String.toList_singleton, List.head?_cons, Option.some_inj] at hHead
        subst hHead
        cases h
    | _ => simp_all [Apart, extend?]

theorem canonical_lexFrom
    {t : Token}
    (hWell : t.WellFormed) (cs : List Char) :
    Canonical (lexFrom t cs) := by
  induction cs generalizing t with
  | nil => exact hWell
  | cons c cs ih =>
      cases hExtend : t.extend? c with
      | some t' =>
          rw [lexFrom, hExtend]
          exact ih (hWell.extend? hExtend)
      | none =>
          have hRest := ih (wellFormed_start c)
          obtain ⟨u, us, hLex, hKeeps⟩ := exists_lexFrom_eq_cons (wellFormed_start c) cs
          simp only [lexFrom, hExtend]
          rw [hLex] at hRest ⊢
          exact ⟨hWell, hKeeps t (apart_start hExtend), hRest⟩

theorem chars_ne_nil
    {t : Token}
    (h : t.WellFormed) :
    t.chars ≠ [] := by
  cases t with
  | unknown text | literal text => exact fun hNil => h.1 (String.toList_eq_nil_iff.mp hNil)
  | blank width => exact fun hNil => Nat.ne_of_gt h (List.replicate_eq_nil_iff _ |>.mp hNil)
  | ident name =>
      obtain ⟨c, cs, hName, _⟩ := h
      rw [chars, hName]
      exact List.cons_ne_nil c cs
  | operator | leftParen | rightParen => exact List.cons_ne_nil _ []

/-- The first character of a token that stands apart does not extend the token before it. -/
theorem extend?_of_apart
    {t u : Token} {c : Char} {cs : List Char}
    (hWell : u.WellFormed) (hChars : u.chars = c :: cs) (h : t.Apart u) :
    t.extend? c = none := by
  have hMem : c ∈ u.chars := by
    rw [hChars]
    exact List.mem_cons_self
  cases u with
  | unknown text =>
      have hUnknown : isUnknownChar c = true := hWell.2 c hMem
      cases t with
      | ident name =>
          have hHead : c ≠ '_' := by
            rintro rfl
            exact h (by rw [show text.toList = '_' :: cs from hChars, List.head?_cons])
          simp_all [extend?, isNameChar, isUnknownChar]
      | _ => simp_all [extend?, isUnknownChar, Apart]
  | blank width =>
      have hBlank : isBlankChar c = true := by
        rw [List.eq_of_mem_replicate hMem]
        rfl
      rcases extend?_of_isBlankChar hBlank t with ⟨n, rfl, _⟩ | hNone
      · exact h.elim
      · exact hNone
  | literal digits =>
      have hDigit : c.isDigit = true := hWell.2 c hMem
      have hBlank := isBlankChar_of_isNameChar (isNameChar_of_isDigit hDigit)
      cases t <;> simp_all [extend?, isUnknownChar, Apart]
  | ident name =>
      have hAlpha : c.isAlpha = true := by
        obtain ⟨d, ds, hName, hAlpha, _⟩ := hWell
        rw [chars, hName, List.cons.injEq] at hChars
        exact hChars.1 ▸ hAlpha
      have hDigit := isDigit_of_isAlpha hAlpha
      have hBlank := isBlankChar_of_isNameChar (isNameChar_of_isAlpha hAlpha)
      cases t <;> simp_all [extend?, isUnknownChar, Apart]
  | operator op =>
      rw [List.eq_of_mem_singleton hMem]
      exact extend?_of_ofChar? (ofChar?_toChar op) t
  | leftParen =>
      rw [List.eq_of_mem_singleton hMem]
      exact extend?_of_ofChar? rfl t
  | rightParen =>
      rw [List.eq_of_mem_singleton hMem]
      exact extend?_of_ofChar? rfl t

/-- What follows a token and stands apart from it does not extend it. -/
theorem lexFrom_of_apart
    {t u : Token}
    (hWell : u.WellFormed) (h : t.Apart u) (rest : List Char) :
    lexFrom t (u.chars ++ rest) = t :: lex (u.chars ++ rest) := by
  cases hChars : u.chars with
  | nil => exact absurd hChars (chars_ne_nil hWell)
  | cons c cs =>
      have hExtend := extend?_of_apart hWell hChars h
      simp only [List.cons_append, lexFrom, hExtend, lex]

end Token

open Token (Canonical shownChars)

/-- The tokens of a text are canonical. -/
theorem canonical_lex
    (cs : List Char) :
    Canonical (lex cs) := by
  cases cs with
  | nil => trivial
  | cons c cs => exact Token.canonical_lexFrom (Token.wellFormed_start c) cs

/-- A canonical list is read back from the text that it is shown as. -/
theorem lex_shownChars
    {ts : List Token}
    (h : Canonical ts) :
    lex (shownChars ts) = ts := by
  induction ts with
  | nil => rfl
  | cons t ts ih =>
      cases ts with
      | nil =>
          rw [shownChars, List.flatMap_singleton]
          exact lex_chars h
      | cons u us =>
          obtain ⟨hWell, hApart, hRest⟩ := h
          have hNext : u.WellFormed := by
            cases us with
            | nil => exact hRest
            | cons v vs => exact hRest.1
          have hTail := ih hRest
          rw [shownChars, List.flatMap_cons] at hTail
          rw [shownChars, List.flatMap_cons, List.flatMap_cons, Token.lex_chars_append hWell,
            Token.lexFrom_of_apart hNext hApart, hTail]

/-- The text that a list of tokens is shown as, made of the texts of its tokens. -/
def shownText (ts : List Token) : String :=
  String.join (ts.map Token.text)

theorem toList_shownText
    (ts : List Token) :
    (shownText ts).toList = shownChars ts := by
  induction ts with
  | nil => rfl
  | cons t ts ih =>
      rw [shownText, List.map_cons, String.join_cons, String.toList_append, ← shownText, ih,
        Token.text, String.toList_ofList]
      rfl

theorem shownAs_eq_ite
    (c : Char) :
    Token.shownAs c = if c = '\t' then ' ' else c := by
  by_cases hTab : c = '\t'
  · subst hTab
    rfl
  · by_cases hSpace : c = ' '
    · subst hSpace
      rfl
    · simp [Token.shownAs, Token.isBlankChar, hTab, hSpace]

/-- The tokens of a text are canonical, and are shown as the text with a space for each tab.
Exactly the canonical lists of tokens are read back from what they are shown as. -/
theorem lex_lossless :
    (∀ s : String,
      shownText (lex s.toList) = String.ofList (s.toList.map fun c => if c = '\t' then ' ' else c) ∧
      (∀ t ∈ lex s.toList, t.text ≠ "") ∧
      ((lex s.toList).map Token.width).sum = s.length ∧
      Canonical (lex s.toList)) ∧
    ∀ ts : List Token, lex (shownText ts).toList = ts ↔ Canonical ts := by
  refine ⟨fun s => ⟨?_, ?_, ?_, canonical_lex s.toList⟩, fun ts => ⟨fun h => ?_, fun h => ?_⟩⟩
  · rw [← String.toList_inj, toList_shownText, Token.shownChars_lex, String.toList_ofList]
    exact List.map_congr_left fun c _ => shownAs_eq_ite c
  · intro t ht hEmpty
    have hNil : t.chars = [] := by
      rw [← String.toList_eq_nil_iff, Token.text, String.toList_ofList] at hEmpty
      exact hEmpty
    exact Token.chars_ne_nil (wellFormed_of_mem_lex ht) hNil
  · have hLength := length_flatMap_lex s.toList
    rw [List.length_flatMap, String.length_toList] at hLength
    exact hLength
  · exact h ▸ canonical_lex _
  · rw [toList_shownText]
    exact lex_shownChars h

/-- An underscore behind a letter belongs to the name, and behind a blank it does not; the tab is
shown as a space. -/
theorem lex_lossless_underscores :
    .ident "A_1" ∈ lex "A_1\t_7".toList ∧ (Token.ident "A_1").text ≠ "" ∧
      shownText (lex "A_1\t_7".toList) = "A_1 _7" ∧
      Canonical [.ident "A_1", .blank 1, .unknown "_", .literal "7"] ∧
      lex "A_1 _7".toList = [.ident "A_1", .blank 1, .unknown "_", .literal "7"] := by
  have hLex : lex "A_1\t_7".toList = [.ident "A_1", .blank 1, .unknown "_", .literal "7"] := by
    decide +kernel
  have hMem : .ident "A_1" ∈ lex "A_1\t_7".toList := by
    rw [hLex]
    exact List.mem_cons_self
  obtain ⟨hShown, hNotEmpty, _, hCanonical⟩ := lex_lossless.1 "A_1\t_7"
  have hShown : shownText (lex "A_1\t_7".toList) = "A_1 _7" := hShown
  rw [hLex] at hCanonical
  have hBack := (lex_lossless.2 _).mpr hCanonical
  rw [← hLex, hShown, hLex] at hBack
  exact ⟨hMem, hNotEmpty _ hMem, hShown, hCanonical, hBack⟩

end IntegerBasic
