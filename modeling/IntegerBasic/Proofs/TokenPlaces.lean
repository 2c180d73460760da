import IntegerBasic.Text.Fragment
import IntegerBasic.Token.Canonical

/-!
# Where tokens stand

A lexeme has the columns that its token takes in the text.  The lexer counts them by the widths of
the tokens in front of it, blanks included, although a blank is not shown as it was written.

**Definitions.**  `Shows c text chars` says that the columns are a part of the text, that this part
is not empty, and that `chars` stand there.  `Before` and `Disjoint` compare columns.

**Invariant.**  The token under construction takes as many characters as were read for it, and
unless it is a blank it is shown as these characters (`Token.Reads`).

**Results.**
* `shows_of_mem_lexemes`: in the columns of a lexeme stands its token.
* `wellFormed_of_mem_lex`: all tokens of a text are well formed.
* `mem_of_mem_chars`: a token is written with characters of the text.
* `pairwise_before_lexemes`: the lexemes stand one after the other.
-/

namespace IntegerBasic

namespace Column

/-- The columns are a part of the text that is not empty, and these characters stand there. -/
def Shows (c : Column) (text chars : List Char) : Prop :=
  c.start < c.stop ∧ c.stop ≤ text.length ∧ text.extract c.start c.stop = chars

/-- The columns end where the others start, or earlier. -/
def Before (c d : Column) : Prop :=
  c.stop ≤ d.start

/-- No character is in both columns. -/
def Disjoint (c d : Column) : Prop :=
  ∀ k, ¬ ((c.start ≤ k ∧ k < c.stop) ∧ d.start ≤ k ∧ k < d.stop)

theorem Before.disjoint
    {c d : Column}
    (h : c.Before d) :
    c.Disjoint d := by
  rintro k ⟨⟨_, hStop⟩, hStart, _⟩
  rw [Before] at h
  omega

theorem shows_of_append
    {chars : List Char}
    (hChars : chars ≠ []) (before after : List Char) :
    (⟨before.length, before.length + chars.length⟩ : Column).Shows (before ++ chars ++ after)
      chars := by
  have hLength : 0 < chars.length := List.length_pos_iff.mpr hChars
  refine ⟨?_, ?_, ?_⟩
  · exact Nat.lt_add_of_pos_right hLength
  · simp only [List.length_append]
    omega
  · simp [List.extract_eq_take_drop]

end Column

/-- Where the fragment ends. -/
def Fragment.stop (f : Fragment) : Nat :=
  f.offset + f.chars.length

namespace Token

/-- The token takes the characters of `piece` and, unless it is a blank, is shown as them. -/
def Reads (t : Token) (piece : List Char) : Prop :=
  piece ≠ [] ∧ t.width = piece.length ∧ (t.isBlank = false → t.chars = piece)

theorem reads_start
    (c : Char) :
    (start c).Reads [c] := by
  refine ⟨List.cons_ne_nil c [], width_start c, ?_⟩
  intro hBlank
  have hNotBlank : isBlankChar c = false := by
    cases hChar : isBlankChar c with
    | false => rfl
    | true =>
        rw [start, if_pos hChar] at hBlank
        cases hBlank
  rw [chars_start, shownAs_eq_self hNotBlank]

/-- One more character for the token is one more character read. -/
theorem Reads.extend?
    {t t' : Token} {piece : List Char} {c : Char}
    (hReads : t.Reads piece) (h : t.extend? c = some t') :
    t'.Reads (piece ++ [c]) := by
  obtain ⟨_, hWidth, hChars⟩ := hReads
  refine ⟨by simp, by simp [width_extend? h, hWidth], ?_⟩
  intro hBlank
  cases t <;> simp only [Token.extend?, reduceCtorEq, Option.ite_none_right_eq_some,
    Option.some_inj] at h <;> obtain ⟨_, rfl⟩ := h
  case blank => contradiction
  case unknown | literal | ident =>
    rw [← hChars rfl]
    simp [chars]

theorem Reads.shows
    {t : Token} {piece : List Char}
    (hReads : t.Reads piece) (hBlank : t.isBlank = false) (before after : List Char) :
    (⟨before.length, before.length + t.width⟩ : Column).Shows (before ++ piece ++ after)
      t.chars := by
  obtain ⟨hNotNil, hWidth, hChars⟩ := hReads
  rw [hWidth, hChars hBlank]
  exact Column.shows_of_append hNotNil before after

theorem mem_lexemes_cons
    {offset : Nat} {t : Token} {ts : List Token} {l : Lexeme}
    (h : l ∈ lexemes offset (t :: ts)) :
    (t.isBlank = false ∧ l = ⟨t, ⟨offset, offset + t.width⟩⟩) ∨
      l ∈ lexemes (offset + t.width) ts := by
  cases hBlank : t.isBlank with
  | true => exact Or.inr (by simpa [lexemes, hBlank] using h)
  | false => simpa [lexemes, hBlank] using h

/-- In the columns of a lexeme stands its token.  The induction is on the rest of the text; what
was read for the token under construction is `piece`, behind `before`. -/
theorem shows_of_mem_lexemes_lexFrom
    {t : Token} {before piece cs : List Char} {l : Lexeme}
    (hReads : t.Reads piece)
    (hMem : l ∈ lexemes before.length (lexFrom t cs)) (after : List Char) :
    l.column.Shows (before ++ piece ++ (cs ++ after)) l.token.chars := by
  induction cs generalizing t before piece with
  | nil =>
      rcases mem_lexemes_cons hMem with ⟨hBlank, rfl⟩ | hMem
      · exact hReads.shows hBlank before after
      · simp [lexemes] at hMem
  | cons c cs ih =>
      cases hExtend : t.extend? c with
      | some t' =>
          rw [lexFrom, hExtend] at hMem
          simpa using ih (hReads.extend? hExtend) hMem
      | none =>
          simp only [lexFrom, hExtend] at hMem
          rcases mem_lexemes_cons hMem with ⟨hBlank, rfl⟩ | hMem
          · exact hReads.shows hBlank before _
          · have hNext : before.length + t.width = (before ++ piece).length := by
              rw [List.length_append, hReads.2.1]
            rw [hNext] at hMem
            simpa using ih (reads_start c) hMem

theorem wellFormed_of_mem_lexFrom
    {t u : Token} {cs : List Char}
    (hWell : t.WellFormed) (hMem : u ∈ lexFrom t cs) :
    u.WellFormed := by
  induction cs generalizing t with
  | nil =>
      rw [lexFrom, List.mem_singleton] at hMem
      exact hMem ▸ hWell
  | cons c cs ih =>
      cases hExtend : t.extend? c with
      | some t' =>
          rw [lexFrom, hExtend] at hMem
          exact ih (hWell.extend? hExtend) hMem
      | none =>
          simp only [lexFrom, hExtend, List.mem_cons] at hMem
          rcases hMem with rfl | hMem
          · exact hWell
          · exact ih (wellFormed_start c) hMem

end Token

/-- All tokens of a text are well formed. -/
theorem wellFormed_of_mem_lex
    {t : Token} {cs : List Char}
    (h : t ∈ lex cs) :
    t.WellFormed := by
  cases cs with
  | nil => simp [lex] at h
  | cons c cs => exact Token.wellFormed_of_mem_lexFrom (Token.wellFormed_start c) h

/-- The lexemes have the tokens that are no blanks. -/
theorem token_of_mem_lexemes
    {offset : Nat} {ts : List Token} {l : Lexeme}
    (h : l ∈ lexemes offset ts) :
    l.token ∈ ts ∧ l.token.isBlank = false := by
  have hToken : l.token ∈ (lexemes offset ts).map Lexeme.token := List.mem_map_of_mem h
  rwa [map_token_lexemes, List.mem_filter, Bool.not_eq_true'] at hToken

theorem token_mem_of_mem_lexemes
    {offset : Nat} {ts : List Token} {l : Lexeme}
    (h : l ∈ lexemes offset ts) :
    l.token ∈ ts :=
  (token_of_mem_lexemes h).1

theorem isBlank_of_mem_lexemes
    {offset : Nat} {ts : List Token} {l : Lexeme}
    (h : l ∈ lexemes offset ts) :
    l.token.isBlank = false :=
  (token_of_mem_lexemes h).2

/-- In the columns of a lexeme stands its token, wherever the fragment is within the text. -/
theorem shows_of_mem_lexemes
    {f : Fragment} {text : List Char} {l : Lexeme}
    (hWithin : f.Within text) (h : l ∈ lexemes f.offset (lex f.chars)) :
    l.column.Shows text l.token.chars := by
  obtain ⟨before, after, rfl, hOffset⟩ := hWithin
  cases hChars : f.chars with
  | nil => simp [hChars, lex, lexemes] at h
  | cons c cs =>
      rw [hChars, ← hOffset, lex] at h
      simpa using Token.shows_of_mem_lexemes_lexFrom (Token.reads_start c) h after

/-- The characters of a token that is no blank are characters of the text. -/
theorem mem_of_mem_chars
    {t : Token} {cs : List Char} {c : Char}
    (hMem : t ∈ lex cs) (hBlank : t.isBlank = false) (hc : c ∈ t.chars) :
    c ∈ cs := by
  have hPlaced : t ∈ (lexemes 0 (lex cs)).map Lexeme.token := by
    rw [map_token_lexemes, List.mem_filter]
    exact ⟨hMem, by simp [hBlank]⟩
  obtain ⟨l, hl, rfl⟩ := List.mem_map.mp hPlaced
  obtain ⟨_, _, hShown⟩ := shows_of_mem_lexemes (Fragment.within_whole cs) hl
  rw [← hShown, List.extract_eq_take_drop] at hc
  exact List.mem_of_mem_drop (List.mem_of_mem_take hc)

/-- The lexemes stand within the columns that all tokens take together. -/
theorem inside_of_mem_lexemes
    {offset : Nat} {ts : List Token} {l : Lexeme}
    (h : l ∈ lexemes offset ts) :
    offset ≤ l.column.start ∧ l.column.stop ≤ offset + (ts.flatMap Token.chars).length := by
  induction ts generalizing offset with
  | nil => simp [lexemes] at h
  | cons t ts ih =>
      have hWidth : t.width = t.chars.length := rfl
      rw [List.flatMap_cons, List.length_append]
      rcases Token.mem_lexemes_cons h with ⟨_, rfl⟩ | hMem
      · simp only
        omega
      · have hRest := ih hMem
        omega

/-- The lexemes stand one after the other. -/
theorem pairwise_before_lexemes
    (offset : Nat) (ts : List Token) :
    ((lexemes offset ts).map Lexeme.column).Pairwise Column.Before := by
  induction ts generalizing offset with
  | nil => exact List.Pairwise.nil
  | cons t ts ih =>
      cases hBlank : t.isBlank with
      | true => simpa [lexemes, hBlank] using ih (offset + t.width)
      | false =>
          simp only [lexemes, hBlank, Bool.false_eq_true, if_false, List.map_cons,
            List.pairwise_cons]
          refine ⟨?_, ih (offset + t.width)⟩
          intro c hc
          obtain ⟨l, hl, rfl⟩ := List.mem_map.mp hc
          exact (inside_of_mem_lexemes hl).1

end IntegerBasic
