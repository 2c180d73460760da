import IntegerBasic.Proofs.BlamedTokens
import IntegerBasic.Proofs.Separation
import IntegerBasic.Proofs.TokenPlaces

/-!
# The parser stops at the first token that cannot go on

**Definition.**  Tokens are `Viable` if some text that is parsed starts with them, blanks aside.

**Argument.**  As long as no assignment is open, all that is missing is an operand, if one is
wanted, and the parentheses of the open groups (`exists_completion`); they are written behind the
tokens with blanks in between.  So what was read without an error is viable.  The other way round, a
completion of tokens at which the parser fails would be derived, and the parser reads whatever is
derived; where the tokens stand makes no difference to that.

**Results.**
* `viable_of_foldlM`: what the parser has read is viable.
* `not_viable_of_step_error`: with the lexeme at which it fails, it is not.
* `blames_first_unviable`: a text without `=` that is refused is blamed at the first token that is
  not viable with those before, or is viable and blamed nowhere.
-/

namespace IntegerBasic
namespace Expr

/-- Some text that is parsed starts with the tokens, blanks aside. -/
def Viable (ts : List Token) : Prop :=
  ∃ text offset e, parse ⟨offset, text⟩ = .ok e ∧ ts <+: significant text

theorem Viable.of_prefix
    {ts us : List Token}
    (h : Viable us) (hPrefix : ts <+: us) :
    Viable ts := by
  obtain ⟨text, offset, e, hParse, hStarts⟩ := h
  exact ⟨text, offset, e, hParse, hPrefix.trans hStarts⟩

section Writing

/-- The token is one that a text can have and means something. -/
def Writable (t : Token) : Prop :=
  t.WellFormed ∧ t.isBlank = false

theorem writable_of_mem_lexemes
    {offset : Nat} {text : List Char} {l : Lexeme}
    (h : l ∈ lexemes offset (lex text)) :
    Writable l.token :=
  ⟨wellFormed_of_mem_lex (token_mem_of_mem_lexemes h), isBlank_of_mem_lexemes h⟩

/-- A text of the tokens, with a blank after each. -/
def spacedOut (ts : List Token) : List Char :=
  ts.flatMap fun t => t.chars ++ [' ']

/-- Writable tokens are read back. -/
theorem significant_spacedOut
    {ts : List Token}
    (h : ∀ t ∈ ts, Writable t) :
    significant (spacedOut ts) = ts := by
  induction ts with
  | nil => rfl
  | cons t ts ih =>
      rw [List.forall_mem_cons] at h
      obtain ⟨⟨hWell, hBlank⟩, hRest⟩ := h
      have hAlone : significant t.chars = [t] := by
        rw [significant, lex_chars hWell]
        simp [hBlank]
      have hSplit : spacedOut (t :: ts) = t.chars ++ ' ' :: spacedOut ts := by
        simp [spacedOut]
      rw [hSplit, significant_append_blank rfl, hAlone, ih hRest]
      rfl

/-- What lexemes start with that spell an expression is viable. -/
theorem viable_of_ofLexemes
    {ls rest : List Lexeme} {e : Expr}
    (h : ofLexemes (ls ++ rest) = .ok e) (hWritable : ∀ l ∈ ls ++ rest, Writable l.token) :
    Viable (ls.map Lexeme.token) := by
  have hRead : significant (spacedOut ((ls ++ rest).map Lexeme.token)) =
      (ls ++ rest).map Lexeme.token :=
    significant_spacedOut (List.forall_mem_map.mpr hWritable)
  have hSpells : Spells (significant (spacedOut ((ls ++ rest).map Lexeme.token))) e :=
    ⟨ls ++ rest, e, hRead.symm, derives_of_ofLexemes h, rfl⟩
  obtain ⟨e', hParse, _⟩ := exists_parse_of_spells 0 hSpells
  refine ⟨_, 0, e', hParse, ?_⟩
  rw [hRead, List.map_append]
  exact List.prefix_append _ _

end Writing

section Completion

/-- A closing parenthesis. -/
def closing : Lexeme :=
  ⟨.rightParen, ⟨0, 0⟩⟩

/-- Closing parentheses see only what is left when everything inside of them is closed. -/
theorem closings_congr
    {frames frames' : List Frame} {e e' : Expr}
    (h : settle 1 frames e = settle 1 frames' e') (n : Nat) :
    ((List.replicate n closing).foldlM step (.holding frames e) >>= finish) =
      ((List.replicate n closing).foldlM step (.holding frames' e') >>= finish) := by
  cases n with
  | zero =>
      change finish (.holding frames e) = finish (.holding frames' e')
      rw [finish, finish, h]
  | succ n =>
      have hStep : step (.holding frames e) closing = step (.holding frames' e') closing := by
        simp only [closing, step, stepOperator, stepEnd, h]
      rw [List.replicate_succ, List.foldlM_cons, List.foldlM_cons, hStep]

/-- Where an operand has been read, only closing parentheses are missing. -/
theorem exists_closings
    {frames : List Frame}
    (h : ∀ c, ¬ Assigning frames c) (e : Expr) :
    ∃ n e', ((List.replicate n closing).foldlM step (.holding frames e) >>= finish) = .ok e' := by
  induction frames generalizing e with
  | nil => exact ⟨0, e, rfl⟩
  | cons f frames ih =>
      have hRest : ∀ c, ¬ Assigning frames c := fun c hOpen =>
        h c (assigning_cons_iff.mpr (.inr hOpen))
      cases f with
      | group =>
          obtain ⟨n, e', hRun⟩ := ih hRest e
          have hClose : step (.holding (.group :: frames) e) closing =
              .ok (.holding frames e) := rfl
          refine ⟨n + 1, e', ?_⟩
          rw [List.replicate_succ, foldlM_step_cons hClose]
          exact hRun
      | minus c =>
          obtain ⟨n, e', hRun⟩ := ih hRest (.negation c e)
          have hSettle : settle 1 (.minus c :: frames) e = settle 1 frames (.negation c e) :=
            settle_cons_of_le (by simp [Frame.level]) rfl
          exact ⟨n, e', (closings_congr hSettle n).trans hRun⟩
      | binary c op lhs =>
          obtain ⟨n, e', hRun⟩ := ih hRest (.binary c op lhs e)
          have hSettle : settle 1 (.binary c op lhs :: frames) e =
              settle 1 frames (.binary c op lhs e) :=
            settle_cons_of_le (Nat.le_of_succ_le (two_le_level op)) rfl
          exact ⟨n, e', (closings_congr hSettle n).trans hRun⟩
      | assign c lhs => exact absurd (assigning_cons_iff.mpr (.inl ⟨lhs, rfl⟩)) (h c)

/-- Unless an assignment is open, what was read can be completed. -/
theorem exists_completion
    {p : Progress}
    (h : ∀ c, ¬ Assigning p.frames c) :
    ∃ (rest : List Lexeme) (e : Expr), (∀ l ∈ rest, Writable l.token) ∧
      (rest.foldlM step p >>= finish) = .ok e := by
  have hClosing : Writable closing.token := ⟨trivial, rfl⟩
  cases p with
  | holding frames operand =>
      obtain ⟨n, e, hRun⟩ := exists_closings h operand
      exact ⟨_, e, fun l hl => List.eq_of_mem_replicate hl ▸ hClosing, hRun⟩
  | wanting frames =>
      have hName : Writable (.ident "X") := ⟨⟨'X', [], rfl, rfl, nofun⟩, rfl⟩
      have hStep : step (.wanting frames) ⟨.ident "X", ⟨0, 0⟩⟩ =
          .ok (.holding frames (.var ⟨0, 0⟩ "X")) := rfl
      obtain ⟨n, e, hRun⟩ := exists_closings h (.var ⟨0, 0⟩ "X")
      refine ⟨⟨.ident "X", ⟨0, 0⟩⟩ :: List.replicate n closing, e, ?_, ?_⟩
      · rw [List.forall_mem_cons]
        exact ⟨hName, fun l hl => List.eq_of_mem_replicate hl ▸ hClosing⟩
      · rw [foldlM_step_cons hStep]
        exact hRun

/-- What the parser has read is viable. -/
theorem viable_of_foldlM
    {ls : List Lexeme} {p : Progress}
    (hRun : ls.foldlM step (.wanting []) = .ok p) (hWritable : ∀ l ∈ ls, Writable l.token)
    (h : ∀ c, ¬ Assigning p.frames c) :
    Viable (ls.map Lexeme.token) := by
  obtain ⟨rest, e, hRest, hComplete⟩ := exists_completion h
  have hParse : ofLexemes (ls ++ rest) = .ok e := by
    rw [ofLexemes, foldlM_step_append hRun]
    exact hComplete
  exact viable_of_ofLexemes hParse (List.forall_mem_append.mpr ⟨hWritable, hRest⟩)

end Completion

/-- With the lexeme at which the parser fails, what it has read is not viable. -/
theorem not_viable_of_step_error
    {before : List Lexeme} {l : Lexeme} {p : Progress} {err : Error}
    (hRun : before.foldlM step (.wanting []) = .ok p) (hStep : step p l = .error err) :
    ¬ Viable ((before ++ [l]).map Lexeme.token) := by
  rintro ⟨text, offset, e, hParse, rest, hRest⟩
  obtain ⟨ls, e', hTokens, hDerives, _⟩ := spells_of_parse hParse
  -- The same tokens, standing where the parser has read the first of them.
  have hMoved : (before ++ l :: rest.map fun t => ⟨t, ⟨0, 0⟩⟩).map Lexeme.token =
      ls.map Lexeme.token := by
    rw [hTokens, ← hRest]
    simp [Function.comp_def]
  obtain ⟨e'', hDerives', _⟩ := hDerives.exists_of_tokens hMoved
  have hFails := ofLexemes_of_derives hDerives'
  rw [ofLexemes, foldlM_step_append hRun, List.foldlM_cons, hStep] at hFails
  cases hFails

/-- Lexemes of a text without `=` open no assignment. -/
theorem not_assigning_of_foldlM
    {text : List Char} {offset : Nat} {ls : List Lexeme} {p : Progress} {c : Column}
    (hNoEqual : '=' ∉ text) (hLexemes : ∀ l ∈ ls, l ∈ lexemes offset (lex text))
    (hRun : ls.foldlM step (.wanting []) = .ok p) :
    ¬ Assigning p.frames c := by
  intro hAssigning
  have hEqual := token_mem_of_mem_lexemes (hLexemes _ (equal_mem_of_foldlM hRun hAssigning))
  exact hNoEqual (mem_of_mem_chars hEqual rfl (List.mem_singleton.mpr rfl))

/-- A text without `=` that is refused is blamed at the first token with which those before it are
not viable any more.  If all its tokens together are viable, no column is blamed. -/
theorem blames_first_unviable
    {text : List Char} {offset : Nat} {err : Error}
    (hNoEqual : '=' ∉ text) (h : parse ⟨offset, text⟩ = .error err) :
    (∃ before l after,
      lexemes offset (lex text) = before ++ l :: after ∧
      err.column = some l.column ∧
      Viable (before.map Lexeme.token) ∧
      ¬ Viable ((before ++ [l]).map Lexeme.token) ∧
      ∀ ts, ts <+: significant text → (Viable ts ↔ ts <+: before.map Lexeme.token)) ∨
    err.column = none ∧ Viable (significant text) := by
  have hTokens : (lexemes offset (lex text)).map Lexeme.token = significant text :=
    map_token_lexemes offset (lex text)
  rcases cases_of_ofLexemes_error h with ⟨before, l, after, p, hAll, hRun, hStep⟩ | ⟨p, hRun, hFinish⟩
  · left
    have hBefore : ∀ k ∈ before, k ∈ lexemes offset (lex text) := fun k hk =>
      hAll ▸ List.mem_append_left _ hk
    have hViable := viable_of_foldlM hRun (fun k hk => writable_of_mem_lexemes (hBefore k hk))
      fun c => not_assigning_of_foldlM hNoEqual hBefore hRun
    have hNot := not_viable_of_step_error hRun hStep
    refine ⟨before, l, after, hAll, ?_, hViable, hNot, fun ts hts => ⟨fun hStarts => ?_, ?_⟩⟩
    · rcases step_blames hStep with hHere | ⟨c, hAssigning, _⟩
      · exact hHere
      · exact absurd hAssigning (not_assigning_of_foldlM hNoEqual hBefore hRun)
    · have hUpTo : (before ++ [l]).map Lexeme.token <+: significant text := by
        rw [← hTokens, hAll]
        exact ⟨after.map Lexeme.token, by simp⟩
      rcases List.prefix_or_prefix_of_prefix hts hUpTo with hShort | hLong
      · rw [List.map_append, List.map_singleton, List.prefix_concat_iff] at hShort
        rcases hShort with rfl | hShorter
        · exact absurd (by simpa using hStarts) hNot
        · exact hShorter
      · exact absurd (hStarts.of_prefix hLong) hNot
    · exact hViable.of_prefix
  · right
    have hViable := viable_of_foldlM hRun (fun _ => writable_of_mem_lexemes)
      fun c => not_assigning_of_foldlM hNoEqual (fun _ => id) hRun
    rw [hTokens] at hViable
    refine ⟨?_, hViable⟩
    rcases finish_blames hFinish with hNone | ⟨c, hAssigning, _⟩
    · exact hNone
    · exact absurd hAssigning (not_assigning_of_foldlM hNoEqual (fun _ => id) hRun)

/-- In `2 * (3 3`, read from column 6, the second `3` is blamed: it stands in columns 13 to 14. -/
theorem blames_first_unviable_juxtaposed :
    ∃ err before l after, parse ⟨6, "2 * (3 3".toList⟩ = .error err ∧
      '=' ∉ "2 * (3 3".toList ∧
      lexemes 6 (lex "2 * (3 3".toList) = before ++ l :: after ∧ l.column = ⟨13, 14⟩ ∧
      Viable (before.map Lexeme.token) ∧ ¬ Viable ((before ++ [l]).map Lexeme.token) := by
  have hParse : parse ⟨6, "2 * (3 3".toList⟩ =
      .error (SyntaxFault.expectedRightParenthesis.errorIn ⟨13, 14⟩) := by
    rfl
  have hNoEqual : '=' ∉ "2 * (3 3".toList := by decide
  rcases blames_first_unviable hNoEqual hParse with
    ⟨before, l, after, hAll, hColumn, hViable, hNot, _⟩ | ⟨hNone, _⟩
  · exact ⟨_, before, l, after, hParse, hNoEqual, hAll, (Option.some_inj.mp hColumn).symm, hViable,
      hNot⟩
  · cases hNone

end Expr
end IntegerBasic
