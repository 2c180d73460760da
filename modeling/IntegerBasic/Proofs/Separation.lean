import IntegerBasic.Proofs.GrammarEquivalence
import IntegerBasic.Text.Blank
import IntegerBasic.Token.Canonical

/-!
# Tokens of a text that is put together

Some characters separate tokens wherever they stand: an operator or a parenthesis is a token of
its own, and a blank belongs to no token that means anything.  The tokens of a text with such a
character in it are those of the two parts, with the character's own token between them.

**Results.**
* `lex_append_operator`, `significant_append_blank`: how a separator splits the tokens.
* `lex_chars_append`, `lex_chars`: the characters of a well-formed token are read as this token.
* `ofDigitChars_toString`: a numeral denotes the number it was written for.
-/

namespace IntegerBasic

section Characters

variable {c : Char}

theorem isUpper_iff_toNat :
    c.isUpper = true ↔ 65 ≤ c.toNat ∧ c.toNat ≤ 90 :=
  decide_eq_true_iff.trans (and_congr UInt32.le_iff_toNat_le UInt32.le_iff_toNat_le)

theorem isLower_iff_toNat :
    c.isLower = true ↔ 97 ≤ c.toNat ∧ c.toNat ≤ 122 :=
  Bool.and_eq_true_iff.trans <| and_congr (decide_eq_true_iff.trans UInt32.le_iff_toNat_le)
    (decide_eq_true_iff.trans UInt32.le_iff_toNat_le)

theorem isAlpha_iff_toNat :
    c.isAlpha = true ↔ 65 ≤ c.toNat ∧ c.toNat ≤ 90 ∨ 97 ≤ c.toNat ∧ c.toNat ≤ 122 :=
  Bool.or_eq_true_iff.trans (or_congr isUpper_iff_toNat isLower_iff_toNat)

theorem isNameChar_iff_toNat :
    Token.isNameChar c = true ↔
      (65 ≤ c.toNat ∧ c.toNat ≤ 90 ∨ 97 ≤ c.toNat ∧ c.toNat ≤ 122) ∨
        (48 ≤ c.toNat ∧ c.toNat ≤ 57) ∨ c.toNat = 95 := by
  have hDigit : c.isDigit = true ↔ 48 ≤ c.toNat ∧ c.toNat ≤ 57 := Char.isDigit_iff_toNat
  have hUnderscore : c = '_' ↔ c.toNat = 95 := by
    rw [← Char.toNat_inj]
    rfl
  rw [Token.isNameChar, Bool.or_eq_true, Bool.or_eq_true, beq_iff_eq, isAlpha_iff_toNat, hDigit,
    hUnderscore, or_assoc]

theorem isWhiteSpace_of_isNameChar
    (h : Token.isNameChar c = true) :
    Text.isWhiteSpace c = false := by
  rw [isNameChar_iff_toNat] at h
  simp [Text.isWhiteSpace, Text.whiteSpaceRanges]
  omega

theorem isDigit_of_isAlpha
    (h : c.isAlpha = true) :
    c.isDigit = false := by
  cases hDigit : c.isDigit with
  | false => rfl
  | true =>
      have hRange : 48 ≤ c.toNat ∧ c.toNat ≤ 57 := Char.isDigit_iff_toNat.mp hDigit
      rw [isAlpha_iff_toNat] at h
      omega

end Characters

namespace Token

section Operators

theorem ofChar?_toChar
    (op : Operator) :
    ofChar? op.toChar = some (operator op) := by
  cases op <;> rfl

variable {c : Char} {u : Token}

theorem start_of_ofChar?
    (h : ofChar? c = some u) :
    start c = u := by
  unfold ofChar? at h
  split at h <;> cases h <;> rfl

theorem isBlank_of_ofChar?
    (h : ofChar? c = some u) :
    u.isBlank = false := by
  unfold ofChar? at h
  split at h <;> cases h <;> rfl

/-- An operator or a parenthesis belongs to no other token. -/
theorem extend?_of_ofChar?
    (h : ofChar? c = some u) (t : Token) :
    t.extend? c = none := by
  have hUnknown : isUnknownChar c = false := by simp [isUnknownChar, h]
  unfold ofChar? at h
  split at h <;> cases h <;> cases t <;> simp_all [extend?] <;> decide

/-- An operator or a parenthesis is complete. -/
theorem lexFrom_of_ofChar?
    (h : ofChar? c = some u) (cs : List Char) :
    lexFrom u cs = u :: lex cs := by
  unfold ofChar? at h
  split at h <;> cases h <;> cases cs <;> rfl

theorem lexFrom_append_operator
    (h : ofChar? c = some u) (t : Token) (cs b : List Char) :
    lexFrom t (cs ++ c :: b) = lexFrom t cs ++ u :: lex b := by
  induction cs generalizing t with
  | nil =>
      simp only [List.nil_append, lexFrom, extend?_of_ofChar? h, start_of_ofChar? h,
        lexFrom_of_ofChar? h, List.singleton_append]
  | cons d cs ih => cases hExtend : t.extend? d <;> simp [lexFrom, hExtend, ih]

end Operators

section Blanks

variable {c : Char}

theorem start_of_isBlankChar
    (h : isBlankChar c = true) :
    start c = blank 1 := by
  simp [start, h]

theorem extend?_of_isBlankChar
    (h : isBlankChar c = true) (t : Token) :
    (∃ n, t = blank n ∧ t.extend? c = some (blank (n + 1))) ∨ t.extend? c = none := by
  have hSpace : c = ' ' ∨ c = '\t' := by
    simpa [isBlankChar] using h
  cases t with
  | blank n => exact Or.inl ⟨n, rfl, by simp [extend?, h]⟩
  | unknown | literal | ident => rcases hSpace with rfl | rfl <;> exact Or.inr rfl
  | operator | leftParen | rightParen => exact Or.inr rfl

/-- The width of a blank makes no difference to the tokens behind it. -/
theorem filter_lexFrom_blank
    (n : Nat) (cs : List Char) :
    (lexFrom (blank n) cs).filter (fun t => !t.isBlank) =
      (lex cs).filter fun t => !t.isBlank := by
  induction cs generalizing n with
  | nil => rfl
  | cons c cs ih =>
      cases h : isBlankChar c with
      | true => simp [lexFrom, lex, extend?, h, start_of_isBlankChar, ih]
      | false => simp [lexFrom, lex, extend?, h, isBlank]

theorem filter_lexFrom_append_blank
    (h : isBlankChar c = true) (t : Token) (cs b : List Char) :
    (lexFrom t (cs ++ c :: b)).filter (fun t => !t.isBlank) =
      (lexFrom t cs).filter (fun t => !t.isBlank) ++ (lex b).filter fun t => !t.isBlank := by
  induction cs generalizing t with
  | nil =>
      rcases extend?_of_isBlankChar h t with ⟨n, rfl, hExtend⟩ | hExtend
      · have hBlank : (blank n).isBlank = true := rfl
        simp [lexFrom, hExtend, filter_lexFrom_blank, hBlank]
      · simp [lexFrom, hExtend, start_of_isBlankChar h, filter_lexFrom_blank, List.filter_cons]
        split <;> simp
  | cons d cs ih =>
      cases hExtend : t.extend? d with
      | some t' => simp [lexFrom, hExtend, ih]
      | none =>
          simp only [List.cons_append, lexFrom, hExtend, List.filter_cons, ih]
          split <;> simp

end Blanks

section Runs

/-- A token takes the characters of its class one after the other. -/
theorem lexFrom_append_of_extend?
    {make : String → Token} {cs : List Char}
    (h : ∀ c ∈ cs, ∀ text, (make text).extend? c = some (make (text.push c)))
    (text : String) (rest : List Char) :
    lexFrom (make text) (cs ++ rest) = lexFrom (make (text ++ String.ofList cs)) rest := by
  induction cs generalizing text with
  | nil => simp
  | cons c cs ih =>
      rw [List.forall_mem_cons] at h
      have hText : text.push c ++ String.ofList cs = text ++ String.ofList (c :: cs) := by
        simp [← String.toList_inj]
      simp [lexFrom, h.1, ih h.2, hText]

theorem lexFrom_replicate_append
    (width n : Nat) (rest : List Char) :
    lexFrom (blank width) (List.replicate n ' ' ++ rest) = lexFrom (blank (width + n)) rest := by
  induction n generalizing width with
  | zero => rfl
  | succ n ih =>
      have hSpace : isBlankChar ' ' = true := rfl
      simp only [List.replicate_succ, List.cons_append, lexFrom, extend?, hSpace, if_true, ih,
        Nat.add_right_comm, Nat.add_assoc]

theorem lex_text_append
    {make : String → Token} {text : String} {c : Char} {cs : List Char}
    (hText : text.toList = c :: cs) (hStart : start c = make (String.singleton c))
    (h : ∀ d ∈ cs, ∀ s, (make s).extend? d = some (make (s.push d))) (rest : List Char) :
    lex (text.toList ++ rest) = lexFrom (make text) rest := by
  have hWhole : String.singleton c ++ String.ofList cs = text := by
    simp [← String.toList_inj, hText]
  rw [hText, List.cons_append, lex, hStart, lexFrom_append_of_extend? h, hWhole]

theorem start_of_isDigit
    {c : Char}
    (h : c.isDigit = true) :
    start c = literal (String.singleton c) := by
  simp [start, isBlankChar_of_isNameChar (isNameChar_of_isDigit h), h]

theorem start_of_isAlpha
    {c : Char}
    (h : c.isAlpha = true) :
    start c = ident (String.singleton c) := by
  simp [start, isBlankChar_of_isNameChar (isNameChar_of_isAlpha h), isDigit_of_isAlpha h, h]

theorem start_of_isUnknownChar
    {c : Char}
    (h : isUnknownChar c = true) :
    start c = unknown (String.singleton c) := by
  simp only [isUnknownChar, Bool.and_eq_true, Bool.not_eq_true', Option.isNone_iff_eq_none] at h
  simp [start, h]

/-- When the characters of a well-formed token have been read, it is the token under
construction. -/
theorem lex_chars_append
    {t : Token}
    (h : t.WellFormed) (rest : List Char) :
    lex (t.chars ++ rest) = lexFrom t rest := by
  cases t with
  | unknown text =>
      obtain ⟨hNotEmpty, hUnknown⟩ := h
      cases hText : text.toList with
      | nil => exact absurd (String.toList_eq_nil_iff.mp hText) hNotEmpty
      | cons c cs =>
          rw [hText, List.forall_mem_cons] at hUnknown
          exact lex_text_append hText (start_of_isUnknownChar hUnknown.1)
            (fun d hd s => if_pos (hUnknown.2 d hd)) rest
  | blank width =>
      obtain ⟨n, rfl⟩ := Nat.exists_eq_succ_of_ne_zero (Nat.ne_of_gt h)
      have hStart : start ' ' = blank 1 := rfl
      rw [chars, List.replicate_succ, List.cons_append, lex, hStart, lexFrom_replicate_append,
        Nat.add_comm]
  | literal digits =>
      obtain ⟨hNotEmpty, hDigits⟩ := h
      cases hText : digits.toList with
      | nil => exact absurd (String.toList_eq_nil_iff.mp hText) hNotEmpty
      | cons c cs =>
          rw [hText, List.forall_mem_cons] at hDigits
          exact lex_text_append hText (start_of_isDigit hDigits.1)
            (fun d hd s => if_pos (hDigits.2 d hd)) rest
  | ident name =>
      obtain ⟨c, cs, hText, hAlpha, hRest⟩ := h
      exact lex_text_append hText (start_of_isAlpha hAlpha)
        (fun d hd s => if_pos (hRest d hd)) rest
  | operator op => rw [chars, List.singleton_append, lex, start_of_ofChar? (ofChar?_toChar op)]
  | leftParen | rightParen => rfl

end Runs

end Token

/-- A well-formed token is the only one of its text. -/
theorem lex_chars
    {t : Token}
    (h : t.WellFormed) :
    lex t.chars = [t] := by
  have hAlone := Token.lex_chars_append h []
  rwa [List.append_nil] at hAlone

/-- An operator or a parenthesis is a token of its own wherever it stands. -/
theorem lex_append_operator
    {c : Char} {u : Token}
    (h : Token.ofChar? c = some u) (a b : List Char) :
    lex (a ++ c :: b) = lex a ++ u :: lex b := by
  cases a with
  | nil => simp [lex, Token.start_of_ofChar? h, Token.lexFrom_of_ofChar? h]
  | cons d a => simp [lex, Token.lexFrom_append_operator h]

theorem toList_toString
    (n : Nat) :
    (toString n).toList = Nat.toDigits 10 n :=
  Nat.toList_repr

theorem toList_toString_ne_nil
    (n : Nat) :
    (toString n).toList ≠ [] := by
  rw [Ne, String.toList_eq_nil_iff]
  exact Nat.repr_ne_empty

theorem isDigit_of_mem_toString
    (n : Nat) :
    ∀ c ∈ (toString n).toList, c.isDigit = true := by
  intro c hc
  rw [toList_toString] at hc
  exact Nat.isDigit_of_mem_toDigits (by decide) (by decide) hc

/-- A numeral is a string of digits. -/
theorem wellFormed_literal_toString
    (n : Nat) :
    (Token.literal (toString n)).WellFormed :=
  ⟨Nat.repr_ne_empty, isDigit_of_mem_toString n⟩

/-- A numeral is one token. -/
theorem lex_toString
    (n : Nat) :
    lex (toString n).toList = [.literal (toString n)] :=
  lex_chars (wellFormed_literal_toString n)

/-- A numeral denotes the number it was written for. -/
theorem ofDigitChars_toString
    (n : Nat) :
    Nat.ofDigitChars 10 (toString n).toList 0 = n := by
  rw [toList_toString, Nat.ofDigitChars_ten_toDigits]

namespace Expr

theorem significant_append_operator
    {c : Char} {u : Token}
    (h : Token.ofChar? c = some u) (a b : List Char) :
    significant (a ++ c :: b) = significant a ++ u :: significant b := by
  simp [significant, lex_append_operator h, Token.isBlank_of_ofChar? h]

/-- A blank splits the tokens and leaves no trace. -/
theorem significant_append_blank
    {c : Char}
    (h : Token.isBlankChar c = true) (a b : List Char) :
    significant (a ++ c :: b) = significant a ++ significant b := by
  cases a with
  | nil => simp [significant, lex, Token.start_of_isBlankChar h, Token.filter_lexFrom_blank]
  | cons d a => simp [significant, lex, Token.filter_lexFrom_append_blank h]

theorem significant_name
    {x : Name}
    (h : (Token.ident x).WellFormed) :
    significant x.toList = [.ident x] := by
  have hAlone : lex x.toList = [.ident x] := lex_chars h
  rw [significant, hAlone]
  rfl

theorem significant_toString
    (n : Nat) :
    significant (toString n).toList = [.literal (toString n)] := by
  rw [significant, lex_toString]
  rfl

end Expr
end IntegerBasic
