import IntegerBasic.Instruction.Printer
import IntegerBasic.Proofs.Spelling
import IntegerBasic.Statement

/-!
# Reading back what was written

**Input.**  An instruction that is `Plain`: its names are plain, its numbers and targets have no
sign and are in range, a `LET` assigns and the operands of a condition do not.

**Argument.**  The printer separates the words of a statement by blanks, and no keyword reaches
across a blank or stands in an expression.  So the keyword of the statement is the only one in its
text (`classify?_of_legible`), the clause behind it is cut where the printer put it together, and
each expression is parsed to itself, up to columns.

**Results.**
* `classify?_of_legible`: the text is recognised by its own keyword.
* `exists_ofClause_render`: the clause is parsed to the instruction.
* `parse_render`: the whole text is, and none of its parentheses can be left out.
-/

namespace IntegerBasic

namespace Keyword

/-- A text with one keyword in it is recognised by that keyword. -/
theorem classify?_of_clause?
    {k : Keyword} {f clause : Fragment}
    (h : k.clause? f = some clause)
    (hOthers : ∀ k', k' ≠ k → k'.clause? f = none) :
    classify? f = some (k, clause) := by
  obtain ⟨before, after, hAll, hBefore⟩ := List.eq_append_cons_of_mem k.mem_all
  rw [classify?, List.findSome?_eq_some_iff]
  refine ⟨before, k, after, hAll, by simp [h], ?_⟩
  intro k' hk'
  have hNe : k' ≠ k := by
    rintro rfl
    exact hBefore hk'
  simp [hOthers k' hNe]

theorem not_infix_word :
    ∀ k ∈ all, ∀ k' ∈ all, k' ≠ k → ¬ k'.word <:+: k.word := by
  decide +kernel

theorem not_infix_thenWord :
    ∀ k ∈ all, ¬ k.word <:+: thenWord := by
  decide +kernel

end Keyword

namespace Instruction

/-- The names are plain, the numbers have no sign and the targets are in range; a `LET` assigns,
and a condition does not. -/
def Plain : Instruction → Prop
  | remark | stop => True
  | assign e => e.Plain ∧ ∃ c x rhs, e = .assign c x rhs
  | print e => e.Plain
  | input _ x => PlainName x
  | jump _ n => n ≤ 2147483647
  | branch l _ r _ n =>
      (l.Plain ∧ l.assignedNames = []) ∧ (r.Plain ∧ r.assignedNames = []) ∧ n ≤ 2147483647

/-- The names are plain and the numbers have no sign, whatever the targets are. -/
def Legible : Instruction → Prop
  | remark | stop | jump .. => True
  | assign e | print e => e.Plain
  | input _ x => PlainName x
  | branch l _ r _ _ => l.Plain ∧ r.Plain

theorem Plain.legible
    {i : Instruction}
    (h : i.Plain) :
    i.Legible := by
  cases i with
  | remark | stop | jump => trivial
  | assign e => exact h.1
  | print e => exact h
  | input c x => exact h
  | branch l relation r c n => exact ⟨h.1.1, h.2.1.1⟩

/-- The text of a condition, with the space in front of it. -/
def renderCondition (l : Expr) (relation : Comparison) (r : Expr) : List Char :=
  ' ' :: (l.render.toList ++ ' ' :: relation.toChar :: ' ' :: r.render.toList)

theorem toList_space_append
    (s : String) :
    (" " ++ s).toList = ' ' :: s.toList := by
  rw [String.toList_append]
  rfl

theorem toList_renderClause_assign
    (e : Expr) :
    (assign e).renderClause.toList = ' ' :: e.render.toList :=
  toList_space_append e.render

theorem toList_renderClause_print
    (e : Expr) :
    (print e).renderClause.toList = ' ' :: e.render.toList :=
  toList_space_append e.render

theorem toList_renderClause_input
    (c : Column) (x : Name) :
    (input c x).renderClause.toList = ' ' :: x.toList :=
  toList_space_append x

theorem toList_renderClause_jump
    (c : Column) (n : LineNumber) :
    (jump c n).renderClause.toList = ' ' :: (toString n).toList :=
  toList_space_append (toString n)

theorem toList_renderClause_branch
    (l r : Expr) (relation : Comparison) (c : Column) (n : LineNumber) :
    (branch l relation r c n).renderClause.toList =
      renderCondition l relation r ++ ' ' :: (Keyword.thenWord ++ ' ' :: (toString n).toList) := by
  have hClause : (branch l relation r c n).renderClause =
      " " ++ l.render ++ " " ++ String.singleton relation.toChar ++ " " ++ r.render ++ " " ++
        String.ofList Keyword.thenWord ++ " " ++ toString n := rfl
  simp [hClause, renderCondition]

theorem toList_render
    (i : Instruction) :
    i.render.toList = i.keyword.word ++ i.renderClause.toList := by
  simp [render, Keyword.render]

section Recognition

variable {w : List Char}

theorem not_infix_renderCondition
    {l r : Expr}
    (hw : w ∈ Keyword.words) (hl : l.Plain) (relation : Comparison) (hr : r.Plain) :
    ¬ w <:+: renderCondition l relation r := by
  have hSign : relation.toChar.isAlpha = false := by cases relation <;> rfl
  exact Expr.not_infix_cons hw rfl <| Expr.not_infix_spaced hw hSign
    (Expr.not_infix_render hw hl) (Expr.not_infix_render hw hr)

/-- The clause of a legible instruction has no keyword in it. -/
theorem not_infix_renderClause
    {i : Instruction}
    (h : i.Legible) (k : Keyword) :
    ¬ k.word <:+: i.renderClause.toList := by
  have hw := k.word_mem_words
  have hNotNil : k.word ≠ [] := (Keyword.isAlpha_of_mem_words _ hw).1
  cases i with
  | remark | stop =>
      change ¬ k.word <:+: "".toList
      simpa using hNotNil
  | assign e =>
      rw [toList_renderClause_assign]
      exact Expr.not_infix_cons hw rfl (Expr.not_infix_render hw h)
  | print e =>
      rw [toList_renderClause_print]
      exact Expr.not_infix_cons hw rfl (Expr.not_infix_render hw h)
  | input c x =>
      rw [toList_renderClause_input]
      exact Expr.not_infix_cons hw rfl (h.2 _ hw)
  | jump c n =>
      rw [toList_renderClause_jump]
      exact Expr.not_infix_cons hw rfl (Expr.not_infix_toString hw n)
  | branch l relation r c n =>
      obtain ⟨hl, hr⟩ := h
      rw [toList_renderClause_branch]
      exact Expr.not_infix_append_cons hw rfl (not_infix_renderCondition hw hl relation hr)
        (Expr.not_infix_append_cons hw rfl (Keyword.not_infix_thenWord k k.mem_all)
          (Expr.not_infix_toString hw n))

theorem head?_renderClause
    (i : Instruction) :
    ∀ c ∈ i.renderClause.toList.head?, c = ' ' := by
  cases i with
  | remark | stop => exact fun _ hc => nomatch hc
  | assign e => simp [toList_renderClause_assign]
  | print e => simp [toList_renderClause_print]
  | input c x => simp [toList_renderClause_input]
  | jump c n => simp [toList_renderClause_jump]
  | branch l relation r c n => simp [toList_renderClause_branch, renderCondition]

/-- The text of a legible instruction is recognised by its own keyword. -/
theorem classify?_of_legible
    {i : Instruction}
    (h : i.Legible) :
    Keyword.classify? (.whole i.render.toList) =
      some (i.keyword, ⟨i.keyword.word.length, i.renderClause.toList⟩) := by
  rw [toList_render]
  apply Keyword.classify?_of_clause?
  · -- an `IF` needs its `THEN`, and the printer writes one
    have hThen : ¬ (i.keyword = .branch ∧ ¬ Text.occursIn Keyword.thenWord
        (i.keyword.word ++ i.renderClause.toList)) := by
      rintro ⟨hBranch, hNone⟩
      rw [Text.occursIn_iff] at hNone
      cases i with
      | branch l relation r c n =>
          rw [toList_renderClause_branch] at hNone
          exact hNone ⟨Keyword.branch.word ++ renderCondition l relation r ++ [' '],
            ' ' :: (toString n).toList, by simp [keyword]⟩
      | remark | assign | print | input | stop | jump => contradiction
    rw [Keyword.clause?, Fragment.whole, if_neg hThen, Fragment.cutAt?, Text.cutAt?_append]
    simp
  · -- another keyword would occur in this one, or in the clause behind the blank
    intro k hOther
    have hHead : ∀ c ∈ i.renderClause.toList.head?, c ∉ k.word := by
      intro c hc
      rw [head?_renderClause i c hc]
      exact Keyword.notMem_of_mem_words k.word_mem_words rfl
    rw [Keyword.clause?_eq_none_iff, Fragment.whole, Text.infix_append_iff_of_head hHead]
    rintro ⟨hWord | hClause, _⟩
    · exact Keyword.not_infix_word i.keyword i.keyword.mem_all k k.mem_all hOther hWord
    · exact not_infix_renderClause h k hClause

theorem classify?_render
    {i : Instruction}
    (h : i.Plain) :
    Keyword.classify? (.whole i.render.toList) =
      some (i.keyword, ⟨i.keyword.word.length, i.renderClause.toList⟩) :=
  classify?_of_legible h.legible

end Recognition

section Clauses

variable {before after : List Char}

/-- White space around the text of an expression does not matter. -/
theorem exists_clauseExpr_render
    {e : Expr}
    (h : e.Plain) (offset : Nat)
    (hBefore : before.all Text.isWhiteSpace) (hAfter : after.all Text.isWhiteSpace) :
    ∃ e', clauseExpr ⟨offset, before ++ (e.render.toList ++ after)⟩ = .ok e' ∧
      e'.eraseColumns = e.eraseColumns := by
  have hSpells : Expr.Spells (Expr.significant e.render.toList) e :=
    (Expr.spellsAt_render h).loosen e.level_pos
  rw [clauseExpr, Fragment.trim, Text.trim_append hBefore (Expr.solid_render h) hAfter]
  exact Expr.exists_parse_of_spells _ hSpells

theorem exists_clauseExpr_space
    {e : Expr}
    (h : e.Plain) (offset : Nat) :
    ∃ e', clauseExpr ⟨offset, ' ' :: e.render.toList⟩ = .ok e' ∧
      e'.eraseColumns = e.eraseColumns := by
  have hParse : ∃ e', clauseExpr ⟨offset, [' '] ++ (e.render.toList ++ [])⟩ = .ok e' ∧
      e'.eraseColumns = e.eraseColumns :=
    exists_clauseExpr_render h offset rfl rfl
  rwa [List.append_nil, List.singleton_append] at hParse

theorem exists_clauseExpr_spaces
    {e : Expr}
    (h : e.Plain) (offset : Nat) :
    ∃ e', clauseExpr ⟨offset, ' ' :: (e.render.toList ++ [' '])⟩ = .ok e' ∧
      e'.eraseColumns = e.eraseColumns := by
  have hParse : ∃ e', clauseExpr ⟨offset, [' '] ++ (e.render.toList ++ [' '])⟩ = .ok e' ∧
      e'.eraseColumns = e.eraseColumns :=
    exists_clauseExpr_render h offset rfl rfl
  rwa [List.singleton_append] at hParse

theorem eq_integer_of_eraseColumns
    {e : Expr} {c : Column} {v : Value}
    (h : e.eraseColumns = (Expr.integer c v).eraseColumns) :
    ∃ d, e = .integer d v := by
  cases e with
  | integer d w => exact ⟨d, by simpa using h⟩
  | var | negation | binary | assign => simp at h

theorem eq_assign_of_eraseColumns
    {e r : Expr} {c : Column} {x : Name}
    (h : e.eraseColumns = (Expr.assign c x r).eraseColumns) :
    ∃ d r', e = .assign d x r' ∧ r'.eraseColumns = r.eraseColumns := by
  cases e with
  | assign d y r' =>
      simp only [Expr.eraseColumns_assign, Expr.assign.injEq, true_and] at h
      exact ⟨d, r', by rw [h.1], h.2⟩
  | integer | var | negation | binary => simp at h

/-- A number that is a line number is read as one. -/
theorem exists_parseTarget_toString
    {n : LineNumber}
    (h : n ≤ 2147483647) (offset : Nat) :
    ∃ c, parseTarget ⟨offset, ' ' :: (toString n).toList⟩ = .ok (c, n) := by
  have hRange : InRange n := ⟨by omega, Int.ofNat_le.mpr h⟩
  have hPlain : (Expr.integer ⟨0, 0⟩ ⟨n, hRange⟩).Plain := Int.natCast_nonneg n
  obtain ⟨e, hParse, hErase⟩ := exists_clauseExpr_space hPlain offset
  obtain ⟨c, rfl⟩ := eq_integer_of_eraseColumns hErase
  rw [Expr.render_integer hPlain, Int.toNat_natCast] at hParse
  refine ⟨c, ?_⟩
  rw [parseTarget, hParse]
  simp [bind, Except.bind]

theorem ofChar?_of_mem_spaces
    {e : Expr}
    (h : e.Plain ∧ e.assignedNames = []) :
    ∀ c ∈ ' ' :: (e.render.toList ++ [' ']), Comparison.ofChar? c = none := by
  simp only [List.forall_mem_cons, List.forall_mem_append]
  exact ⟨rfl, Expr.ofChar?_of_mem_render h.1 h.2, rfl, List.forall_mem_nil _⟩

/-- A condition is cut at the relation sign that the printer wrote. -/
theorem exists_cutCondition_render
    {l r : Expr}
    (hl : l.Plain ∧ l.assignedNames = []) (relation : Comparison)
    (hr : r.Plain ∧ r.assignedNames = []) (offset : Nat) :
    ∃ offset', cutCondition ⟨offset, renderCondition l relation r ++ [' ']⟩ =
      .ok (⟨offset, ' ' :: (l.render.toList ++ [' '])⟩, relation,
        ⟨offset', ' ' :: (r.render.toList ++ [' '])⟩) := by
  have hText : renderCondition l relation r ++ [' '] = ' ' :: (l.render.toList ++ [' ']) ++
      relation.toChar :: (' ' :: (r.render.toList ++ [' '])) := by
    simp [renderCondition]
  have hSign : Comparison.ofChar? relation.toChar = some relation :=
    Comparison.ofChar?_eq_some_iff.mpr rfl
  have hOnlyOne : ¬ ((' ' :: (r.render.toList ++ [' '])).any
      fun c => (Comparison.ofChar? c).isSome) = true := by
    rw [List.any_eq_true]
    rintro ⟨c, hc, hSome⟩
    rw [ofChar?_of_mem_spaces hr c hc] at hSome
    contradiction
  refine ⟨offset + (' ' :: (l.render.toList ++ [' '])).length + 1, ?_⟩
  rw [cutCondition, Fragment.cutWhere?, hText,
    Text.cutWhere?_append_cons (ofChar?_of_mem_spaces hl) hSign]
  exact if_neg hOnlyOne

/-- The clause of a branch is cut at the `THEN` that the printer wrote. -/
theorem cutAt?_renderClause_branch
    {l r : Expr}
    (hl : l.Plain) (relation : Comparison) (hr : r.Plain) (n : LineNumber) (offset : Nat) :
    ∃ offset', Fragment.cutAt? Keyword.thenWord
      ⟨offset, renderCondition l relation r ++
        ' ' :: (Keyword.thenWord ++ ' ' :: (toString n).toList)⟩ =
      some (⟨offset, renderCondition l relation r ++ [' ']⟩,
        ⟨offset', ' ' :: (toString n).toList⟩) := by
  have hw : Keyword.thenWord ∈ Keyword.words := List.mem_cons_self
  have hBlank : ' ' ∉ Keyword.thenWord := by decide
  have hCut : ∀ rest, Text.cutAt? Keyword.thenWord
      (renderCondition l relation r ++ ' ' :: (Keyword.thenWord ++ rest)) =
        some (renderCondition l relation r ++ [' '], rest) := fun rest =>
    Text.cutAt?_append_cons hBlank (List.cons_ne_nil _ _)
      (not_infix_renderCondition hw hl relation hr)
  refine ⟨offset + (renderCondition l relation r ++ [' ']).length + Keyword.thenWord.length, ?_⟩
  rw [Fragment.cutAt?, hCut]
  rfl

theorem exists_parseBranch_render
    {l r : Expr} {n : LineNumber}
    (hl : l.Plain ∧ l.assignedNames = []) (relation : Comparison)
    (hr : r.Plain ∧ r.assignedNames = []) (hn : n ≤ 2147483647) (offset : Nat) :
    ∃ l' r' c, parseBranch ⟨offset, renderCondition l relation r ++
        ' ' :: (Keyword.thenWord ++ ' ' :: (toString n).toList)⟩ =
      .ok (.branch l' relation r' c n) ∧
      l'.eraseColumns = l.eraseColumns ∧ r'.eraseColumns = r.eraseColumns := by
  obtain ⟨targetOffset, hThen⟩ := cutAt?_renderClause_branch hl.1 relation hr.1 n offset
  obtain ⟨c, hTarget⟩ := exists_parseTarget_toString hn targetOffset
  obtain ⟨rightOffset, hSign⟩ := exists_cutCondition_render hl relation hr offset
  obtain ⟨l', hLeft, hEraseL⟩ := exists_clauseExpr_spaces hl.1 offset
  obtain ⟨r', hRight, hEraseR⟩ := exists_clauseExpr_spaces hr.1 rightOffset
  refine ⟨l', r', c, ?_, hEraseL, hEraseR⟩
  rw [parseBranch, hThen]
  simp only [hTarget, hSign, hLeft, hRight, bind, Except.bind]

/-- The clause of a plain instruction is parsed to it, up to columns. -/
theorem exists_ofClause_render
    {i : Instruction}
    (h : i.Plain) (offset : Nat) :
    ∃ i', ofClause i.keyword ⟨offset, i.renderClause.toList⟩ = .ok i' ∧
      i'.eraseColumns = i.eraseColumns := by
  cases i with
  | remark | stop => exact ⟨_, rfl, rfl⟩
  | assign e =>
      obtain ⟨hPlain, c, x, rhs, rfl⟩ := h
      obtain ⟨e', hParse, hErase⟩ := exists_clauseExpr_space hPlain offset
      obtain ⟨d, rhs', rfl, hRight⟩ := eq_assign_of_eraseColumns hErase
      refine ⟨.assign (.assign d x rhs'), ?_, by simp [eraseColumns, hRight]⟩
      rw [toList_renderClause_assign, keyword, ofClause, parseAssign, hParse]
      rfl
  | print e =>
      obtain ⟨e', hParse, hErase⟩ := exists_clauseExpr_space h offset
      refine ⟨.print e', ?_, by simp [eraseColumns, hErase]⟩
      rw [toList_renderClause_print, keyword, ofClause, hParse]
      rfl
  | input c x =>
      have hPlain : (Expr.var c x).Plain := h
      obtain ⟨e', hParse, hErase⟩ := exists_clauseExpr_space hPlain offset
      obtain ⟨d, rfl⟩ := Expr.eq_var_of_eraseColumns hErase
      rw [Expr.render_var] at hParse
      refine ⟨.input d x, ?_, rfl⟩
      rw [toList_renderClause_input, keyword, ofClause, parseInput, hParse]
      rfl
  | jump c n =>
      obtain ⟨d, hTarget⟩ := exists_parseTarget_toString h offset
      refine ⟨.jump d n, ?_, rfl⟩
      rw [toList_renderClause_jump, keyword, ofClause, hTarget]
      rfl
  | branch l relation r c n =>
      obtain ⟨hl, hr, hn⟩ := h
      obtain ⟨l', r', d, hParse, hEraseL, hEraseR⟩ :=
        exists_parseBranch_render hl relation hr hn offset
      refine ⟨.branch l' relation r' d n, ?_, by simp [eraseColumns, hEraseL, hEraseR]⟩
      rw [toList_renderClause_branch]
      exact hParse

end Clauses

/-- The text of a legible instruction has no white space at its ends. -/
theorem solid_of_legible
    {i : Instruction}
    (h : i.Legible) :
    Text.Solid i.render.toList := by
  have hWord : Text.Solid i.keyword.word := by
    have hw := Keyword.isAlpha_of_mem_words _ i.keyword.word_mem_words
    refine Text.solid_of_forall hw.1 ?_
    intro c hc
    exact isWhiteSpace_of_isNameChar (by simp [Token.isNameChar, hw.2 c hc])
  have hSpaced : ∀ text, Text.Solid text → Text.Solid (i.keyword.word ++ ' ' :: text) := by
    intro text hText
    simpa using hWord.append [' '] hText
  rw [toList_render]
  cases i with
  | remark | stop =>
      change Text.Solid (_ ++ "".toList)
      simpa using hWord
  | assign e =>
      rw [toList_renderClause_assign]
      exact hSpaced _ (Expr.solid_render h)
  | print e =>
      rw [toList_renderClause_print]
      exact hSpaced _ (Expr.solid_render h)
  | input c x =>
      rw [toList_renderClause_input]
      exact hSpaced _ (solid_name h.1)
  | jump c n =>
      rw [toList_renderClause_jump]
      exact hSpaced _ (solid_toString n)
  | branch l relation r c n =>
      rw [toList_renderClause_branch]
      have hEnds := hWord.append (renderCondition l relation r ++
        ' ' :: (Keyword.thenWord ++ [' '])) (solid_toString n)
      simpa using hEnds

theorem solid_render
    {i : Instruction}
    (h : i.Plain) :
    Text.Solid i.render.toList :=
  solid_of_legible h.legible

theorem plain_of_mem_exprs
    {i : Instruction} {e : Expr}
    (h : i.Plain) (he : e ∈ i.exprs) :
    e.Plain := by
  cases i with
  | remark | stop | input | jump => simp [exprs] at he
  | assign e' =>
      obtain rfl : e = e' := by simpa [exprs] using he
      exact h.1
  | print e' =>
      obtain rfl : e = e' := by simpa [exprs] using he
      exact h
  | branch l relation r c n =>
      obtain rfl | rfl : e = l ∨ e = r := by simpa [exprs] using he
      · exact h.1.1
      · exact h.2.1.1

/-- What is written for a plain instruction is read as that instruction, up to columns.  No
expression in it could be written with fewer tokens. -/
theorem parse_render
    {i : Instruction}
    (h : i.Plain) :
    (∃ s, Statement.parse i.render = .ok s ∧ s.instruction.eraseColumns = i.eraseColumns ∧
      s.text = i.render) ∧
    ∀ e ∈ i.exprs, ∀ ts, Expr.Spells ts e →
      (Expr.significant e.render.toList).length ≤ ts.length := by
  obtain ⟨i', hClause, hErase⟩ := exists_ofClause_render h i.keyword.word.length
  have hParse : parse i.render.toList = .ok i' := by
    rw [parse, classify?_render h]
    exact hClause
  let s : Statement := ⟨i.render, i', (solid_render h).trim_eq, hParse⟩
  refine ⟨⟨s, s.parse_text, hErase, rfl⟩, ?_⟩
  intro e he ts hSpells
  exact Expr.length_significant_render_le (plain_of_mem_exprs h he) hSpells

/-- A condition with names that nearly are keywords, and with parentheses that it needs. -/
theorem parse_render_branch :
    ∃ s, Statement.parse "IF -(REN + 1) * TH_2 < 0 THEN 10" = .ok s ∧
      s.instruction.eraseColumns =
        branch
          (.binary ⟨0, 0⟩ .multiply
            (.negation ⟨0, 0⟩
              (.binary ⟨0, 0⟩ .add (.var ⟨0, 0⟩ "REN") (.integer ⟨0, 0⟩ ⟨1, by decide⟩)))
            (.var ⟨0, 0⟩ "TH_2"))
          .less (.integer ⟨0, 0⟩ ⟨0, by decide⟩) ⟨0, 0⟩ 10 := by
  have hRen : PlainName "REN" :=
    ⟨⟨'R', ['E', 'N'], rfl, rfl, List.all_eq_true.mp rfl⟩, by decide +kernel⟩
  have hTh : PlainName "TH_2" :=
    ⟨⟨'T', ['H', '_', '2'], rfl, rfl, List.all_eq_true.mp rfl⟩, by decide +kernel⟩
  let l : Expr :=
    .binary ⟨0, 0⟩ .multiply
      (.negation ⟨0, 0⟩
        (.binary ⟨0, 0⟩ .add (.var ⟨0, 0⟩ "REN") (.integer ⟨0, 0⟩ ⟨1, by decide⟩)))
      (.var ⟨0, 0⟩ "TH_2")
  let r : Expr := .integer ⟨0, 0⟩ ⟨0, by decide⟩
  have hl : l.Plain := ⟨⟨hRen, Int.one_nonneg⟩, hTh⟩
  have hr : r.Plain := Int.le_refl 0
  have hPlain : (branch l .less r ⟨0, 0⟩ 10).Plain := ⟨⟨hl, rfl⟩, ⟨hr, rfl⟩, by decide⟩
  have hText : (branch l .less r ⟨0, 0⟩ 10).render = "IF -(REN + 1) * TH_2 < 0 THEN 10" := by
    decide +kernel
  obtain ⟨⟨s, hParse, hErase, _⟩, _⟩ := parse_render hPlain
  rw [hText] at hParse
  exact ⟨s, hParse, hErase⟩

end Instruction
end IntegerBasic
