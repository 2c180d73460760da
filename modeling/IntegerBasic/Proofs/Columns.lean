import IntegerBasic.Expr.Printer
import IntegerBasic.Proofs.Clauses
import IntegerBasic.Proofs.GrammarEquivalence
import IntegerBasic.Proofs.TokenPlaces

/-!
# Columns point at the source

**Input.**  Any text that spells a statement.

**Definitions.**  `PointsInto text` says of a tree, and of an instruction, that in the columns of
each node stands the node's own token: its digits, its name or its sign.

**Argument.**  A tree is derived from lexemes, and takes its columns from some of them in their
order (`Derives.walk_sublist`).  The lexemes of a clause stand in the text where their tokens are,
since a clause stays within the text however it is cut and trimmed; and the clauses of a condition
and of its target follow each other.  So no two nodes share a character.

**Results.**
* `placed_of_clauseExpr`: where the columns of a clause's expression are.
* `placed_of_parse`: the same for all columns of an instruction.
* `columns_point_at_source`: the statement of a text.
-/

namespace IntegerBasic

/-- A string of digits stands in the columns, and it denotes the number. -/
def Column.ShowsNumeral (c : Column) (text : List Char) (i : Int) : Prop :=
  ∃ digits, c.Shows text digits ∧ digits.all Char.isDigit ∧ (Nat.ofDigitChars 10 digits 0 : Int) = i

theorem Operator.toChar_of_binaryOp?
    {sign : Operator} {op : BinaryOp}
    (h : sign.binaryOp? = some op) :
    sign.toChar = op.toChar := by
  cases sign <;> simp only [Operator.binaryOp?, reduceCtorEq, Option.some_inj] at h <;>
    subst h <;> rfl

namespace Expr

/-- In the columns of each node stands the node's own token. -/
def PointsInto (text : List Char) : Expr → Prop
  | integer c v => c.ShowsNumeral text v.toInt
  | var c x => c.Shows text x.toList
  | negation c e => c.Shows text ['-'] ∧ e.PointsInto text
  | binary c op l r => l.PointsInto text ∧ c.Shows text [op.toChar] ∧ r.PointsInto text
  | assign c _ e => c.Shows text ['='] ∧ e.PointsInto text

/-- The columns of a tree are those of some lexemes that spell it, in their order. -/
theorem Derives.walk_sublist
    {level : Level} {ls : List Lexeme} {e : Expr}
    (h : Derives level ls e) :
    e.walk.Sublist (ls.map Lexeme.column) := by
  induction h with
  | assignOfAdditive _ ih | additiveOfMultiplicative _ ih | multiplicativeOfUnary _ ih
  | unaryOfPrimary _ ih => exact ih
  | @assign ls rs c _ _ _ _ _ _ ihr =>
      rw [List.map_append, List.map_cons]
      exact (ihr.cons_cons c).trans (List.sublist_append_right _ _)
  | additive _ _ _ ihl ihr | multiplicative _ _ _ ihl ihr =>
      rw [List.map_append, List.map_cons]
      exact ihl.append (ihr.cons_cons _)
  | @unary _ c _ _ ih => exact ih.cons_cons c
  | name | number => exact List.Sublist.refl _
  | @group ls c _ _ _ ih =>
      rw [List.map_append, List.map_cons]
      exact (ih.cons c).trans (List.sublist_append_left _ _)

/-- The lexeme is a well-formed token that stands in its columns. -/
def Stands (text : List Char) (l : Lexeme) : Prop :=
  l.token.WellFormed ∧ l.column.Shows text l.token.chars

theorem pointsInto_binary
    {text : List Char} {ls rs : List Lexeme} {c : Column} {sign : Operator} {op : BinaryOp}
    {l r : Expr}
    (hSign : sign.binaryOp? = some op)
    (hAll : ∀ l ∈ ls ++ ⟨.operator sign, c⟩ :: rs, Stands text l)
    (hl : (∀ l ∈ ls, Stands text l) → l.PointsInto text)
    (hr : (∀ l ∈ rs, Stands text l) → r.PointsInto text) :
    (binary c op l r).PointsInto text := by
  simp only [List.forall_mem_append, List.forall_mem_cons] at hAll
  obtain ⟨hLeft, ⟨_, hOwn⟩, hRight⟩ := hAll
  refine ⟨hl hLeft, ?_, hr hRight⟩
  rw [← Operator.toChar_of_binaryOp? hSign]
  exact hOwn

/-- A tree points at the lexemes that spell it. -/
theorem Derives.pointsInto
    {text : List Char} {level : Level} {ls : List Lexeme} {e : Expr}
    (h : Derives level ls e) (hAll : ∀ l ∈ ls, Stands text l) :
    e.PointsInto text := by
  induction h with
  | assignOfAdditive _ ih | additiveOfMultiplicative _ ih | multiplicativeOfUnary _ ih
  | unaryOfPrimary _ ih => exact ih hAll
  | assign _ _ _ ihr =>
      simp only [List.forall_mem_append, List.forall_mem_cons] at hAll
      obtain ⟨_, ⟨_, hOwn⟩, hRight⟩ := hAll
      exact ⟨hOwn, ihr hRight⟩
  | additive hSign _ _ ihl ihr =>
      exact pointsInto_binary (binaryOp?_of_mem_sums hSign).1 hAll ihl ihr
  | multiplicative hSign _ _ ihl ihr =>
      exact pointsInto_binary (binaryOp?_of_mem_products hSign).1 hAll ihl ihr
  | unary _ ih =>
      rw [List.forall_mem_cons] at hAll
      exact ⟨hAll.1.2, ih hAll.2⟩
  | name =>
      rw [List.forall_mem_singleton] at hAll
      exact hAll.2
  | @number c digits v _ hValue =>
      rw [List.forall_mem_singleton] at hAll
      obtain ⟨⟨_, hDigits⟩, hOwn⟩ := hAll
      exact ⟨digits.toList, hOwn, List.all_eq_true.mpr hDigits, hValue.symm⟩
  | group _ ih =>
      simp only [List.forall_mem_append, List.forall_mem_cons] at hAll
      exact ih hAll.1.2

/-- The tree of a part of the text: it points at its tokens, which stand in this part in the order
in which the tree is walked. -/
structure Placed (text : List Char) (part : Fragment) (e : Expr) : Prop where
  points : e.PointsInto text
  ordered : e.walk.Pairwise Column.Before
  inside : ∀ c ∈ e.walk, part.offset ≤ c.start ∧ c.stop ≤ part.stop

/-- What stands in a part stands before what stands in a later part. -/
theorem Placed.before
    {text : List Char} {part part' : Fragment} {l r : Expr}
    (hl : l.Placed text part) (hr : r.Placed text part') (hParts : part.stop ≤ part'.offset) :
    ∀ a ∈ l.walk, ∀ b ∈ r.walk, a.Before b := by
  intro a ha b hb
  have hStop := (hl.inside a ha).2
  have hStart := (hr.inside b hb).1
  rw [Column.Before]
  omega

/-- A tree that was parsed is in its place. -/
theorem placed_of_parse
    {text : List Char} {f : Fragment} {e : Expr}
    (hWithin : f.Within text) (h : parse f = .ok e) :
    e.Placed text f := by
  have hDerives : Derives .assign (lexemes f.offset (lex f.chars)) e := derives_of_ofLexemes h
  constructor
  · apply hDerives.pointsInto
    intro l hl
    exact ⟨wellFormed_of_mem_lex (token_mem_of_mem_lexemes hl), shows_of_mem_lexemes hWithin hl⟩
  · exact (pairwise_before_lexemes f.offset (lex f.chars)).sublist hDerives.walk_sublist
  · intro c hc
    obtain ⟨l, hl, rfl⟩ := List.mem_map.mp (hDerives.walk_sublist.subset hc)
    have hInside := inside_of_mem_lexemes hl
    rwa [length_flatMap_lex] at hInside

end Expr

namespace Fragment

theorem trim_inside
    (f : Fragment) :
    f.offset ≤ f.trim.offset ∧ f.trim.stop ≤ f.stop := by
  have hStart := congrArg List.length (Text.eq_takeWhile_append_trimStart f.chars)
  have hEnd := congrArg List.length (Text.eq_trimEnd_append (Text.trimStart f.chars))
  rw [List.length_append] at hStart hEnd
  simp only [stop, trim, Text.trim]
  omega

/-- The part before a word ends where the word starts, and the part after it starts behind it. -/
theorem stop_le_of_cutAt?
    {f before after : Fragment} {word : List Char}
    (h : f.cutAt? word = some (before, after)) :
    before.stop ≤ after.offset := by
  rw [cutAt?, Option.map_eq_some_iff] at h
  obtain ⟨⟨b, a⟩, _, hPair⟩ := h
  rw [Prod.mk.injEq] at hPair
  obtain ⟨rfl, rfl⟩ := hPair
  exact Nat.le_add_right _ word.length

/-- The parts around a character follow each other, and the second one reaches to the end. -/
theorem stop_le_of_cutWhere?
    {β : Type} {p : Char → Option β} {f before after : Fragment} {b : β}
    (h : f.cutWhere? p = some (before, b, after)) :
    before.stop ≤ after.offset ∧ after.stop = f.stop := by
  rw [cutWhere?, Option.map_eq_some_iff] at h
  obtain ⟨⟨l, b', r⟩, hText, hTriple⟩ := h
  simp only [Prod.mk.injEq] at hTriple
  obtain ⟨rfl, rfl, rfl⟩ := hTriple
  obtain ⟨c, _, hChars⟩ := Text.eq_append_of_cutWhere? hText
  have hLength := congrArg List.length hChars
  simp only [List.length_append, List.length_cons] at hLength
  simp only [stop]
  omega

end Fragment

namespace Instruction

/-- In the columns of each part stands the part's own token. -/
def PointsInto (text : List Char) : Instruction → Prop
  | remark | stop => True
  | assign e | print e => e.PointsInto text
  | input c x => c.Shows text x.toList
  | jump c n => c.ShowsNumeral text n
  | branch l _ r c n => l.PointsInto text ∧ r.PointsInto text ∧ c.ShowsNumeral text n

/-- What stands where is said of each part; the parts follow each other in the text. -/
structure Placed (text : List Char) (i : Instruction) : Prop where
  points : i.PointsInto text
  ordered : i.walk.Pairwise Column.Before

section Clauses

variable {text : List Char} {clause : Fragment}

/-- The columns of a clause's expression stand in the clause. -/
theorem placed_of_clauseExpr
    {e : Expr}
    (hWithin : clause.Within text) (h : clauseExpr clause = .ok e) :
    e.Placed text clause := by
  have hTrimmed : e.Placed text clause.trim := Expr.placed_of_parse hWithin.trim h
  obtain ⟨hStart, hStop⟩ := clause.trim_inside
  refine ⟨hTrimmed.points, hTrimmed.ordered, ?_⟩
  intro c hc
  obtain ⟨hLower, hUpper⟩ := hTrimmed.inside c hc
  exact ⟨Nat.le_trans hStart hLower, Nat.le_trans hUpper hStop⟩

theorem placed_of_parseAssign
    {i : Instruction}
    (hWithin : clause.Within text) (h : parseAssign clause = .ok i) :
    i.Placed text := by
  rw [parseAssign, bind_eq_ok_iff] at h
  obtain ⟨e, hClause, h⟩ := h
  have hPlaced := placed_of_clauseExpr hWithin hClause
  cases e with
  | assign c x rhs =>
      cases h
      exact ⟨hPlaced.points, hPlaced.ordered⟩
  | integer | var | negation | binary => contradiction

theorem placed_of_parseInput
    {i : Instruction}
    (hWithin : clause.Within text) (h : parseInput clause = .ok i) :
    i.Placed text := by
  rw [parseInput, bind_eq_ok_iff] at h
  obtain ⟨e, hClause, h⟩ := h
  have hPlaced := placed_of_clauseExpr hWithin hClause
  cases e with
  | var c x =>
      cases h
      exact ⟨hPlaced.points, hPlaced.ordered⟩
  | integer | negation | binary | assign => contradiction

/-- The target of a jump is a number in its place. -/
theorem placed_of_parseTarget
    {c : Column} {n : LineNumber}
    (hWithin : clause.Within text) (h : parseTarget clause = .ok (c, n)) :
    c.ShowsNumeral text n ∧ clause.offset ≤ c.start := by
  obtain ⟨v, hClause, hValue⟩ := exists_integer_of_parseTarget h
  have hPlaced := placed_of_clauseExpr hWithin hClause
  rw [← hValue]
  exact ⟨hPlaced.points, (hPlaced.inside c List.mem_cons_self).1⟩

theorem placed_of_parseBranch
    {i : Instruction}
    (hWithin : clause.Within text) (h : parseBranch clause = .ok i) :
    i.Placed text := by
  rw [parseBranch] at h
  cases hThen : clause.cutAt? Keyword.thenWord with
  | none =>
      simp only [hThen] at h
      contradiction
  | some pieces =>
      obtain ⟨condition, targetClause⟩ := pieces
      simp only [hThen, bind_eq_ok_iff] at h
      obtain ⟨⟨c, n⟩, hTarget, ⟨lhs, relation, rhs⟩, hCondition, l, hLeft, r, hRight, h⟩ := h
      cases h
      have hCut := cutWhere?_of_cutCondition hCondition
      obtain ⟨hWithinCondition, hWithinTarget⟩ := hWithin.of_cutAt? hThen
      obtain ⟨hWithinLeft, hWithinRight⟩ := hWithinCondition.of_cutWhere? hCut
      have hPlacedLeft := placed_of_clauseExpr hWithinLeft hLeft
      have hPlacedRight := placed_of_clauseExpr hWithinRight hRight
      obtain ⟨hPoints, hBehind⟩ := placed_of_parseTarget hWithinTarget hTarget
      have hStops := Fragment.stop_le_of_cutAt? hThen
      obtain ⟨hSign, hEnd⟩ := Fragment.stop_le_of_cutWhere? hCut
      refine ⟨⟨hPlacedLeft.points, hPlacedRight.points, hPoints⟩, ?_⟩
      have hOperands : (l.walk ++ r.walk).Pairwise Column.Before :=
        List.pairwise_append.mpr
          ⟨hPlacedLeft.ordered, hPlacedRight.ordered, hPlacedLeft.before hPlacedRight hSign⟩
      have hLast : ∀ a ∈ l.walk ++ r.walk, a.Before c := by
        intro a ha
        have hStop : a.stop ≤ rhs.stop := by
          rcases List.mem_append.mp ha with ha | ha
          · have hLeftStop := (hPlacedLeft.inside a ha).2
            have hRightStop : rhs.offset ≤ rhs.stop := Nat.le_add_right _ _
            omega
          · exact (hPlacedRight.inside a ha).2
        rw [Column.Before]
        omega
      exact List.pairwise_append.mpr
        ⟨hOperands, List.pairwise_singleton _ c, by simpa using hLast⟩

/-- All columns of an instruction are in their places. -/
theorem placed_of_ofClause
    {k : Keyword} {i : Instruction}
    (hWithin : clause.Within text) (h : ofClause k clause = .ok i) :
    i.Placed text := by
  cases k with
  | remark | stop =>
      cases h
      exact ⟨trivial, List.Pairwise.nil⟩
  | assign => exact placed_of_parseAssign hWithin h
  | print =>
      rw [ofClause, bind_eq_ok_iff] at h
      obtain ⟨e, hClause, h⟩ := h
      cases h
      have hPlaced := placed_of_clauseExpr hWithin hClause
      exact ⟨hPlaced.points, hPlaced.ordered⟩
  | input => exact placed_of_parseInput hWithin h
  | jump =>
      rw [ofClause, bind_eq_ok_iff] at h
      obtain ⟨⟨c, n⟩, hTarget, h⟩ := h
      cases h
      exact ⟨(placed_of_parseTarget hWithin hTarget).1, List.pairwise_singleton _ c⟩
  | branch => exact placed_of_parseBranch hWithin h

end Clauses

theorem placed_of_parse
    {text : List Char} {i : Instruction}
    (h : parse text = .ok i) :
    i.Placed text := by
  rw [parse] at h
  split at h
  · contradiction
  · next k clause hClassify =>
      have hWithin := Keyword.within_of_classify? (Fragment.within_whole text) hClassify
      exact placed_of_ofClause hWithin h

end Instruction

namespace Statement

/-- In the columns of each node of a statement stands the node's own token, and the columns stand
one after the other in the order in which the tree is walked. -/
theorem columns_point_at_source
    {source : String} {s : Statement}
    (h : parse source = .ok s) :
    s.text.toList = Text.trim source.toList ∧
    s.instruction.PointsInto s.text.toList ∧
    s.instruction.walk.Pairwise Column.Before ∧
    s.instruction.walk.Pairwise Column.Disjoint ∧
    (∀ l relation r c n, s.instruction = .branch l relation r c n →
      (∀ a ∈ l.walk, ∀ b ∈ r.walk, a.Before b) ∧
      (∀ a ∈ l.walk, a.Before c) ∧
      ∀ b ∈ r.walk, b.Before c) := by
  have hPlaced : s.instruction.Placed s.text.toList := Instruction.placed_of_parse s.spells
  refine ⟨(parse_eq_ok_iff.mp h).symm, hPlaced.points, hPlaced.ordered,
    hPlaced.ordered.imp Column.Before.disjoint, ?_⟩
  intro l relation r c n hBranch
  have hOrdered := hPlaced.ordered
  rw [hBranch, Instruction.walk, List.pairwise_append, List.pairwise_append] at hOrdered
  obtain ⟨⟨_, _, hOperands⟩, _, hTarget⟩ := hOrdered
  refine ⟨hOperands, ?_, ?_⟩
  · intro a ha
    exact hTarget a (List.mem_append_left _ ha) c List.mem_cons_self
  · intro b hb
    exact hTarget b (List.mem_append_right _ hb) c List.mem_cons_self

/-- Characters outside ASCII count as one each, and so does a tab. -/
theorem columns_point_at_source_branch :
    ∃ s, parse " №\tIF\u00a0(A1) < -02\u2003THEN\u3000010 " = .ok s ∧
      s.instruction.PointsInto s.text.toList ∧
      s.instruction.walk = [⟨6, 8⟩, ⟨12, 13⟩, ⟨13, 15⟩, ⟨21, 24⟩] := by
  let s : Statement :=
    { text := "№\tIF\u00a0(A1) < -02\u2003THEN\u3000010"
      instruction := .branch (.var ⟨6, 8⟩ "A1") .less
        (.negation ⟨12, 13⟩ (.integer ⟨13, 15⟩ ⟨2, by decide⟩)) ⟨21, 24⟩ 10
      trim_text := rfl
      spells := rfl }
  have hParse : parse " №\tIF\u00a0(A1) < -02\u2003THEN\u3000010 " = .ok s :=
    parse_eq_ok_iff.mpr (by decide +kernel)
  obtain ⟨_, hPoints, _⟩ := columns_point_at_source hParse
  exact ⟨s, hParse, hPoints, rfl⟩

end Statement

end IntegerBasic
