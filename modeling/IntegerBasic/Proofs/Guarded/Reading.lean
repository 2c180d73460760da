import IntegerBasic.Console.Pipe
import IntegerBasic.Line
import IntegerBasic.Proofs.Guarded.Expressions
import IntegerBasic.Proofs.Guarded.Slices
import IntegerBasic.Proofs.Occurrence
import IntegerBasic.Statement

/-!
# Reading statements and lines by byte offsets

**Definitions.**  Statements and lines are read once more, but every part of a text is sliced out of
the whole of it, from one byte offset to another.  The offsets are those of words and relation signs
that were found, with the sizes of what is to be passed over added to them: a keyword, `THEN`, a
relation sign, the white space a clause starts with, the digits of a line number.

**Argument.**  Along the way down to the clauses, each pair of offsets spans the fragment that is
read there.  So no slice crashes, and what is sliced out is that fragment.

**Results.**
* `clauseExpr_eq`, `branch_eq`, `instruction_eq`: clauses, branches and instructions.
* `statement_eq`, `line_eq`: to read by byte offsets is to read.
* `reading_never_crashes`: no text is cut where it cannot be.
-/

namespace IntegerBasic
namespace Guarded

/-- The part of a text between two byte offsets without the white space around it, and how many
characters of the text stand before it. -/
def clause (text : String) (start stop : Nat) : Guarded (String × Nat) := do
  let s ← slice text start stop
  let trimmed := String.ofList (Text.trimStart s.toList)
  let passed ← slice text 0 (start + (s.utf8ByteSize - trimmed.utf8ByteSize))
  .ok (String.ofList (Text.trimEnd trimmed.toList), passed.length)

/-- The expression that a clause spells. -/
def clauseExpr (text : String) (start stop : Nat) : Guarded Expr := do
  let (s, offset) ← clause text start stop
  parseExpr s offset

/-- The assignment of a `LET`. -/
def parseAssign (text : String) (start stop : Nat) : Guarded Instruction := do
  match ← clauseExpr text start stop with
  | .assign c x e => .ok (.assign (.assign c x e))
  | e => .error (SyntaxFault.expectedAssignment.failureIn e.column)

/-- The variable of an `INPUT`. -/
def parseInput (text : String) (start stop : Nat) : Guarded Instruction := do
  match ← clauseExpr text start stop with
  | .var c x => .ok (.input c x)
  | e => .error (SyntaxFault.expectedVariable.failureIn e.column)

/-- The target of a jump and its columns. -/
def parseTarget (text : String) (start stop : Nat) : Guarded (Column × LineNumber) := do
  match ← clauseExpr text start stop with
  | .integer c v =>
      if 0 ≤ v.toInt then .ok (c, v.toInt.toNat)
      else .error (SyntaxFault.expectedLineNumber.failureIn c)
  | e => .error (SyntaxFault.expectedLineNumber.failureIn e.column)

/-- The text of the word between the condition and the target of a branch. -/
def thenText : String :=
  String.ofList Keyword.thenWord

/-- The condition of a branch, its target being known.  It is cut at its only relation sign, which
takes one byte. -/
def branchTo (text : String) (start stop : Nat) (target : Column × LineNumber) :
    Guarded Instruction := do
  let condition ← slice text start stop
  match relations start condition.toList with
  | [] => .error SyntaxFault.noComparison.failure
  | [(position, relation)] => do
      let lhs ← clauseExpr text start position
      let rhs ← clauseExpr text (position + 1) stop
      .ok (.branch lhs relation rhs target.1 target.2)
  | _ => .error SyntaxFault.multipleComparisons.failure

/-- The condition and the target of an `IF`. -/
def branch (text : String) (start stop : Nat) : Guarded Instruction := do
  let rest ← slice text start stop
  match find? thenText rest with
  | none => .error SyntaxFault.expectedThen.failure
  | some i => do
      let target ← parseTarget text (start + i + thenText.utf8ByteSize) stop
      branchTo text start (start + i) target

/-- The instruction with a keyword and the clause it governs. -/
def ofClause (k : Keyword) (text : String) (start stop : Nat) : Guarded Instruction :=
  match k with
  | .remark => .ok .remark
  | .assign => parseAssign text start stop
  | .print => do .ok (.print (← clauseExpr text start stop))
  | .input => parseInput text start stop
  | .stop => .ok .stop
  | .jump => do
      let (column, target) ← parseTarget text start stop
      .ok (.jump column target)
  | .branch => branch text start stop

/-- The text of a keyword. -/
def spelling (k : Keyword) : String :=
  String.ofList k.word

/-- Whether a word occurs in a text. -/
def contains (text word : String) : Bool :=
  (find? word text).isSome

/-- Whether a text is recognised by a keyword. -/
def recognises (text : String) (k : Keyword) : Bool :=
  match k with
  | .branch => contains text (spelling .branch) && contains text thenText
  | k => contains text (spelling k)

/-- The byte offset past the first occurrence of a word. -/
def findEnd? (word text : String) : Option Nat :=
  (find? word text).map fun i => i + word.utf8ByteSize

/-- The instruction that a text spells. -/
def instruction (text : String) : Guarded Instruction :=
  match Keyword.all.find? (recognises text) with
  | none => .error SyntaxFault.unrecognizedStatement.failure
  | some k =>
      ofClause k text ((findEnd? (spelling k) text).getD text.utf8ByteSize) text.utf8ByteSize

section Clauses

variable {text : String} {start stop : Nat} {f : Fragment}

/-- What spans a fragment is cut down to what spans the fragment without white space. -/
theorem clause_eq
    (h : Spans text start stop f) :
    clause text start stop = .ok (String.ofList f.trim.chars, f.trim.offset) := by
  have hChars := Text.eq_takeWhile_append_trimStart f.chars
  obtain ⟨passed, hPassed, hLength⟩ := (h.drop hChars).exists_slice_before
  have hSize : (String.ofList f.chars).utf8ByteSize -
      (String.ofList (Text.trimStart f.chars)).utf8ByteSize =
        byteLength (f.chars.takeWhile Text.isWhiteSpace) := by
    have hSum := congrArg byteLength hChars
    rw [byteLength_append] at hSum
    change byteLength f.chars - byteLength (Text.trimStart f.chars) = _
    omega
  rw [clause, h.slice_eq, ok_bind]
  dsimp only
  rw [String.toList_ofList, hSize, hPassed, ok_bind, String.toList_ofList, hLength]
  rfl

theorem clauseExpr_eq
    (h : Spans text start stop f) :
    clauseExpr text start stop = safe (Instruction.clauseExpr f) := by
  rw [clauseExpr, clause_eq h]
  refine (parseExpr_eq _ _).trans ?_
  rw [String.toList_ofList]
  rfl

theorem parseAssign_eq
    (h : Spans text start stop f) :
    parseAssign text start stop = safe (Instruction.parseAssign f) := by
  rw [parseAssign, Instruction.parseAssign, clauseExpr_eq h, safe_bind]
  refine congrArg _ (funext fun e => ?_)
  cases e <;> rfl

theorem parseInput_eq
    (h : Spans text start stop f) :
    parseInput text start stop = safe (Instruction.parseInput f) := by
  rw [parseInput, Instruction.parseInput, clauseExpr_eq h, safe_bind]
  refine congrArg _ (funext fun e => ?_)
  cases e <;> rfl

theorem parseTarget_eq
    (h : Spans text start stop f) :
    parseTarget text start stop = safe (Instruction.parseTarget f) := by
  rw [parseTarget, Instruction.parseTarget, clauseExpr_eq h, safe_bind]
  refine congrArg _ (funext fun e => ?_)
  cases e with
  | integer c v =>
      dsimp only
      split <;> rfl
  | var | negation | binary | assign => rfl

end Clauses

section Branches

variable {text : String} {start stop : Nat} {f : Fragment}

theorem small_of_all
    {word : List Char}
    (h : (word.all fun c => c.utf8Size == 1) = true) :
    ∀ c ∈ word, c.utf8Size = 1 :=
  fun c hc => beq_iff_eq.mp (List.all_eq_true.mp h c hc)

theorem thenWord_small :
    ∀ c ∈ Keyword.thenWord, c.utf8Size = 1 :=
  small_of_all rfl

theorem word_small
    (k : Keyword) :
    ∀ c ∈ k.word, c.utf8Size = 1 := by
  apply small_of_all
  cases k <;> rfl

theorem word_ne_nil
    (k : Keyword) :
    k.word ≠ [] := by
  cases k <;> decide

/-- A condition is cut at the byte offset of its only relation sign. -/
theorem branchTo_eq
    (h : Spans text start stop f) (target : Column × LineNumber) :
    branchTo text start stop target = safe (do
      let (lhsClause, relation, rhsClause) ← Instruction.cutCondition f
      let lhs ← Instruction.clauseExpr lhsClause
      let rhs ← Instruction.clauseExpr rhsClause
      .ok (.branch lhs relation rhs target.1 target.2)) := by
  rw [branchTo, h.slice_eq, ok_bind, String.toList_ofList, Instruction.cutCondition]
  cases hCut : f.cutWhere? Comparison.ofChar? with
  | none =>
      rw [relations_of_cutWhere?_none start (Option.map_eq_none_iff.mp hCut)]
      rfl
  | some cut =>
      obtain ⟨lhs, relation, rhs⟩ := cut
      obtain ⟨hLhs, hRhs⟩ := h.of_cutWhere? hCut
      rw [relations_of_fragment start hCut]
      dsimp only
      cases hMore : relations (start + byteLength lhs.chars + 1) rhs.chars with
      | nil =>
          rw [relations_eq_nil_iff] at hMore
          rw [hMore, if_neg Bool.false_ne_true]
          change (clauseExpr text start _ >>= _) = safe (Instruction.clauseExpr lhs >>= _)
          rw [clauseExpr_eq hLhs, clauseExpr_eq hRhs, safe_bind]
          refine congrArg _ (funext fun l => ?_)
          rw [safe_bind]
          rfl
      | cons =>
          have hAny : rhs.chars.any (fun c => (Comparison.ofChar? c).isSome) = true := by
            rw [← Bool.not_eq_false, ← relations_eq_nil_iff (start + byteLength lhs.chars + 1), hMore]
            exact List.cons_ne_nil _ _
          rw [hAny, if_pos rfl]
          rfl

/-- A branch is cut at the byte offset of `THEN`, and its target is read first. -/
theorem branch_eq
    (h : Spans text start stop f) :
    branch text start stop = safe (Instruction.parseBranch f) := by
  rw [branch, h.slice_eq, ok_bind, thenText, find?_eq thenWord_small (by decide),
    Instruction.parseBranch]
  cases hCut : f.cutAt? Keyword.thenWord with
  | none => rfl
  | some cut =>
      obtain ⟨condition, target⟩ := cut
      obtain ⟨hCondition, hTarget⟩ := h.of_cutAt? hCut
      change (parseTarget text (start + byteLength condition.chars + byteLength Keyword.thenWord)
        stop >>= _) = safe (Instruction.parseTarget target >>= _)
      rw [parseTarget_eq hTarget, safe_bind]
      exact congrArg _ (funext (branchTo_eq hCondition))

end Branches

section Keywords

variable {text : String} {start stop : Nat} {f : Fragment}

theorem ofClause_eq
    (k : Keyword) (h : Spans text start stop f) :
    ofClause k text start stop = safe (Instruction.ofClause k f) := by
  cases k with
  | remark | stop => rfl
  | assign => exact parseAssign_eq h
  | input => exact parseInput_eq h
  | branch => exact branch_eq h
  | print =>
      rw [ofClause, Instruction.ofClause, clauseExpr_eq h, safe_bind]
      rfl
  | jump =>
      rw [ofClause, Instruction.ofClause, parseTarget_eq h, safe_bind]
      rfl

/-- A word that is found occurs. -/
theorem contains_eq
    {word : List Char} (text : String)
    (hWord : ∀ c ∈ word, c.utf8Size = 1) (hNonempty : word ≠ []) :
    contains text (String.ofList word) = Text.occursIn word text.toList := by
  have hFind := find?_eq hWord hNonempty (.whole text.toList)
  rw [Fragment.whole, String.ofList_toList] at hFind
  rw [contains, hFind, Option.isSome_map, Fragment.cutAt?, Option.isSome_map]
  rfl

/-- A text is recognised by the keywords that have a clause in it. -/
theorem recognises_eq
    (text : String) (k : Keyword) :
    recognises text k = (k.clause? (.whole text.toList)).isSome := by
  have hWord := contains_eq text (word_small k) (word_ne_nil k)
  have hThen := contains_eq text thenWord_small (by decide)
  have hClause : ((Fragment.whole text.toList).cutAt? k.word |>.map Prod.snd).isSome =
      Text.occursIn k.word text.toList := by
    rw [Option.isSome_map, Fragment.cutAt?, Option.isSome_map]
    rfl
  cases k with
  | branch =>
      rw [recognises, spelling, thenText, hWord, hThen, Keyword.clause?]
      by_cases hOccurs : Text.occursIn Keyword.thenWord text.toList = true
      · rw [hOccurs, Bool.and_true, if_neg fun h => h.2 hOccurs]
        exact hClause.symm
      · rw [if_pos ⟨rfl, hOccurs⟩, Bool.eq_false_iff.mpr hOccurs, Bool.and_false]
        rfl
  | remark | assign | print | input | stop | jump =>
      exact hWord.trans hClause.symm

/-- To find the first element with a value is to find the first with its value. -/
theorem find?_eq_map_findSome?
    {α β : Type} {p : α → Bool} {value? : α → Option β}
    (h : ∀ a, p a = (value? a).isSome) (as : List α) :
    as.find? p = (as.findSome? fun a => (value? a).map fun b => (a, b)).map Prod.fst := by
  induction as with
  | nil => rfl
  | cons a as ih =>
      rw [List.find?_cons, List.findSome?_cons, h]
      cases value? a with
      | none => exact ih
      | some b => rfl

/-- The clause of a keyword ranges from the end of the word to the end of the text. -/
theorem spans_clause?
    {k : Keyword} {c : Fragment}
    (h : k.clause? (.whole text.toList) = some c) :
    Spans text ((findEnd? (spelling k) text).getD text.utf8ByteSize) text.utf8ByteSize c := by
  rw [Keyword.clause?] at h
  split at h
  · cases h
  · obtain ⟨⟨before, after⟩, hCut, rfl⟩ := Option.map_eq_some_iff.mp h
    have hFind := find?_eq (word_small k) (word_ne_nil k) (.whole text.toList)
    rw [hCut, Fragment.whole, String.ofList_toList] at hFind
    have hAfter := ((Spans.whole text).of_cutAt? hCut).2
    rw [Nat.zero_add] at hAfter
    rw [findEnd?, spelling, hFind]
    exact hAfter

/-- The instruction of a text is that of its first keyword and the clause that follows. -/
theorem instruction_eq
    (text : String) :
    instruction text = safe (Instruction.parse text.toList) := by
  have hFind := find?_eq_map_findSome? (recognises_eq text) Keyword.all
  rw [← Keyword.classify?] at hFind
  rw [instruction, Instruction.parse, hFind]
  cases hClassify : Keyword.classify? (.whole text.toList) with
  | none => rfl
  | some found =>
      obtain ⟨k, c⟩ := found
      obtain ⟨k', -, hMap⟩ := List.exists_of_findSome?_eq_some hClassify
      obtain ⟨c', hClause, hPair⟩ := Option.map_eq_some_iff.mp hMap
      cases hPair
      exact ofClause_eq k (spans_clause? hClause)

end Keywords

section Lines

/-- A text without the white space around it. -/
def trimmed (source : String) : String :=
  String.ofList (Text.trim source.toList)

/-- The statement that a text spells, apart from the white space around it. -/
def statement (source : String) : Guarded Statement :=
  match h : instruction (trimmed source) with
  | .error failure => .error failure
  | .ok i =>
      .ok {
        text := trimmed source
        instruction := i
        trim_text := by rw [trimmed, String.toList_ofList, Text.trim_trim]
        spells := by
          rw [instruction_eq] at h
          exact eq_ok_of_safe h }

/-- The number and the text of a line. -/
def line (s : String) : Guarded Line := do
  let s := trimmed (dropLineEnd s)
  let digits := (s.toList.takeWhile Char.isDigit).length
  if digits = 0 then
    .ok ⟨none, s⟩
  else
    let n := Nat.ofDigitChars 10 (← slice s 0 digits).toList 0
    if 1 ≤ n ∧ n ≤ greatestLineNumber then
      .ok ⟨some n, trimmed (← slice s digits s.utf8ByteSize)⟩
    else
      .error SyntaxFault.invalidLineNumber.failure

/-- To read a statement by byte offsets is to read it. -/
theorem statement_eq
    (source : String) :
    statement source = safe (Statement.parse source) := by
  have hInstruction : instruction (trimmed source) =
      safe (Instruction.parse (Text.trim source.toList)) := by
    rw [instruction_eq, trimmed, String.toList_ofList]
  unfold statement
  split
  · next failure hFailure =>
      rw [hInstruction] at hFailure
      obtain ⟨e, hParse, rfl⟩ := exists_error_of_safe hFailure
      rw [Statement.parse_eq_error_iff.mpr hParse]
      rfl
  · next i hi =>
      refine (congrArg safe (Statement.parse_eq_ok_iff.mpr ?_)).symm
      exact String.toList_ofList.symm

/-- Newlines and carriage returns are white space. -/
theorem trim_dropLineEnd
    (s : String) :
    Text.trim (dropLineEnd s).toList = Text.trim s.toList := by
  have hText : s.toList = (dropLineEnd s).toList ++
      (s.toList.reverse.takeWhile fun c => c == '\n' || c == '\r').reverse := by
    rw [dropLineEnd, String.toList_ofList, ← List.reverse_append, List.takeWhile_append_dropWhile,
      List.reverse_reverse]
  have hEnds : (s.toList.reverse.takeWhile fun c => c == '\n' || c == '\r').reverse.all
      Text.isWhiteSpace = true := by
    rw [List.all_reverse, List.all_eq_true]
    intro c hc
    have hEnd := List.all_eq_true.mp List.all_takeWhile c hc
    rw [Bool.or_eq_true, beq_iff_eq, beq_iff_eq] at hEnd
    rcases hEnd with rfl | rfl <;> rfl
  exact (Text.trim_append_right hEnds _).symm.trans (congrArg Text.trim hText.symm)

/-- A digit takes one byte. -/
theorem utf8Size_of_isDigit
    {c : Char}
    (h : c.isDigit = true) :
    c.utf8Size = 1 := by
  rw [Char.utf8Size_eq_one_iff, UInt32.le_iff_toNat_le]
  simp only [Char.isDigit, Bool.and_eq_true, decide_eq_true_eq] at h
  exact Nat.le_trans (UInt32.le_iff_toNat_le.mp h.2) (by decide)

/-- To read a line by byte offsets is to read it. -/
theorem line_eq
    (s : String) :
    line s = safe (Line.parse s) := by
  have hTrimmed : (trimmed (dropLineEnd s)).toList = Text.trim s.toList := by
    rw [trimmed, String.toList_ofList, trim_dropLineEnd]
  have hWhole := Spans.whole (trimmed (dropLineEnd s))
  have hCut : (Fragment.whole (trimmed (dropLineEnd s)).toList).chars =
      (Text.trim s.toList).takeWhile Char.isDigit ++ (Text.trim s.toList).dropWhile Char.isDigit := by
    rw [Fragment.whole, hTrimmed, List.takeWhile_append_dropWhile]
  have hSize : byteLength ((Text.trim s.toList).takeWhile Char.isDigit) = _ :=
    byteLength_of_small fun c hc =>
      utf8Size_of_isDigit (List.all_eq_true.mp List.all_takeWhile c hc)
  have hNumber := (hWhole.take hCut).slice_eq
  have hRest := (hWhole.drop hCut).slice_eq
  rw [hSize, Nat.zero_add] at hNumber hRest
  rw [line, Line.parse]
  dsimp only
  rw [hTrimmed]
  cases hDigits : (Text.trim s.toList).takeWhile Char.isDigit with
  | nil =>
      rw [List.length_nil, if_pos rfl, trimmed, trim_dropLineEnd]
      rfl
  | cons c cs =>
      rw [hDigits] at hNumber hRest
      have hNonempty : ¬ (c :: cs).length = 0 := Nat.succ_ne_zero _
      rw [if_neg hNonempty, hNumber, ok_bind, String.toList_ofList]
      dsimp only [Line.parseNumbered]
      split
      · rw [hRest, ok_bind, trimmed, String.toList_ofList]
        rfl
      · rfl

end Lines

/-- To read by slices, each of which crashes unless it starts and ends on boundaries of characters,
is to read.  So no text crashes. -/
theorem reading_never_crashes :
    (∀ text start stop,
      let isRange := start ≤ stop ∧ stop ≤ text.utf8ByteSize ∧
        String.Pos.Raw.IsValid text ⟨start⟩ ∧ String.Pos.Raw.IsValid text ⟨stop⟩
      (isRange → ∃ before part after, text = before ++ part ++ after ∧
        before.utf8ByteSize = start ∧ (before ++ part).utf8ByteSize = stop ∧
        slice text start stop = .ok part) ∧
      (¬ isRange → slice text start stop = .error (.crash (.cut text start stop)))) ∧
    ∀ source,
      (statement source = safe (Statement.parse source) ∧
        ∀ c, statement source ≠ .error (.crash c)) ∧
      (line source = safe (Line.parse source) ∧
        ∀ c, line source ≠ .error (.crash c)) := by
  refine ⟨fun text start stop => ⟨?_, ?_⟩, fun source =>
    ⟨⟨statement_eq source, ?_⟩, ⟨line_eq source, ?_⟩⟩⟩
  · rintro ⟨hOrder, -, hStart, hStop⟩
    have hSlice : slice text start stop = .ok _ := dif_pos ⟨hOrder, hStart, hStop⟩
    obtain ⟨before, after, hText, hBefore, hPart⟩ := slice_eq_ok_iff.mp hSlice
    exact ⟨before, _, after, hText, hBefore, hPart, hSlice⟩
  · intro hNot
    refine dif_neg fun h => hNot ⟨h.1, ?_, h.2⟩
    exact String.Pos.Raw.IsValid.le_utf8ByteSize h.2.2
  · rw [statement_eq]
    exact safe_ne_crash _
  · rw [line_eq]
    exact safe_ne_crash _

end Guarded
end IntegerBasic
