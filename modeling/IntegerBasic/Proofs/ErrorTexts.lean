import IntegerBasic.Proofs.Separation

/-!
# What the text of an error tells

An error is shown as its cause, its place and its explanation in one line.  Place and explanation
may be missing, and so may the line or the columns of the place.  The explanation is any text, and
can itself look like a place or another explanation.

**Definitions.**  `Text.ReadableBefore text Follow` says that a part of a text tells its value, and
where it ends, if what follows it is as `Follow` requires.  `Error.ofParts` puts an error together
from its parts, where the columns `0..0` and the empty message stand for missing ones
(`Column.known?`).

**Argument.**  The parts are told from left to right.  No cause begins another one, so the cause is
told whatever follows.  A numeral ends where the digits end.  A part that may be missing is told
from what would stand in its place: the first character decides, and for the line number the second
one, because a space comes before the columns, too.  The explanation comes last, so nothing has to
be told from it.

**Results.**
* `readableBefore_text`, `readableBefore_lineText`, `readableBefore_columnText`,
  `readableBefore_placeText`, `readableBefore_messageText`: the parts, one by one.
* `eq_of_render_eq`: errors with the same text are the same.
* `render_tells_parts`: what the text tells about the parts.
-/

namespace IntegerBasic

namespace Text

/-- Before a text as required, the text of a value is told from that of any other, and so is the
place where it ends. -/
def ReadableBefore {α : Type} (text : α → List Char) (Follow : List Char → Prop) : Prop :=
  ∀ ⦃a b : α⦄ ⦃after after' : List Char⦄, Follow after → Follow after' →
    text a ++ after = text b ++ after' → a = b ∧ after = after'

/-- What follows a numeral must not go on with a digit. -/
def EndsNumeral (after : List Char) : Prop :=
  ∀ c ∈ after.head?, c.isDigit = false

theorem endsNumeral_cons
    {c : Char}
    (h : c.isDigit = false) (rest : List Char) :
    EndsNumeral (c :: rest) := by
  intro d hd
  cases hd
  exact h

/-- A part that may be missing is readable if it is readable when it is there, and if what follows
is never mistaken for it. -/
theorem readableBefore_of_missing
    {α : Type} {text : α → List Char} {Follow : List Char → Prop} (missing : α)
    (hMissing : text missing = [])
    (hApart : ∀ a, a ≠ missing → ∀ after rest, Follow rest → text a ++ after ≠ rest)
    (hPresent : ∀ a b, a ≠ missing → b ≠ missing → ∀ after after', Follow after → Follow after' →
      text a ++ after = text b ++ after' → a = b ∧ after = after') :
    ReadableBefore text Follow := by
  intro a b after after' hAfter hAfter' h
  by_cases ha : a = missing
  · by_cases hb : b = missing
    · rw [ha, hb] at h
      exact ⟨ha.trans hb.symm, List.append_cancel_left h⟩
    · rw [ha, hMissing] at h
      exact absurd h.symm (hApart b hb _ _ hAfter)
  · by_cases hb : b = missing
    · rw [hb, hMissing] at h
      exact absurd h (hApart a ha _ _ hAfter')
    · exact hPresent a b ha hb after after' hAfter hAfter' h

/-- A numeral begins with a digit. -/
theorem exists_toString_eq_cons
    (n : Nat) :
    ∃ d ds, (toString n).toList = d :: ds ∧ d.isDigit = true := by
  cases hText : (toString n).toList with
  | nil => exact absurd hText (toList_toString_ne_nil n)
  | cons d ds => exact ⟨d, ds, rfl, isDigit_of_mem_toString n d (hText ▸ List.mem_cons_self)⟩

/-- A numeral is readable before anything but a digit. -/
theorem readableBefore_toString :
    ReadableBefore (fun n : Nat => (toString n).toList) EndsNumeral := by
  intro m n after after' hAfter hAfter' h
  have hDigits : (toString m).toList = (toString n).toList := by
    calc (toString m).toList
      _ = ((toString m).toList ++ after).takeWhile Char.isDigit :=
          (takeWhile_isDigit_append (isDigit_of_mem_toString m) hAfter).symm
      _ = ((toString n).toList ++ after').takeWhile Char.isDigit := by rw [h]
      _ = (toString n).toList :=
          takeWhile_isDigit_append (isDigit_of_mem_toString n) hAfter'
  have hNumber : m = n := by
    rw [← ofDigitChars_toString m, ← ofDigitChars_toString n, hDigits]
  subst hNumber
  exact ⟨rfl, List.append_cancel_left h⟩

end Text

namespace ErrorCode

/-- No cause is the beginning of another one. -/
theorem eq_of_begins
    {a b : ErrorCode}
    (h : a.text.toList <+: b.text.toList) :
    a = b := by
  revert h
  cases a <;> cases b <;> decide +kernel

/-- A cause is readable before anything. -/
theorem readableBefore_text :
    Text.ReadableBefore (fun code : ErrorCode => code.text.toList) (fun _ => True) := by
  intro a b after after' _ _ h
  have hCode : a = b := by
    have hBegins : b.text.toList <+: a.text.toList ++ after := h ▸ List.prefix_append _ after'
    rcases List.prefix_or_prefix_of_prefix (List.prefix_append _ after) hBegins with
      hPrefix | hPrefix
    · exact eq_of_begins hPrefix
    · exact (eq_of_begins hPrefix).symm
  subst hCode
  exact ⟨rfl, List.append_cancel_left h⟩

end ErrorCode

namespace Column

/-- The columns `0..0` stand for unknown ones. -/
def known? (c : Column) : Option Column :=
  if c = ⟨0, 0⟩ then none else some c

theorem getD_known?
    (c : Column) :
    c.known?.getD ⟨0, 0⟩ = c := by
  by_cases h : c = ⟨0, 0⟩
  · rw [known?, if_pos h, h]
    rfl
  · rw [known?, if_neg h]
    rfl

theorem known?_inj
    {c d : Column} :
    c.known? = d.known? ↔ c = d := by
  constructor
  · intro h
    rw [← getD_known? c, h, getD_known?]
  · exact congrArg known?

end Column

namespace Error

open Text (ReadableBefore EndsNumeral)

/-- After the place there is nothing, or a semicolon. -/
def EndsPlace (after : List Char) : Prop :=
  ∀ c ∈ after.head?, c = ';'

/-- After the line number there is neither a digit, nor a space and a digit. -/
def EndsLine (after : List Char) : Prop :=
  EndsNumeral after ∧ ∀ d rest, ' ' :: d :: rest = after → d.isDigit = false

theorem EndsPlace.ne_space_cons
    {after : List Char}
    (h : EndsPlace after) (rest : List Char) :
    ' ' :: rest ≠ after := by
  rintro rfl
  exact absurd (h ' ' rfl) (by decide)

theorem EndsPlace.endsLine
    {after : List Char}
    (h : EndsPlace after) :
    EndsLine after := by
  constructor
  · intro c hc
    rw [h c hc]
    rfl
  · intro d rest hSpace
    exact absurd hSpace (h.ne_space_cons _)

theorem toList_lineText
    (n : LineNumber) :
    (lineText (some n)).toList = ' ' :: (toString n).toList :=
  String.toList_append

theorem toList_columnText
    (c : Column) :
    (columnText (some c)).toList =
      ' ' :: '(' :: ((toString c.start).toList ++
        ('.' :: '.' :: ((toString c.stop).toList ++ [')']))) := by
  simp only [columnText, String.toList_append, List.append_assoc]
  rfl

theorem toList_placeText
    {place : Option LineNumber × Option Column}
    (h : place ≠ (none, none)) :
    (placeText place.1 place.2).toList =
      ' ' :: 'I' :: 'N' :: ((lineText place.1).toList ++ (columnText place.2).toList) := by
  have hKnown : ¬ (place.1.isNone && place.2.isNone) = true := by
    intro hNone
    rw [Bool.and_eq_true, Option.isNone_iff_eq_none, Option.isNone_iff_eq_none] at hNone
    exact h (Prod.ext hNone.1 hNone.2)
  rw [placeText, if_neg hKnown, String.toList_append, String.toList_append, List.append_assoc]
  rfl

theorem toList_messageText
    {message : String}
    (h : message ≠ "") :
    (messageText message).toList = ';' :: ' ' :: message.toList := by
  have hText : ¬ message.isEmpty = true := by
    rwa [String.isEmpty_iff]
  rw [messageText, if_neg hText]
  exact String.toList_append

/-- The line number is readable before the columns, which begin with a space, too. -/
theorem readableBefore_lineText :
    ReadableBefore (fun line => (lineText line).toList) EndsLine := by
  apply Text.readableBefore_of_missing none
  · rfl
  · intro line hLine after rest hRest h
    obtain ⟨n, rfl⟩ := Option.ne_none_iff_exists'.mp hLine
    obtain ⟨d, ds, hDigits, hDigit⟩ := Text.exists_toString_eq_cons n
    rw [toList_lineText, hDigits] at h
    rw [hRest.2 d _ h] at hDigit
    cases hDigit
  · intro line line' hLine hLine' after after' hAfter hAfter' h
    obtain ⟨m, rfl⟩ := Option.ne_none_iff_exists'.mp hLine
    obtain ⟨n, rfl⟩ := Option.ne_none_iff_exists'.mp hLine'
    rw [toList_lineText, toList_lineText, List.cons_append, List.cons_append,
      List.cons_inj_right] at h
    obtain ⟨rfl, hRest⟩ := Text.readableBefore_toString hAfter.1 hAfter'.1 h
    exact ⟨rfl, hRest⟩

/-- Columns end with a parenthesis, so anything may follow them. -/
theorem eq_of_columnText_append
    {c d : Column} {after after' : List Char}
    (h : (columnText (some c)).toList ++ after = (columnText (some d)).toList ++ after') :
    c = d ∧ after = after' := by
  obtain ⟨start, stop⟩ := c
  obtain ⟨start', stop'⟩ := d
  rw [toList_columnText, toList_columnText] at h
  simp only [List.cons_append, List.append_assoc, List.nil_append, List.cons_inj_right] at h
  obtain ⟨rfl, hDots⟩ := Text.readableBefore_toString
    (Text.endsNumeral_cons rfl _) (Text.endsNumeral_cons rfl _) h
  rw [List.cons_inj_right, List.cons_inj_right] at hDots
  obtain ⟨rfl, hClose⟩ := Text.readableBefore_toString
    (Text.endsNumeral_cons rfl _) (Text.endsNumeral_cons rfl _) hDots
  exact ⟨rfl, (List.cons.inj hClose).2⟩

theorem readableBefore_columnText :
    ReadableBefore (fun column => (columnText column).toList) EndsPlace := by
  apply Text.readableBefore_of_missing none
  · rfl
  · intro column hColumn after rest hRest
    obtain ⟨c, rfl⟩ := Option.ne_none_iff_exists'.mp hColumn
    rw [toList_columnText]
    exact hRest.ne_space_cons _
  · intro column column' hColumn hColumn' after after' _ _ h
    obtain ⟨c, rfl⟩ := Option.ne_none_iff_exists'.mp hColumn
    obtain ⟨d, rfl⟩ := Option.ne_none_iff_exists'.mp hColumn'
    obtain ⟨rfl, hRest⟩ := eq_of_columnText_append h
    exact ⟨rfl, hRest⟩

/-- What follows the line number. -/
theorem endsLine_columnText_append
    {after : List Char}
    (h : EndsPlace after) (column : Option Column) :
    EndsLine ((columnText column).toList ++ after) := by
  cases column with
  | none => exact h.endsLine
  | some c =>
      rw [toList_columnText]
      refine ⟨Text.endsNumeral_cons rfl _, fun d rest hText => ?_⟩
      cases hText
      rfl

/-- The place is readable before the explanation. -/
theorem readableBefore_placeText :
    ReadableBefore (fun place : Option LineNumber × Option Column =>
      (placeText place.1 place.2).toList) EndsPlace := by
  apply Text.readableBefore_of_missing (none, none)
  · rfl
  · intro place hPlace after rest hRest
    rw [toList_placeText hPlace]
    exact hRest.ne_space_cons _
  · rintro ⟨line, column⟩ ⟨line', column'⟩ hPlace hPlace' after after' hAfter hAfter' h
    rw [toList_placeText hPlace, toList_placeText hPlace'] at h
    simp only [List.cons_append, List.append_assoc, List.cons_inj_right] at h
    obtain ⟨rfl, hColumn⟩ := readableBefore_lineText (endsLine_columnText_append hAfter column)
      (endsLine_columnText_append hAfter' column') h
    obtain ⟨rfl, hRest⟩ := readableBefore_columnText hAfter hAfter' hColumn
    exact ⟨rfl, hRest⟩

/-- The explanation is readable at the end. -/
theorem readableBefore_messageText :
    ReadableBefore (fun message => (messageText message).toList) (fun after => after = []) := by
  apply Text.readableBefore_of_missing ""
  · rfl
  · intro message hMessage after rest hRest
    rw [toList_messageText hMessage, hRest]
    exact List.cons_ne_nil _ _
  · rintro message message' hMessage hMessage' _ _ rfl rfl h
    rw [toList_messageText hMessage, toList_messageText hMessage', List.append_nil,
      List.append_nil, List.cons_inj_right, List.cons_inj_right, String.toList_inj] at h
    exact ⟨h, rfl⟩

theorem endsPlace_messageText
    (message : String) :
    EndsPlace ((messageText message).toList ++ []) := by
  intro c hc
  by_cases hMessage : message = ""
  · subst hMessage
    cases hc
  · rw [toList_messageText hMessage] at hc
    cases hc
    rfl

theorem toList_render
    (e : Error) :
    e.render.toList = e.code.text.toList ++ ((placeText e.line e.column).toList ++
      ((messageText e.message).toList ++ [])) := by
  rw [render, String.toList_append, String.toList_append, List.append_assoc, List.append_nil]

/-- Errors with the same text are the same. -/
theorem eq_of_render_eq
    {e e' : Error}
    (h : e.render = e'.render) :
    e = e' := by
  rw [← String.toList_inj, toList_render, toList_render] at h
  obtain ⟨code, line, column, message⟩ := e
  obtain ⟨code', line', column', message'⟩ := e'
  obtain ⟨rfl, hBehindCode⟩ := ErrorCode.readableBefore_text trivial trivial h
  have hPlaces : (line, column) = (line', column') ∧
      (messageText message).toList ++ [] = (messageText message').toList ++ [] :=
    readableBefore_placeText (endsPlace_messageText message) (endsPlace_messageText message')
      hBehindCode
  obtain ⟨hPlace, hBehindPlace⟩ := hPlaces
  obtain ⟨rfl, rfl⟩ := Prod.mk.inj hPlace
  obtain ⟨rfl, _⟩ := readableBefore_messageText rfl rfl hBehindPlace
  rfl

/-- The error with the given parts.  The columns `0..0` stand for unknown ones, and the empty
message for no explanation. -/
def ofParts (code : ErrorCode) (line : Option LineNumber) (columns : Column) (message : String) :
    Error :=
  ⟨code, line, columns.known?, message⟩

theorem ofParts_inj
    {code code' : ErrorCode} {line line' : Option LineNumber} {columns columns' : Column}
    {message message' : String} :
    ofParts code line columns message = ofParts code' line' columns' message' ↔
      code = code' ∧ line = line' ∧ columns = columns' ∧ message = message' := by
  rw [ofParts, ofParts, Error.mk.injEq, Column.known?_inj]

/-- Errors are shown alike only if they are the same.  The text tells the cause, the line, the
columns and the message, where columns `0..0` and the empty message are missing ones. -/
theorem render_tells_parts :
    (∀ e e' : Error, e.render = e'.render ↔ e = e') ∧
    ∀ (code code' : ErrorCode) (line line' : Option LineNumber) (columns columns' : Column)
      (message message' : String),
      (ofParts code line columns message).render =
          (ofParts code' line' columns' message').render ↔
        code = code' ∧ line = line' ∧ columns = columns' ∧ message = message' := by
  have hRender : ∀ e e' : Error, e.render = e'.render ↔ e = e' :=
    fun e e' => ⟨eq_of_render_eq, congrArg render⟩
  refine ⟨hRender, fun code code' line line' columns columns' message message' => ?_⟩
  rw [hRender, ofParts_inj]

/-- An explanation that looks like a place is told from the place. -/
example :
    (ofParts .syntaxError (some 20) ⟨4, 5⟩ "X").render = "SYNTAX ERROR IN 20 (4..5); X" ∧
      (ofParts .syntaxError none ⟨0, 0⟩ " IN 20 (4..5); X").render =
        "SYNTAX ERROR;  IN 20 (4..5); X" := by
  decide +kernel

end Error
end IntegerBasic
