import IntegerBasic.Instruction.Parser

/-!
# Statements

**Definitions.**  A `Statement` is an instruction together with the text that spells it, which is
what a listing shows.  The text is trimmed and does spell the instruction: both are part of the
type, so that a statement can always be had again from its text.

**Results.**
* `parse_text`: a statement is what its own text is parsed to.
* `parse_eq_ok_iff`: a text is parsed to the statements whose text it is, white space apart.
-/

namespace IntegerBasic

/-- An instruction and the text that spells it. -/
structure Statement where
  text : String
  instruction : Instruction
  trim_text : Text.trim text.toList = text.toList
  spells : Instruction.parse text.toList = .ok instruction
deriving DecidableEq

namespace Statement

@[ext] theorem ext
    {s t : Statement}
    (h : s.text = t.text) :
    s = t := by
  obtain ⟨text, i, hTrim, hSpells⟩ := s
  obtain ⟨text', i', hTrim', hSpells'⟩ := t
  cases h
  rw [hSpells, Except.ok.injEq] at hSpells'
  cases hSpells'
  rfl

/-- The statement that a text spells, apart from the white space around it. -/
def parse (source : String) : Except Error Statement :=
  match h : Instruction.parse (Text.trim source.toList) with
  | .error e => .error e
  | .ok i =>
      .ok {
        text := String.ofList (Text.trim source.toList)
        instruction := i
        trim_text := by rw [String.toList_ofList, Text.trim_trim]
        spells := by rw [String.toList_ofList, h] }

/-- A text is parsed to the statement whose text it is, white space apart. -/
theorem parse_eq_ok_iff
    {source : String} {s : Statement} :
    parse source = .ok s ↔ Text.trim source.toList = s.text.toList := by
  constructor
  · intro h
    unfold parse at h
    split at h
    · contradiction
    · rw [← Except.ok.inj h, String.toList_ofList]
  · intro h
    unfold parse
    split
    · next e he =>
        rw [h, s.spells] at he
        contradiction
    · next i hi =>
        rw [Except.ok.injEq]
        apply Statement.ext
        rw [← String.toList_inj, String.toList_ofList, h]

/-- A statement is what its own text is parsed to. -/
theorem parse_text
    (s : Statement) :
    parse s.text = .ok s :=
  parse_eq_ok_iff.mpr s.trim_text

/-- A text is refused for the fault of its instruction. -/
theorem parse_eq_error_iff
    {source : String} {e : Error} :
    parse source = .error e ↔ Instruction.parse (Text.trim source.toList) = .error e := by
  unfold parse
  split <;> simp_all

end Statement
end IntegerBasic
