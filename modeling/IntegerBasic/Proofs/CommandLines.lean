import IntegerBasic.Proofs.Edits

/-!
# Which line asks for what

**Definitions.**  A typed line `Runs` if it is the command `RUN`.  It is `Immediate` if it has no
number and is no command, so that its text is executed at once.

**Results.**  For each kind of command, the lines that ask for it:
* `parse_eq_word_iff`: the commands that are words.
* `parse_eq_direct_iff`: statements that are executed at once.
* `parse_eq_remove_iff`, `parse_eq_insert_iff`: lines with a number.
* `parse_eq_error_iff`: lines with a number that cannot be the number of a line.
-/

namespace IntegerBasic

namespace Command

/-- The word that is the command, if it is one. -/
def word? : Command → Option String
  | nothing => some ""
  | run => some "RUN"
  | list => some "LIST"
  | clear => some "CLEAR"
  | help => some "HELP"
  | quit => some "QUIT"
  | direct _ | remove _ | insert .. => none

/-- The words that are commands. -/
def words : List String :=
  ["", "RUN", "LIST", "CLEAR", "HELP", "QUIT"]

theorem word?_ofLine
    (l : Line) :
    (ofLine l).word? = none := by
  obtain ⟨_ | n, text⟩ := l
  · rfl
  · by_cases hText : text = "" <;> simp [ofLine, Line.isEmpty, hText, word?]

variable {s text : String} {n : LineNumber}

/-- A command that is a word is asked for by that word, white space apart. -/
theorem parse_eq_word_iff
    {c : Command} {w : String}
    (hWord : c.word? = some w) :
    parse s = .ok c ↔ Text.trim s.toList = w.toList := by
  have hTyped : Text.trim s.toList = w.toList ↔ String.ofList (Text.trim s.toList) = w := by
    rw [← String.toList_inj, String.toList_ofList]
  rw [hTyped]
  constructor
  · intro h
    rw [parse] at h
    split at h
    case h_7 =>
      cases hLine : Line.parse s with
      | error e =>
          rw [hLine] at h
          cases h
      | ok l =>
          rw [hLine] at h
          cases h
          rw [word?_ofLine] at hWord
          cases hWord
    all_goals
      cases h
      cases hWord
      assumption
  · intro h
    rw [parse, h]
    cases c <;> cases hWord <;> rfl

theorem ofDirect_eq_direct_iff
    {typed : String} :
    ofDirect typed = direct text ↔ typed = text ∧ text ∉ words := by
  unfold ofDirect
  split
  case h_7 hNothing hRun hList hClear hHelp hQuit =>
    rw [direct.injEq]
    refine ⟨?_, And.left⟩
    rintro rfl
    simp_all [words]
  all_goals
    simp only [reduceCtorEq, false_iff, not_and]
    rintro rfl
    decide

/-- A text without a number that is no command is to be executed at once. -/
theorem parse_eq_direct_iff :
    parse s = .ok (direct text) ↔ Line.parse s = .ok ⟨none, text⟩ ∧ text ∉ words := by
  rw [parse_eq_map_ofParts]
  cases hLine : Line.parse s with
  | error e => simp [Except.map]
  | ok l =>
      obtain ⟨_ | n, typed⟩ := l
      · simp only [Except.map, ofParts, Except.ok.injEq, ofDirect_eq_direct_iff, Line.mk.injEq,
          true_and]
      · by_cases hTyped : typed = "" <;> simp [Except.map, ofParts, Line.isEmpty, hTyped]

/-- What a text without a number asks for has no number. -/
theorem ofDirect_ne
    (typed : String) :
    (∀ n, ofDirect typed ≠ remove n) ∧ ∀ n text, ofDirect typed ≠ insert n text := by
  unfold ofDirect
  split <;> simp

theorem ofParts_numbered
    (n : LineNumber) (typed : String) :
    ofParts ⟨some n, typed⟩ = if typed = "" then remove n else insert n typed := by
  simp [ofParts, Line.isEmpty]

/-- A number alone asks to remove its line. -/
theorem parse_eq_remove_iff :
    parse s = .ok (remove n) ↔ Line.parse s = .ok ⟨some n, ""⟩ := by
  rw [parse_eq_map_ofParts]
  cases hLine : Line.parse s with
  | error e => simp [Except.map]
  | ok l =>
      obtain ⟨_ | m, typed⟩ := l
      · simp [Except.map, ofParts, (ofDirect_ne typed).1 n]
      · by_cases hTyped : typed = "" <;> simp [Except.map, ofParts_numbered, hTyped]

/-- A number with a text asks to store the text. -/
theorem parse_eq_insert_iff :
    parse s = .ok (insert n text) ↔ Line.parse s = .ok ⟨some n, text⟩ ∧ text ≠ "" := by
  rw [parse_eq_map_ofParts]
  cases hLine : Line.parse s with
  | error e => simp [Except.map]
  | ok l =>
      obtain ⟨_ | m, typed⟩ := l
      · simp [Except.map, ofParts, (ofDirect_ne typed).2 n text]
      · by_cases hTyped : typed = ""
        · subst hTyped
          simp +contextual [Except.map, ofParts_numbered]
        · simp only [Except.map, ofParts_numbered, if_neg hTyped, Except.ok.injEq, insert.injEq,
            Line.mk.injEq, Option.some_inj]
          refine ⟨fun h => ⟨h, h.2 ▸ hTyped⟩, And.left⟩

/-- A line whose number cannot be the number of a line asks for nothing. -/
theorem parse_eq_error_iff
    {e : Error} :
    parse s = .error e ↔ Line.parse s = .error e := by
  rw [parse_eq_map_ofParts]
  cases Line.parse s <;> simp [Except.map]

end Command

namespace Line

/-- The typed line is the command to run the program. -/
def Runs (typed : String) : Prop :=
  Text.trim typed.toList = "RUN".toList

theorem runs_iff
    {typed : String} :
    Runs typed ↔ parse typed = .ok ⟨none, "RUN"⟩ := by
  rw [Runs, parse_eq_direct_iff]
  exact (and_iff_left rfl).symm

/-- The typed line is a text to be executed at once: it has no number and is no command. -/
def Immediate (typed : String) : Prop :=
  ∃ text, parse typed = .ok ⟨none, text⟩ ∧ text ∉ Command.words

end Line

namespace Command

variable {s : String}

theorem parse_eq_run_iff :
    parse s = .ok run ↔ Line.Runs s :=
  parse_eq_word_iff rfl

theorem parse_eq_clear_iff :
    parse s = .ok clear ↔ Line.Clears s :=
  parse_eq_word_iff rfl

theorem exists_parse_eq_direct_iff :
    (∃ text, parse s = .ok (direct text)) ↔ Line.Immediate s :=
  exists_congr fun _ => parse_eq_direct_iff

end Command
end IntegerBasic
