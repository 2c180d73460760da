import IntegerBasic.Session.Command
import Mathlib.Data.List.Induction
import Mathlib.Data.List.Sort

/-!
# Edits of a listing

**Definitions.**  An `Edit` is what a line does to a listing: nothing, to clear it, to remove a line
or to store one.  `ofText` is the edit that a typed line is, and `replay` carries out edits one
after the other.  `Line.Stores` and `Line.Affects` say which number a typed line is about without
the command it is parsed to.

**Argument.**  `get?_apply_iff` says what is stored after one edit: what the edit stored, or what
was stored before if the edit is not about that number.  The last edit about a number is found from
it by induction on the edits, and edits of different numbers commute by it at each number.

**Results.**
* `parse_eq_map_ofParts`: the words that are commands can be looked up after a line is cut.
* `hasLast_append_singleton_iff`: the last element of some kind, when one more is added.
* `get?_replay_iff`: in a replay the last edit about a number decides about it.
* `apply_comm`, `replay_exchange`: edits that are about no common number can be exchanged.
* `stores_iff`, `affects_ofText_iff`: a typed line is about the same numbers as its edit.
-/

namespace IntegerBasic

namespace Command

/-- What a direct text asks for. -/
def ofDirect : String → Command
  | "" => nothing
  | "RUN" => run
  | "LIST" => list
  | "CLEAR" => clear
  | "HELP" => help
  | "QUIT" => quit
  | text => direct text

/-- What a line asks for once it is cut, words included. -/
def ofParts (l : Line) : Command :=
  match l.number with
  | none => ofDirect l.text
  | some n => if l.isEmpty then remove n else insert n l.text

/-- The words that are commands can as well be looked up after the line is cut. -/
theorem parse_eq_map_ofParts
    (s : String) :
    parse s = (Line.parse s).map ofParts := by
  have hWord : ∀ {w : String}, w.toList.takeWhile Char.isDigit = [] →
      String.ofList (Text.trim s.toList) = w → (Line.parse s).map ofParts = .ok (ofDirect w) := by
    rintro w hw rfl
    rw [Line.parse_eq_direct_iff.mpr ⟨String.toList_ofList.symm, hw⟩]
    rfl
  rw [parse]
  split
  case h_1 _ h | h_2 _ h | h_3 _ h | h_4 _ h | h_5 _ h | h_6 _ h => exact (hWord rfl h).symm
  case h_7 hNothing hRun hList hClear hHelp hQuit =>
    cases hLine : Line.parse s with
    | error e => rfl
    | ok l =>
        obtain ⟨number, text⟩ := l
        cases number with
        | some n => rfl
        | none =>
            have hText : String.ofList (Text.trim s.toList) = text := by
              rw [(Line.parse_eq_direct_iff.mp hLine).1, String.ofList_toList]
            rw [hText] at hNothing hRun hList hClear hHelp hQuit
            have hDirect : ofDirect text = direct text := by
              rw [ofDirect] <;> assumption
            simp only [Except.map, ofLine, ofParts, hDirect]

/-- A numbered line with a text asks to store it. -/
theorem parse_of_numbered
    {line text : String} {n : LineNumber}
    (h : Line.parse line = .ok ⟨some n, text⟩) (hText : text ≠ "") :
    parse line = .ok (insert n text) := by
  rw [parse_eq_map_ofParts, h]
  simp [Except.map, ofParts, Line.isEmpty, hText]

end Command

section Last

variable {α : Type} {p q : α → Prop}

/-- The list has an element with the property `p` and behind it none with the property `q`. -/
def HasLast (p q : α → Prop) (l : List α) : Prop :=
  ∃ before a after, l = before ++ a :: after ∧ p a ∧ ∀ b ∈ after, ¬ q b

/-- What is added at the end is that element, or the element stands before it. -/
theorem hasLast_append_singleton_iff
    {l : List α} {a : α} :
    HasLast p q (l ++ [a]) ↔ p a ∨ (¬ q a ∧ HasLast p q l) := by
  constructor
  · rintro ⟨before, b, after, hList, hb, hAfter⟩
    rcases List.eq_nil_or_concat after with rfl | ⟨after, last, rfl⟩
    · obtain ⟨_, hLast⟩ := List.append_inj' hList rfl
      cases hLast
      exact Or.inl hb
    · rw [List.concat_eq_append, ← List.cons_append, ← List.append_assoc] at hList
      obtain ⟨rfl, hLast⟩ := List.append_inj' hList rfl
      cases hLast
      rw [List.concat_eq_append, List.forall_mem_append] at hAfter
      exact Or.inr ⟨hAfter.2 a List.mem_cons_self, before, b, after, rfl, hb, hAfter.1⟩
  · rintro (ha | ⟨ha, before, b, after, rfl, hb, hAfter⟩)
    · exact ⟨l, a, [], rfl, ha, List.forall_mem_nil _⟩
    · refine ⟨before, b, after ++ [a], by simp, hb, ?_⟩
      rw [List.forall_mem_append]
      exact ⟨hAfter, by simpa using ha⟩

end Last

namespace Listing

/-- Two listings in which the same is stored at every number are equal. -/
theorem ext_get?
    {l l' : Listing}
    (h : ∀ n, l.get? n = l'.get? n) :
    l = l' := by
  obtain ⟨lines, hAscending⟩ := l
  obtain ⟨lines', hAscending'⟩ := l'
  have : Std.Irrefl fun a b : LineNumber × Statement => a.1 < b.1 := ⟨fun a => Nat.lt_irrefl a.1⟩
  have hLines : lines = lines' := by
    apply hAscending.eq_of_mem_iff hAscending'
    rintro ⟨n, s⟩
    have hStored : get? ⟨lines, hAscending⟩ n = some s ↔ get? ⟨lines', hAscending'⟩ n = some s := by
      rw [h n]
    simpa only [get?_eq_some_iff] using hStored
  cases hLines
  rfl

end Listing

/-- What an entered line does to the listing. -/
inductive Edit where
  | keep
  | clear
  | remove (line : LineNumber)
  | store (line : LineNumber) (statement : Statement)

namespace Edit

/-- What a command does to the listing. -/
def ofCommand : Command → Edit
  | .clear => clear
  | .remove n => remove n
  | .insert n text =>
      match Statement.parse text with
      | .ok statement => store n statement
      | .error _ => keep
  | _ => keep

theorem ofCommand_insert_of_ok
    {n : LineNumber} {text : String} {statement : Statement}
    (h : Statement.parse text = .ok statement) :
    ofCommand (.insert n text) = store n statement := by
  change (match Statement.parse text with
    | .ok statement => store n statement
    | .error _ => keep) = store n statement
  rw [h]

theorem ofCommand_insert_of_error
    {n : LineNumber} {text : String} {e : Error}
    (h : Statement.parse text = .error e) :
    ofCommand (.insert n text) = keep := by
  change (match Statement.parse text with
    | .ok statement => store n statement
    | .error _ => keep) = keep
  rw [h]

/-- What a line does to the listing.  It is irreducible so that no unifier runs the parser on it. -/
@[irreducible] def ofText (line : String) : Edit :=
  match Command.parse line with
  | .ok command => ofCommand command
  | .error _ => keep

/-- Carries out an edit. -/
def apply : Edit → Listing → Listing
  | keep, l => l
  | clear, _ => .empty
  | remove n, l => l.remove n
  | store n statement, l => l.insert n statement

/-- The edit decides about what is stored at the number. -/
def Affects (n : LineNumber) : Edit → Prop
  | keep => False
  | clear => True
  | remove m => m = n
  | store m _ => m = n

/-- The listing after the edits, which start without any line. -/
def replay (edits : List Edit) : Listing :=
  edits.foldl (fun l e => e.apply l) .empty

@[simp] theorem replay_nil :
    replay [] = .empty := by
  rfl

@[simp] theorem replay_append_singleton
    (edits : List Edit) (e : Edit) :
    replay (edits ++ [e]) = e.apply (replay edits) := by
  rw [replay, List.foldl_append]
  rfl

theorem affects_store
    (n : LineNumber) (s : Statement) :
    (store n s).Affects n :=
  rfl

/-- What is stored after an edit: what it stored, or, if the edit is not about that number, what
was stored before. -/
theorem get?_apply_iff
    {e : Edit} {l : Listing} {n : LineNumber} {s : Statement} :
    (e.apply l).get? n = some s ↔ e = store n s ∨ (¬ e.Affects n ∧ l.get? n = some s) := by
  cases e with
  | keep => simp [apply, Affects]
  | clear => simp [apply, Affects]
  | remove m => simp [apply, Affects, Listing.get?_remove, eq_comm]
  | store m t =>
      rw [apply, Listing.get?_insert]
      by_cases h : n = m
      · subst h
        simp [Affects]
      · have h' : ¬ m = n := fun hEq => h hEq.symm
        simp [Affects, h, h']

/-- Edits that are not about a common number can be exchanged. -/
theorem apply_comm
    {a b : Edit}
    (h : ∀ n, a.Affects n → ¬ b.Affects n) (l : Listing) :
    a.apply (b.apply l) = b.apply (a.apply l) := by
  apply Listing.ext_get?
  intro n
  apply Option.ext
  intro s
  have ha : a = store n s → a.Affects n := fun hEq => hEq ▸ affects_store n s
  have hb : b = store n s → b.Affects n := fun hEq => hEq ▸ affects_store n s
  have hOne := h n
  simp only [get?_apply_iff]
  grind

/-- The last edit about a number decides what is stored there. -/
theorem get?_replay_iff
    {edits : List Edit} {n : LineNumber} {s : Statement} :
    (replay edits).get? n = some s ↔
      ∃ before after, edits = before ++ store n s :: after ∧ ∀ e ∈ after, ¬ e.Affects n := by
  have hLast : (replay edits).get? n = some s ↔ HasLast (· = store n s) (Affects n) edits := by
    induction edits using List.reverseRecOn with
    | nil => simp [HasLast]
    | append_singleton edits e ih =>
        rw [replay_append_singleton, get?_apply_iff, ih, hasLast_append_singleton_iff]
  rw [hLast]
  constructor
  · rintro ⟨before, _, after, hEdits, rfl, hAfter⟩
    exact ⟨before, after, hEdits, hAfter⟩
  · rintro ⟨before, after, hEdits, hAfter⟩
    exact ⟨before, _, after, hEdits, rfl, hAfter⟩

/-- Two edits in the middle that are not about a common number can be exchanged. -/
theorem replay_exchange
    {a b : Edit}
    (h : ∀ n, a.Affects n → ¬ b.Affects n) (before after : List Edit) :
    replay (before ++ a :: b :: after) = replay (before ++ b :: a :: after) := by
  simp only [replay, List.foldl_append, List.foldl_cons, apply_comm h]

end Edit

namespace Line

/-- The typed line is the command to forget everything. -/
def Clears (typed : String) : Prop :=
  Text.trim typed.toList = "CLEAR".toList

/-- The typed line has this number and this text, and the text spells a statement. -/
def Stores (n : LineNumber) (text typed : String) : Prop :=
  parse typed = .ok ⟨some n, text⟩ ∧ ∃ s, Statement.parse text = .ok s

/-- The typed line decides about what is stored at the number: it forgets everything, or it is the
bare number, or it stores a statement there. -/
def Affects (n : LineNumber) (typed : String) : Prop :=
  Clears typed ∨ parse typed = .ok ⟨some n, ""⟩ ∨ ∃ text, Stores n text typed

theorem clears_iff
    {typed : String} :
    Clears typed ↔ parse typed = .ok ⟨none, "CLEAR"⟩ := by
  rw [Clears, parse_eq_direct_iff]
  exact (and_iff_left rfl).symm

/-- The text of a numbered line is trimmed. -/
theorem trim_of_numbered
    {typed text : String} {n : LineNumber}
    (h : parse typed = .ok ⟨some n, text⟩) :
    Text.trim text.toList = text.toList := by
  obtain ⟨digits, rest, _, _, _, _, _, _, hText⟩ := parse_eq_numbered_iff.mp h
  rw [← hText, Text.trim_trim]

end Line

/-- The empty text spells no statement. -/
theorem Statement.ne_empty_of_parse
    {text : String} {s : Statement}
    (h : parse text = .ok s) :
    text ≠ "" := by
  rintro rfl
  have hParse : parse "" = .error SyntaxFault.unrecognizedStatement.error := rfl
  rw [hParse] at h
  cases h

namespace Edit

section Lines

variable {line text : String} {n : LineNumber}

theorem ofText_of_error
    {e : Error}
    (h : Line.parse line = .error e) :
    ofText line = keep := by
  rw [ofText, Command.parse_eq_map_ofParts, h]
  rfl

theorem ofText_of_direct
    (h : Line.parse line = .ok ⟨none, text⟩) :
    ofText line = if text = "CLEAR" then clear else keep := by
  rw [ofText, Command.parse_eq_map_ofParts, h]
  simp only [Except.map, Command.ofParts]
  unfold Command.ofDirect
  split
  case h_1 | h_2 | h_3 | h_4 | h_5 | h_6 => rfl
  case h_7 _ _ _ hClear _ _ => exact (if_neg hClear).symm

theorem ofText_of_bare
    (h : Line.parse line = .ok ⟨some n, ""⟩) :
    ofText line = remove n := by
  rw [ofText, Command.parse_eq_map_ofParts, h]
  rfl

theorem ofText_of_numbered
    (h : Line.parse line = .ok ⟨some n, text⟩) (hText : text ≠ "") :
    ofText line = ofCommand (.insert n text) := by
  rw [ofText, Command.parse_of_numbered h hText]

/-- A line is about a number exactly when what it does to the listing is. -/
theorem affects_ofText_iff :
    (ofText line).Affects n ↔ Line.Affects n line := by
  rw [Line.Affects, Line.clears_iff]
  unfold Line.Stores
  cases hLine : Line.parse line with
  | error e => simp [ofText_of_error hLine, Affects]
  | ok l =>
      obtain ⟨number, text⟩ := l
      cases number with
      | none =>
          rw [ofText_of_direct hLine]
          by_cases hText : text = "CLEAR" <;> simp [hText, Affects]
      | some m =>
          by_cases hText : text = ""
          · subst hText
            simp +contextual [ofText_of_bare hLine, Affects]
          · rw [ofText_of_numbered hLine hText]
            cases hParse : Statement.parse text with
            | error e => simp [hText, hParse, ofCommand_insert_of_error, Affects]
            | ok s => simp [hText, hParse, ofCommand_insert_of_ok hParse, Affects]

theorem exists_ofText_of_stores
    (h : Line.Stores n text line) :
    ∃ s, ofText line = store n s ∧ s.text = text := by
  obtain ⟨hLine, s, hParse⟩ := h
  have hText := Statement.ne_empty_of_parse hParse
  refine ⟨s, ?_, ?_⟩
  · rw [ofText_of_numbered hLine hText, ofCommand_insert_of_ok hParse]
  · rw [← String.toList_inj, ← Statement.parse_eq_ok_iff.mp hParse, Line.trim_of_numbered hLine]

/-- A line stores a statement exactly when what it does to the listing is to store it. -/
theorem stores_iff :
    Line.Stores n text line ↔ ∃ s, ofText line = store n s ∧ s.text = text := by
  refine ⟨exists_ofText_of_stores, ?_⟩
  rintro ⟨s, hEdit, rfl⟩
  have hAffects : (ofText line).Affects n := hEdit ▸ affects_store n s
  rcases affects_ofText_iff.mp hAffects with hClears | hBare | ⟨text, hStores⟩
  · rw [ofText_of_direct (Line.clears_iff.mp hClears)] at hEdit
    cases hEdit
  · rw [ofText_of_bare hBare] at hEdit
    cases hEdit
  · obtain ⟨s', hEdit', rfl⟩ := exists_ofText_of_stores hStores
    cases hEdit.symm.trans hEdit'
    exact hStores

/-- A numbered line is about no other number. -/
theorem eq_of_affects_ofText
    {m : LineNumber}
    (h : Line.parse line = .ok ⟨some n, text⟩) (hAffects : (ofText line).Affects m) :
    m = n := by
  rcases affects_ofText_iff.mp hAffects with hClears | hBare | ⟨text, hLine, _⟩
  · cases h.symm.trans (Line.clears_iff.mp hClears)
  · cases h.symm.trans hBare
    rfl
  · cases h.symm.trans hLine
    rfl

end Lines

end Edit

end IntegerBasic
