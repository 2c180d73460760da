import IntegerBasic.Proofs.Answers

/-!
# The listing and what was entered

**Argument.**  The step lemma `listing_of_enters` says that entering a line edits the listing as the
line alone determines, whatever the console, the variables and the outcome are; so the listing is
the replay of all lines that were entered (`listing_of_logged`).  What is stored then follows from
the facts about edits.

**Results.**
* `lineText_of_logged`: what is stored is what the last line about it stored.
* `listing_of_exchanged`: neighbouring lines about different numbers can be exchanged.
* `listing_determined_by_log`: both together, with the lines that change nothing and with what
  `LIST` shows.
-/

namespace IntegerBasic
namespace Session

variable {σ : Type}

theorem lineText_eq_ok_iff
    {s : Session σ} {n : LineNumber} {text : String} :
    s.lineText n = .ok text ↔ ∃ statement, s.listing.get? n = some statement ∧
      statement.text = text := by
  rw [lineText]
  cases s.listing.get? n with
  | none => simp
  | some statement => simp

/-- `list` has the lines that are stored. -/
theorem mem_list_iff
    {s : Session σ} {n : LineNumber} {text : String} :
    (n, text) ∈ s.list ↔ s.lineText n = .ok text := by
  simp [lineText_eq_ok_iff, Listing.get?_eq_some_iff, list]

/-- `list` goes through the lines in ascending order. -/
theorem pairwise_list
    (s : Session σ) :
    s.list.Pairwise fun a b => a.1 < b.1 :=
  s.listing.ascending.map _ fun _ _ h => h

/-- To remove a line that is not stored changes nothing. -/
theorem listing_removeLine
    (n : LineNumber) (s : Session σ) :
    (removeLine n s).listing = s.listing.remove n := by
  rw [removeLine]
  split
  · rfl
  · next hContains =>
      apply Listing.ext_get?
      intro m
      rw [Listing.get?_remove]
      split
      · next hEq =>
          subst hEq
          simpa [Listing.contains] using hContains
      · rfl

variable [Console σ]

/-- A command edits the listing as the command alone determines. -/
theorem Answers.listing_eq
    {command : Command} {s s' : Session σ} {outcome : Except Error Reply}
    (h : Answers s command outcome s') :
    s'.listing = (Edit.ofCommand command).apply s.listing := by
  cases h with
  | remove n => exact listing_removeLine n s
  | insert hParse =>
      rw [Edit.ofCommand_insert_of_ok hParse]
      rfl
  | refused hParse =>
      rw [Edit.ofCommand_insert_of_error hParse]
      rfl
  | nothing | quit | run | direct | list | help | clear => rfl

/-- A command that fails leaves the listing as it was. -/
theorem Answers.ofCommand_of_error
    {command : Command} {s s' : Session σ} {e : Error}
    (h : Answers s command (.error e) s') :
    Edit.ofCommand command = .keep := by
  generalize hOutcome : Except.error e = outcome at h
  cases h with
  | clear | remove | insert => cases hOutcome
  | refused hParse => exact Edit.ofCommand_insert_of_error hParse
  | nothing | quit | run | direct | list | help => rfl

/-- Entering a line edits the listing as the line alone determines. -/
theorem listing_of_enters
    {s s' : Session σ} {line : String} {outcome : Except Error Reply}
    (h : s.Enters line outcome s') :
    s'.listing = (Edit.ofText line).apply s.listing := by
  rw [Edit.ofText]
  rcases cases_of_enters h with ⟨e, hCommand, _, rfl⟩ | ⟨command, hCommand, hAnswers⟩
  · rw [hCommand]
    rfl
  · rw [hCommand]
    exact hAnswers.listing_eq

/-- A line that is refused does not edit the listing. -/
theorem ofText_of_enters_error
    {s s' : Session σ} {line : String} {e : Error}
    (h : s.Enters line (.error e) s') :
    Edit.ofText line = .keep := by
  rw [Edit.ofText]
  rcases cases_of_enters h with ⟨e', hCommand, _⟩ | ⟨command, hCommand, hAnswers⟩
  · rw [hCommand]
  · rw [hCommand]
    exact hAnswers.ofCommand_of_error

/-- What an entry does to the listing. -/
def Entry.edit (entry : Entry) : Edit :=
  Edit.ofText entry.line

theorem map_edit
    (log : List Entry) :
    log.map Entry.edit = (log.map Entry.line).map Edit.ofText := by
  rw [List.map_map, Function.comp_def]
  rfl

/-- The listing is the replay of what was entered. -/
theorem listing_of_logged
    {log : List Entry} {s : Session σ}
    (h : Logged log s) :
    s.listing = Edit.replay (log.map Entry.edit) := by
  induction h with
  | fresh console => rfl
  | enter console entry _ hEnters ih =>
      have hListing := listing_of_enters hEnters
      rw [List.map_append, List.map_singleton, Edit.replay_append_singleton, ← ih]
      exact hListing

/-- An entry that stores a text stores a statement with this text. -/
theorem stores_line_iff
    {entry : Entry} {n : LineNumber} {text : String} :
    Line.Stores n text entry.line ↔ ∃ statement, entry.edit = .store n statement ∧
      statement.text = text :=
  Edit.stores_iff

theorem affects_edit_iff
    {entry : Entry} {n : LineNumber} :
    entry.edit.Affects n ↔ Line.Affects n entry.line :=
  Edit.affects_ofText_iff

/-- A text is stored at a number exactly if the last line about the number stored it. -/
theorem lineText_of_logged
    {log : List Entry} {s : Session σ} {n : LineNumber} {text : String}
    (h : Logged log s) :
    s.lineText n = .ok text ↔
      ∃ before entry after, log = before ++ entry :: after ∧ Line.Stores n text entry.line ∧
        ∀ later ∈ after, ¬ Line.Affects n later.line := by
  simp only [lineText_eq_ok_iff, listing_of_logged h, Edit.get?_replay_iff, List.map_eq_append_iff,
    List.map_eq_cons_iff, stores_line_iff, ← affects_edit_iff]
  constructor
  · rintro ⟨statement, ⟨before, after, ⟨log₁, log₂, rfl, rfl, entry, log₃, rfl, hEdit, rfl⟩,
      hAfter⟩, hText⟩
    exact ⟨log₁, entry, log₃, rfl, ⟨statement, hEdit, hText⟩,
      fun later hLater => hAfter _ (List.mem_map_of_mem hLater)⟩
  · rintro ⟨before, entry, after, rfl, ⟨statement, hEdit, hText⟩, hAfter⟩
    exact ⟨statement, ⟨_, _, ⟨before, entry :: after, rfl, rfl, entry, after, rfl, hEdit, rfl⟩,
      List.forall_mem_map.mpr hAfter⟩, hText⟩

/-- Two logs whose lines are the same but for two neighbours, which are numbered and have different
numbers, lead to the same listing. -/
theorem listing_of_exchanged
    {τ : Type} [Console τ] {log log' : List Entry} {s : Session σ} {s' : Session τ}
    {before after : List String} {a b text text' : String} {n m : LineNumber}
    (h : Logged log s) (h' : Logged log' s')
    (hLines : log.map Entry.line = before ++ a :: b :: after)
    (hLines' : log'.map Entry.line = before ++ b :: a :: after)
    (ha : Line.parse a = .ok ⟨some n, text⟩) (hb : Line.parse b = .ok ⟨some m, text'⟩)
    (hne : n ≠ m) :
    s'.listing = s.listing := by
  have hApart : ∀ k, (Edit.ofText a).Affects k → ¬ (Edit.ofText b).Affects k := by
    intro k ha' hb'
    have hk : k = n := Edit.eq_of_affects_ofText ha ha'
    have hk' : k = m := Edit.eq_of_affects_ofText hb hb'
    exact hne (hk.symm.trans hk')
  have hExchange := Edit.replay_exchange hApart (before.map Edit.ofText) (after.map Edit.ofText)
  rw [listing_of_logged h, listing_of_logged h', map_edit, map_edit, hLines, hLines']
  simp only [List.map_append, List.map_cons, hExchange]

/-- `LIST` shows the stored lines. -/
theorem run_enter_list
    {line : String} (fuel : Nat) (s : Session σ)
    (h : Text.trim line.toList = "LIST".toList) :
    (enter fuel line).run.run s = some (s.printing (s.list.map listed)) := by
  have hCommand : Command.parse line = .ok .list := by
    rw [Command.parse, h]
    rfl
  rw [run_enter_of_ok fuel s hCommand, run_perform_list]

/-- A text is stored at a number exactly if the last line about that number stored it.  `LIST` shows
what is stored in ascending order, and neighbouring lines about different numbers can be
exchanged. -/
theorem listing_determined_by_log
    {log : List Entry} {s : Session σ}
    (h : Logged log s) :
    (∀ n text, s.lineText n = .ok text ↔
      ∃ before entry after, log = before ++ entry :: after ∧ Line.Stores n text entry.line ∧
        ∀ later ∈ after, ¬ Line.Affects n later.line) ∧
    (∀ (console : σ) line outcome s', (s.withConsole console).Enters line outcome s' →
      ((∃ text, Line.parse line = .ok ⟨none, text⟩ ∧ ¬ Line.Clears line) ∨
        ∃ e, outcome = .error e) →
      s'.listing = s.listing) ∧
    (∀ (console : σ) line fuel, Text.trim line.toList = "LIST".toList →
      (enter fuel line).run.run (s.withConsole console) =
        some ((s.withConsole console).printing (s.list.map listed))) ∧
    s.list.Pairwise (fun a b => a.1 < b.1) ∧
    (∀ n text, (n, text) ∈ s.list ↔ s.lineText n = .ok text) ∧
    ∀ {τ : Type} [Console τ] (log' : List Entry) (s' : Session τ) before after a b n m text text',
      Logged log' s' →
      log.map Entry.line = before ++ a :: b :: after →
      log'.map Entry.line = before ++ b :: a :: after →
      Line.parse a = .ok ⟨some n, text⟩ → Line.parse b = .ok ⟨some m, text'⟩ → n ≠ m →
      s'.listing = s.listing := by
  refine ⟨fun n text => lineText_of_logged h, ?_, ?_, s.pairwise_list, fun n text => mem_list_iff,
    ?_⟩
  · intro console line outcome s' hEnters hKeeps
    have hListing := listing_of_enters hEnters
    rcases hKeeps with ⟨text, hLine, hClears⟩ | ⟨e, rfl⟩
    · have hText : text ≠ "CLEAR" := fun hEq => hClears (Line.clears_iff.mpr (hEq ▸ hLine))
      rw [Edit.ofText_of_direct hLine, if_neg hText] at hListing
      exact hListing
    · rw [ofText_of_enters_error hEnters] at hListing
      exact hListing
  · intro console line fuel hLine
    exact run_enter_list fuel (s.withConsole console) hLine
  · intro τ _ log' s' before after a b n m text text' h' hLines hLines' ha hb hne
    exact listing_of_exchanged h h' hLines hLines' ha hb hne

/-- A line is stored twice, and then a text that spells no statement is refused at its number. -/
theorem listing_determined_by_log_rewritten :
    ∃ s : Session Transcript,
      Logged [⟨"10 PRINT 1", .ok .ready⟩, ⟨" 10PRINT 2 ", .ok .ready⟩, ⟨"20 END", .ok .ready⟩,
        ⟨"10 FOO", .error (SyntaxFault.unrecognizedStatement.error.inLine 10)⟩] s ∧
      s.lineText 10 = .ok "PRINT 2" := by
  have h₁ := (Logged.fresh Transcript.empty).enter .empty ⟨"10 PRINT 1", .ok .ready⟩ ⟨0, rfl⟩
  have h₂ := h₁.enter .empty ⟨" 10PRINT 2 ", .ok .ready⟩ ⟨0, rfl⟩
  have h₃ := h₂.enter .empty ⟨"20 END", .ok .ready⟩ ⟨0, rfl⟩
  have h₄ := h₃.enter .empty
    ⟨"10 FOO", .error (SyntaxFault.unrecognizedStatement.error.inLine 10)⟩ ⟨0, rfl⟩
  refine ⟨_, h₄, ((listing_determined_by_log h₄).1 10 "PRINT 2").mpr ⟨[_], _, [_, _], rfl, ?_, ?_⟩⟩
  · exact ⟨rfl, _, rfl⟩
  · have hEnd : ¬ Line.Affects 10 "20 END" := by
      intro hAffects
      have hLine : Line.parse "20 END" = .ok ⟨some 20, "END"⟩ := rfl
      cases Edit.eq_of_affects_ofText hLine (Edit.affects_ofText_iff.mpr hAffects)
    have hFoo : ¬ Line.Affects 10 "10 FOO" := by
      have hLine : Line.parse "10 FOO" = .ok ⟨some 10, "FOO"⟩ := rfl
      rw [← Edit.affects_ofText_iff, Edit.ofText_of_numbered hLine (by decide)]
      exact id
    simpa using And.intro hEnd hFoo

end Session
end IntegerBasic
