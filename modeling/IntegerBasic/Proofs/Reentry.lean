import IntegerBasic.Proofs.EditHistory
import IntegerBasic.Proofs.Rendering

/-!
# Entering what was listed

The output of `LIST`, cut into its lines, is source again: entered in any order, the lines make up
the listing they were taken from.

**Definitions.**  `Lists s output` says that `LIST` prints the output on every console that does not
fail.  `splitLines` cuts a text at each newline.

**Argument.**  A line that stores a text stores the same text again when it is typed the way it is
listed (`stores_listed`); that its text is trimmed and not empty is what makes this true.  So each
line of the output does to a listing what it says, or nothing if it is the empty rest behind the
last newline, and in a replay of such edits the order is of no account (`replay_eq_of_stores`).

**Results.**
* `splitLines_joinLines`: lines without newlines can be had again from their output.
* `lists_joinLines`: what `LIST` prints.
* `listing_reenters`: the lines that `LIST` printed, entered in any order, restore the listing.
-/

namespace IntegerBasic

namespace Console

/-- The pieces of a text between its newlines. -/
def splitLines (output : String) : List String :=
  (output.toList.splitOn '\n').map String.ofList

theorem toList_joinLines_cons
    (line : String) (lines : List String) :
    (joinLines (line :: lines)).toList = line.toList ++ '\n' :: (joinLines lines).toList := by
  simp [joinLines]

/-- Lines that are ended one by one are followed by an empty piece. -/
theorem splitLines_joinLines
    {lines : List String}
    (h : ∀ line ∈ lines, '\n' ∉ line.toList) :
    splitLines (joinLines lines) = lines ++ [""] := by
  induction lines with
  | nil => rfl
  | cons line lines ih =>
      have hLine := List.splitOn_eq_singleton (h line List.mem_cons_self)
      have hRest := ih fun l hl => h l (List.mem_cons_of_mem line hl)
      rw [splitLines, toList_joinLines_cons, List.splitOn_append_cons_of_beq _ _ rfl, hLine,
        List.singleton_append, List.map_cons, String.ofList_toList, ← splitLines, hRest]
      rfl

end Console

namespace Edit

theorem ofText_empty :
    ofText "" = keep := by
  have hLine : Line.parse "" = .ok ⟨none, ""⟩ := rfl
  rw [ofText_of_direct hLine, if_neg (by decide)]

/-- If all edits about a number store the same statement, it is stored in the end. -/
theorem get?_replay_of_mem
    {edits : List Edit} {n : LineNumber} {s : Statement}
    (h : store n s ∈ edits)
    (hSame : ∀ e ∈ edits, e.Affects n → e = store n s) :
    (replay edits).get? n = some s := by
  induction edits using List.reverseRecOn with
  | nil => cases h
  | append_singleton edits e ih =>
      rw [replay_append_singleton, get?_apply_iff]
      rw [List.forall_mem_append] at hSame
      by_cases hLast : e = store n s
      · exact Or.inl hLast
      · have hMem : store n s ∈ edits := by
          rcases List.mem_append.mp h with h | h
          · exact h
          · exact absurd (List.mem_singleton.mp h).symm hLast
        exact Or.inr ⟨fun hAffects => hLast (hSame.2 e List.mem_cons_self hAffects),
          ih hMem hSame.1⟩

/-- Edits that store all lines of a listing, and nothing else, make up the listing, whatever their
order. -/
theorem replay_eq_of_stores
    {edits : List Edit} {l : Listing}
    (hEdits : ∀ e ∈ edits, e = keep ∨ ∃ n s, e = store n s ∧ l.get? n = some s)
    (hAll : ∀ n s, l.get? n = some s → store n s ∈ edits) :
    replay edits = l := by
  have hStored : ∀ {n s}, store n s ∈ edits → l.get? n = some s := by
    intro n s hMem
    rcases hEdits _ hMem with hKeep | ⟨n', s', hStore, hGet⟩
    · cases hKeep
    · cases hStore
      exact hGet
  apply Listing.ext_get?
  intro n
  apply Option.ext
  intro s
  constructor
  · intro hReplay
    obtain ⟨before, after, rfl, _⟩ := get?_replay_iff.mp hReplay
    exact hStored (List.mem_append_right before List.mem_cons_self)
  · intro hGet
    refine get?_replay_of_mem (hAll n s hGet) ?_
    intro e he hAffects
    rcases hEdits e he with rfl | ⟨m, t, rfl, hGet'⟩
    · cases hAffects
    · cases hAffects
      cases hGet.symm.trans hGet'
      rfl

end Edit

theorem Session.toList_listed
    (n : LineNumber) (text : String) :
    (listed (n, text)).toList = (toString n).toList ++ [' '] ++ text.toList := by
  simp [listed]

namespace Line

variable {typed text : String} {n : LineNumber}

/-- A line that is typed the way it is listed is cut into the same number and text. -/
theorem parse_listed
    (hBounds : 1 ≤ n ∧ n ≤ greatestLineNumber)
    (hTrim : Text.trim text.toList = text.toList) (hText : text ≠ "") :
    parse (Session.listed (n, text)) = .ok ⟨some n, text⟩ := by
  have hNumber : Text.Solid (toString n).toList := solid_toString n
  have hSolid : Text.Solid text.toList := by
    have hNotNil : Text.trim text.toList ≠ [] := by
      rwa [hTrim, Ne, String.toList_eq_nil_iff]
    exact hTrim ▸ Text.solid_trim hNotNil
  have hRest : Text.trim (' ' :: text.toList) = text.toList := Text.trim_space hSolid
  rw [parse_eq_numbered_iff, Session.toList_listed, (hNumber.append [' '] hSolid).trim_eq,
    List.append_assoc]
  refine ⟨(toString n).toList, [' '] ++ text.toList, rfl, toList_toString_ne_nil n,
    isDigit_of_mem_toString n, ?_, hBounds, ofDigitChars_toString n, hRest⟩
  rintro c hc
  cases hc
  rfl

/-- A line that stores a text stores it again when it is typed the way it is listed. -/
theorem stores_listed
    (h : Stores n text typed) :
    Stores n text (Session.listed (n, text)) := by
  obtain ⟨hLine, s, hParse⟩ := h
  obtain ⟨_, _, _, _, _, _, hBounds, _⟩ := parse_eq_numbered_iff.mp hLine
  exact ⟨parse_listed hBounds (trim_of_numbered hLine) (Statement.ne_empty_of_parse hParse),
    s, hParse⟩

/-- The text of a numbered line is part of what was typed. -/
theorem mem_of_numbered
    {c : Char}
    (h : parse typed = .ok ⟨some n, text⟩) (hc : c ∈ text.toList) :
    c ∈ typed.toList := by
  obtain ⟨digits, rest, hTyped, _, _, _, _, _, hText⟩ := parse_eq_numbered_iff.mp h
  apply Text.mem_of_mem_trim
  rw [hTyped]
  exact List.mem_append_right digits (Text.mem_of_mem_trim (hText ▸ hc))

end Line

namespace Session

section Accepted

variable {τ : Type} [Console τ]

/-- The line is accepted, whatever has been entered before. -/
def Accepted (τ : Type) [Console τ] (line : String) : Prop :=
  ∀ fuel (s : Session τ), ∃ s', (enter fuel line).run.run s = some (.ok .ready, s')

theorem accepted_empty :
    Accepted τ "" :=
  fun _ s => ⟨s, rfl⟩

/-- A line that stores a statement is accepted. -/
theorem accepted_of_stores
    {line text : String} {n : LineNumber}
    (h : Line.Stores n text line) :
    Accepted τ line := by
  intro fuel s
  obtain ⟨hLine, statement, hParse⟩ := h
  have hCommand := Command.parse_of_numbered hLine (Statement.ne_empty_of_parse hParse)
  rw [run_enter_of_ok fuel s hCommand, run_perform_insert_of_ok fuel s hParse]
  exact ⟨_, rfl⟩

/-- Lines that are accepted can be entered one after the other. -/
theorem exists_logged_of_accepted
    {lines : List String}
    (h : ∀ line ∈ lines, Accepted τ line) (console : τ) :
    ∃ s : Session τ, Logged (lines.map fun line => ⟨line, .ok .ready⟩) s := by
  induction lines using List.reverseRecOn with
  | nil => exact ⟨_, .fresh console⟩
  | append_singleton lines line ih =>
      rw [List.forall_mem_append] at h
      obtain ⟨s, hLogged⟩ := ih h.1
      obtain ⟨s', hEnter⟩ := h.2 line List.mem_cons_self 0 (s.withConsole console)
      refine ⟨s', ?_⟩
      rw [List.map_append]
      exact hLogged.enter console ⟨line, .ok .ready⟩ ⟨0, hEnter⟩

/-- Every line of a log was accepted if it is always accepted. -/
theorem outcome_of_accepted
    {log : List Entry} {s : Session τ}
    (hLogged : Logged log s)
    (h : ∀ entry ∈ log, Accepted τ entry.line) :
    ∀ entry ∈ log, entry.outcome = .ok .ready := by
  induction hLogged with
  | fresh console => exact List.forall_mem_nil _
  | @enter log s s' console entry _ hEnters ih =>
      rw [List.forall_mem_append] at h ⊢
      refine ⟨ih h.1, ?_⟩
      rw [List.forall_mem_singleton]
      obtain ⟨fuel, hRun⟩ := hEnters
      obtain ⟨_, hReady⟩ := h.2 entry List.mem_cons_self fuel (s.withConsole console)
      rw [hReady, Option.some_inj, Prod.mk.injEq] at hRun
      exact hRun.1.symm

end Accepted

variable {σ : Type}

/-- `LIST` prints the output, on every console that does not fail. -/
def Lists (s : Session σ) (output : String) : Prop :=
  ∀ (τ : Type) [Console τ] (shown : τ → String), Console.Records shown →
    ∀ fuel (console : τ), ∃ console',
      (enter fuel "LIST").run.run (s.withConsole console) =
        some (.ok .ready, s.withConsole console') ∧
      shown console' = shown console ++ output

/-- `LIST` prints the stored lines. -/
theorem lists_joinLines
    (s : Session σ) :
    s.Lists (Console.joinLines (s.list.map listed)) := by
  intro τ _ shown hRecords fuel console
  obtain ⟨console', hPrint, hShown⟩ := hRecords.printLines (s.list.map listed) console
  have hPrinting := printing_of_ok (s := s.withConsole console) hPrint
  exact ⟨console', (run_enter_list fuel _ rfl).trans (congrArg some hPrinting), hShown⟩

theorem mem_map_listed_iff
    {s : Session σ} {line : String} :
    line ∈ s.list.map listed ↔
      ∃ n statement, s.listing.get? n = some statement ∧ listed (n, statement.text) = line := by
  simp [list, Listing.get?_eq_some_iff]

section Stored

variable [Console σ] {log : List Entry} {s : Session σ} {n : LineNumber} {statement : Statement}

/-- What is stored was stored by a line that was entered. -/
theorem exists_stores_of_get?
    (h : Logged log s) (hGet : s.listing.get? n = some statement) :
    ∃ entry ∈ log, Line.Stores n statement.text entry.line := by
  have hText : s.lineText n = .ok statement.text := lineText_eq_ok_iff.mpr ⟨statement, hGet, rfl⟩
  obtain ⟨before, entry, after, rfl, hStores, _⟩ := (lineText_of_logged h).mp hText
  exact ⟨entry, List.mem_append_right before List.mem_cons_self, hStores⟩

/-- A stored line, entered as it is listed, is stored again. -/
theorem stores_listed_of_get?
    (h : Logged log s) (hGet : s.listing.get? n = some statement) :
    Line.Stores n statement.text (listed (n, statement.text)) := by
  obtain ⟨entry, _, hStores⟩ := exists_stores_of_get? h hGet
  exact Line.stores_listed hStores

theorem ofText_listed_of_get?
    (h : Logged log s) (hGet : s.listing.get? n = some statement) :
    Edit.ofText (listed (n, statement.text)) = .store n statement := by
  obtain ⟨statement', hEdit, hText⟩ := Edit.stores_iff.mp (stores_listed_of_get? h hGet)
  rw [hEdit, Statement.ext hText]

/-- If no newline was entered, none is listed. -/
theorem newline_notMem_listed
    (h : Logged log s) (hLines : ∀ entry ∈ log, '\n' ∉ entry.line.toList)
    (hGet : s.listing.get? n = some statement) :
    '\n' ∉ (listed (n, statement.text)).toList := by
  obtain ⟨entry, hMem, hLine, _⟩ := exists_stores_of_get? h hGet
  have hText : '\n' ∉ statement.text.toList :=
    fun hc => hLines entry hMem (Line.mem_of_numbered hLine hc)
  have hNumber : '\n' ∉ (toString n).toList := by
    intro hc
    have hDigit := isDigit_of_mem_toString n _ hc
    cases hDigit
  rw [toList_listed, List.mem_append, List.mem_append]
  rintro ((hc | hc) | hc)
  · exact hNumber hc
  · cases List.mem_singleton.mp hc
  · exact hText hc

end Stored

section Reentered

variable {s : Session σ} {lines : List String}

/-- A line of the output is a stored line, or the empty rest behind the last newline. -/
theorem eq_empty_or_listed
    (hPerm : lines.Perm (s.list.map listed ++ [""])) :
    ∀ line ∈ lines, line = "" ∨
      ∃ n statement, s.listing.get? n = some statement ∧ listed (n, statement.text) = line := by
  intro line hLine
  rcases List.mem_append.mp (hPerm.mem_iff.mp hLine) with hListed | hEmpty
  · exact Or.inr (mem_map_listed_iff.mp hListed)
  · exact Or.inl (List.mem_singleton.mp hEmpty)

variable [Console σ] {log : List Entry}

/-- Every line of the output is accepted. -/
theorem accepted_of_perm
    {τ : Type} [Console τ]
    (h : Logged log s) (hPerm : lines.Perm (s.list.map listed ++ [""])) :
    ∀ line ∈ lines, Accepted τ line := by
  intro line hLine
  rcases eq_empty_or_listed hPerm line hLine with rfl | ⟨n, statement, hGet, rfl⟩
  · exact accepted_empty
  · exact accepted_of_stores (stores_listed_of_get? h hGet)

/-- The lines of the output are edits that make up the listing. -/
theorem replay_of_perm
    (h : Logged log s) (hPerm : lines.Perm (s.list.map listed ++ [""])) :
    Edit.replay (lines.map Edit.ofText) = s.listing := by
  apply Edit.replay_eq_of_stores
  · rw [List.forall_mem_map]
    intro line hLine
    rcases eq_empty_or_listed hPerm line hLine with rfl | ⟨n, statement, hGet, rfl⟩
    · exact Or.inl Edit.ofText_empty
    · exact Or.inr ⟨n, statement, ofText_listed_of_get? h hGet, hGet⟩
  · intro n statement hGet
    have hLine : listed (n, statement.text) ∈ lines := by
      apply hPerm.mem_iff.mpr
      exact List.mem_append_left [""] (mem_map_listed_iff.mpr ⟨n, statement, hGet, rfl⟩)
    have hMem := List.mem_map_of_mem (f := Edit.ofText) hLine
    rwa [ofText_listed_of_get? h hGet] at hMem

end Reentered

/-- What `LIST` prints is source.  Its lines can be entered in any order into a fresh session, at
whatever console; each of them is accepted, and the listing and its output are the same again. -/
theorem listing_reenters
    [Console σ]
    {log : List Entry} {s : Session σ}
    (h : Logged log s)
    (hLines : ∀ entry ∈ log, '\n' ∉ entry.line.toList) :
    ∃ output, s.Lists output ∧
      ∀ lines : List String, lines.Perm (Console.splitLines output) →
        ∀ {τ : Type} [Console τ],
          (∀ _ : τ, ∃ s' : Session τ, Logged (lines.map fun line => ⟨line, .ok .ready⟩) s') ∧
          ∀ log' (s' : Session τ), Logged log' s' → log'.map Entry.line = lines →
            (∀ entry ∈ log', entry.outcome = .ok .ready) ∧
            s'.listing = s.listing ∧ s'.Lists output := by
  have hNewlines : ∀ line ∈ s.list.map listed, '\n' ∉ line.toList := by
    intro line hLine
    obtain ⟨n, statement, hGet, rfl⟩ := mem_map_listed_iff.mp hLine
    exact newline_notMem_listed h hLines hGet
  refine ⟨_, s.lists_joinLines, ?_⟩
  rw [Console.splitLines_joinLines hNewlines]
  intro lines hPerm τ _
  have hAccepted : ∀ line ∈ lines, Accepted τ line := accepted_of_perm h hPerm
  refine ⟨exists_logged_of_accepted hAccepted, ?_⟩
  rintro log' s' hLogged rfl
  have hListing : s'.listing = s.listing := by
    rw [listing_of_logged hLogged, map_edit, replay_of_perm h hPerm]
  have hList : s'.list = s.list := by rw [list, list, hListing]
  refine ⟨?_, hListing, ?_⟩
  · exact outcome_of_accepted hLogged fun entry hEntry => hAccepted _ (List.mem_map_of_mem hEntry)
  · rw [← hList]
    exact s'.lists_joinLines

/-- Two lines are listed with their numbers and texts trimmed, and entered again the other way
round. -/
theorem listing_reenters_reversed :
    ∃ s s' : Session Transcript,
      Logged [⟨"20PRINT  X ", .ok .ready⟩, ⟨"  007 LET X = 1", .ok .ready⟩] s ∧
      s.Lists "7 LET X = 1\n20 PRINT  X\n" ∧
      Logged [⟨"20 PRINT  X", .ok .ready⟩, ⟨"", .ok .ready⟩, ⟨"7 LET X = 1", .ok .ready⟩] s' ∧
      s'.listing = s.listing ∧ s'.Lists "7 LET X = 1\n20 PRINT  X\n" := by
  have h₁ := (Logged.fresh Transcript.empty).enter .empty ⟨"20PRINT  X ", .ok .ready⟩ ⟨0, rfl⟩
  have h := h₁.enter .empty ⟨"  007 LET X = 1", .ok .ready⟩ ⟨0, rfl⟩
  obtain ⟨output, hLists, hReenters⟩ := listing_reenters h (by decide +kernel)
  have hOutput : output = "7 LET X = 1\n20 PRINT  X\n" := by
    obtain ⟨console', hRun, hShown⟩ :=
      hLists Transcript Transcript.output Console.records_transcript 0 .empty
    have hConsole := congrArg (·.map fun r => r.2.machine.console.output) hRun
    have hPrinted : some console'.output = some "7 LET X = 1\n20 PRINT  X\n" :=
      hConsole.symm.trans (by decide +kernel)
    rw [← Option.some_inj.mp hPrinted, hShown]
    exact String.empty_append.symm
  subst hOutput
  have h₁' := (Logged.fresh Transcript.empty).enter .empty ⟨"20 PRINT  X", .ok .ready⟩ ⟨0, rfl⟩
  have h₂' := h₁'.enter .empty ⟨"", .ok .ready⟩ ⟨0, rfl⟩
  have h' := h₂'.enter .empty ⟨"7 LET X = 1", .ok .ready⟩ ⟨0, rfl⟩
  have hPerm : ["20 PRINT  X", "", "7 LET X = 1"].Perm
      (Console.splitLines "7 LET X = 1\n20 PRINT  X\n") := by
    decide +kernel
  obtain ⟨_, hListing, hLists'⟩ := (hReenters _ hPerm).2 _ _ h' rfl
  exact ⟨_, _, h, hLists, h', hListing, hLists'⟩

end Session
end IntegerBasic
