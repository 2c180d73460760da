import IntegerBasic.Proofs.ProgramPath

/-!
# Outcomes of runs

**Definitions.**  `RunsTo listing m r m'` says that the run of a listing comes to an end with the
result `r` and leaves the machine `m'`, however many steps that takes; `ExecutesDirectly` says it of
a text that is executed at once.  `executedSince m m'` lists the lines that were executed in
between, by the record of events.

**Results.**
* `RunsTo.unique`: a run has one outcome at most.
* `RunsTo.invariant`: what every statement keeps, a run keeps.
* `RunsTo.cursor_cases`: where a run leaves the cursor.
* `ExecutesDirectly.cases`: what executing a text at once can come to.
* `runsTo_iff_exists_path`: a run comes to an end where its path does.
* `executedSince_of_path`: the lines executed are those of the path, and the line that failed if
  there is one.
* `halts_iff_of_finished`, `halts_iff_of_stored`: the loop from where the cursor is.
* `exists_simulation`: turns of one program that are matched by turns of another, from related
  machines to related machines, match whole runs.
-/

namespace IntegerBasic

/-- The line whose execution the event records. -/
def Event.line? : Event → Option LineNumber
  | executing n => some n
  | inserted .. | removed _ | cleared _ | started _ | jumped .. | finished => none

theorem Departure.filterMap_events
    (n : LineNumber) (d : Departure) :
    (d.events n).filterMap Event.line? = [] := by
  cases d <;> rfl

theorem Hop.filterMap_flatMap_events
    (hops : List Hop) :
    (hops.flatMap Hop.events).filterMap Event.line? = hops.map Hop.line := by
  induction hops with
  | nil => rfl
  | cons hop hops ih =>
      have hFirst : hop.events.filterMap Event.line? = [hop.line] := by
        have hLine : Event.line? (.executing hop.line) = some hop.line := rfl
        rw [Hop.events, List.filterMap_cons_some hLine, hop.departure.filterMap_events]
      rw [List.flatMap_cons, List.filterMap_append, hFirst, ih]
      rfl

namespace Machine

variable {σ : Type}

/-- The lines that were executed between two machines, by the record of events. -/
def executedSince (m m' : Machine σ) : List LineNumber :=
  (m'.events.toList.drop m.events.size).filterMap Event.line?

theorem executedSince_of_append
    {m m' : Machine σ} {log : List Event}
    (h : m'.events.toList = m.events.toList ++ log) :
    executedSince m m' = log.filterMap Event.line? := by
  have hDrop : (m.events.toList ++ log).drop m.events.size = log := by
    rw [← Array.length_toList, List.drop_left]
  rw [executedSince, h, hDrop]

theorem resolves_started
    (listing : Listing) (m : Machine σ) :
    listing.Resolves (m.started listing).cursor :=
  listing.isFirst_first?.resolves

variable [Console σ] {listing : Listing}

/-- The run of the listing comes to an end with this result and leaves this machine, however many
steps that takes. -/
def RunsTo (listing : Listing) (m : Machine σ) (r : Except Error Unit) (m' : Machine σ) : Prop :=
  ∃ fuel, (run fuel listing).run.run m = some (r, m')

theorem fueled_run
    (listing : Listing) :
    Action.Fueled fun fuel => (run fuel listing : Action (Machine σ) Unit) :=
  fun _ _ hLe _ _ h => runFrom_mono hLe h

/-- A run has one outcome at most. -/
theorem RunsTo.unique
    {m m₁ m₂ : Machine σ} {r₁ r₂ : Except Error Unit}
    (h₁ : RunsTo listing m r₁ m₁) (h₂ : RunsTo listing m r₂ m₂) :
    r₁ = r₂ ∧ m₁ = m₂ := by
  obtain ⟨fuel₁, h₁⟩ := h₁
  obtain ⟨fuel₂, h₂⟩ := h₂
  exact Prod.mk.inj ((fueled_run listing).unique h₁ h₂)

/-- Executing the text at once comes to an end with this result, however many steps it takes. -/
def ExecutesDirectly (listing : Listing) (text : String) (m : Machine σ) (r : Except Error Unit)
    (m' : Machine σ) : Prop :=
  ∃ fuel, (runDirect fuel listing text).run.run m = some (r, m')

section Direct

variable {text : String} {s : Statement} {m m' : Machine σ} {r : Except Error Unit}

theorem executesDirectly_iff_of_error
    {e : Error}
    (h : Statement.parse text = .error e) :
    ExecutesDirectly listing text m r m' ↔ r = .error e ∧ m' = m := by
  simp only [ExecutesDirectly, run_runDirect_of_error _ listing m h, Option.some_inj,
    Prod.mk.injEq, exists_const]
  exact and_congr eq_comm eq_comm

theorem executesDirectly_iff_of_illegal
    (h : Statement.parse text = .ok s) (hIllegal : s.instruction.allowedDirect = false) :
    ExecutesDirectly listing text m r m' ↔ r = .error (.of .illegalDirect) ∧ m' = m := by
  simp only [ExecutesDirectly, run_runDirect_of_illegal _ listing m h hIllegal, Option.some_inj,
    Prod.mk.injEq, exists_const]
  exact and_congr eq_comm eq_comm

/-- To execute a text at once is to execute its statement and to put the cursor back. -/
theorem executesDirectly_iff_of_allowed
    (h : Statement.parse text = .ok s) (hAllowed : s.instruction.allowedDirect = true) :
    ExecutesDirectly listing text m r m' ↔
      ∃ m₁, Executes listing s.instruction m r m₁ ∧ m' = { m₁ with cursor := m.cursor } := by
  constructor
  · rintro ⟨fuel, hRun⟩
    rw [run_runDirect_of_allowed fuel listing m h hAllowed, Option.map_eq_some_iff] at hRun
    obtain ⟨⟨_, m₁⟩, hExecute, hOutcome⟩ := hRun
    obtain ⟨rfl, rfl⟩ := Prod.mk.inj hOutcome
    exact ⟨m₁, ⟨fuel, hExecute⟩, rfl⟩
  · rintro ⟨m₁, ⟨fuel, hExecute⟩, rfl⟩
    refine ⟨fuel, ?_⟩
    rw [run_runDirect_of_allowed fuel listing m h hAllowed, hExecute]
    rfl

/-- What executing a text at once can come to: the text is refused, or its statement is executed and
the cursor is put back. -/
theorem ExecutesDirectly.cases
    (h : ExecutesDirectly listing text m r m') :
    (∃ e, Statement.parse text = .error e ∧ r = .error e ∧ m' = m) ∨
    (∃ s, Statement.parse text = .ok s ∧ r = .error (.of .illegalDirect) ∧ m' = m) ∨
    (∃ s m₁, Statement.parse text = .ok s ∧ Executes listing s.instruction m r m₁ ∧
      m' = { m₁ with cursor := m.cursor }) := by
  cases hParse : Statement.parse text with
  | error e => exact Or.inl ⟨e, rfl, (executesDirectly_iff_of_error hParse).mp h⟩
  | ok s =>
      cases hAllowed : s.instruction.allowedDirect with
      | false =>
          exact Or.inr (Or.inl ⟨s, rfl, (executesDirectly_iff_of_illegal hParse hAllowed).mp h⟩)
      | true =>
          obtain ⟨m₁, hExecutes⟩ := (executesDirectly_iff_of_allowed hParse hAllowed).mp h
          exact Or.inr (Or.inr ⟨s, m₁, rfl, hExecutes⟩)

/-- Executing a text at once leaves the cursor where it was. -/
theorem ExecutesDirectly.cursor_eq
    (h : ExecutesDirectly listing text m r m') :
    m'.cursor = m.cursor := by
  rcases h.cases with ⟨_, _, _, rfl⟩ | ⟨_, _, _, rfl⟩ | ⟨_, _, _, _, rfl⟩ <;> rfl

end Direct

/-- A run comes to an end where its path does. -/
theorem runsTo_iff_exists_path
    {m m' : Machine σ} {r : Except Error Unit} :
    RunsTo listing m r m' ↔
      ∃ hops point, Path listing (m.started listing) hops point ∧ Ends listing point r m' := by
  constructor
  · rintro ⟨fuel, hRun⟩
    exact exists_path_of_runFrom (resolves_started listing m) hRun
  · rintro ⟨hops, point, hPath, hEnds⟩
    exact exists_runFrom_of_path hPath hEnds

/-- The lines executed by a run are those of its path, and the line that failed if there is one. -/
theorem executedSince_of_path
    {m point m' : Machine σ} {hops : List Hop} {r : Except Error Unit}
    (hPath : Path listing (m.started listing) hops point) (hEnds : Ends listing point r m') :
    executedSince m m' = hops.map Hop.line ++ point.cursor.toList := by
  have hEvents : point.events.toList =
      m.events.toList ++ .started listing.first? :: hops.flatMap Hop.events := by
    rw [hPath.events_eq]
    simp [started, start, note]
  cases hEnds with
  | finished hNone =>
      have hLog : (point.note .finished).events.toList = m.events.toList ++
          (.started listing.first? :: hops.flatMap Hop.events ++ [.finished]) := by
        simp [note, hEvents]
      rw [executedSince_of_append hLog, List.filterMap_append, List.filterMap_cons_none rfl,
        Hop.filterMap_flatMap_events, hNone]
      rfl
  | @failed m' n _ _ hCursor _ _ _ hLast =>
      have hLog : m'.events.toList = m.events.toList ++
          (.started listing.first? :: hops.flatMap Hop.events ++ [.executing n]) := by
        simp [hLast, hEvents]
      rw [executedSince_of_append hLog, List.filterMap_append, List.filterMap_cons_none rfl,
        Hop.filterMap_flatMap_events, hCursor]
      rfl

/-- The line under the cursor at the start of a path is executed, unless the path ends there. -/
theorem Path.mem_of_cursor
    {m point : Machine σ} {hops : List Hop} {n : LineNumber}
    (h : Path listing m hops point) (hCursor : m.cursor = some n) :
    n ∈ hops.map Hop.line ++ point.cursor.toList := by
  cases h with
  | here => simp [hCursor]
  | hop hCursor' =>
      cases hCursor.symm.trans hCursor'
      exact List.mem_cons_self

/-- A statement that fails ends the run, with its error tagged by the line. -/
theorem ends_of_executes_error
    {m m' : Machine σ} {n : LineNumber} {s : Statement} {e : Error}
    (hCursor : m.cursor = some n) (hGet : listing.get? n = some s)
    (h : Executes listing s.instruction (m.note (.executing n)) (.error e) m') :
    Ends listing m (.error (e.inLine n)) m' := by
  obtain ⟨hKept, hEvents⟩ := keeps_of_executes_error h
  exact .failed hCursor hGet h (hKept.trans hCursor) hEvents

/-- From here on, the loop comes to an end with this result and leaves this machine. -/
def Halts (listing : Listing) (m : Machine σ) (r : Except Error Unit) (m' : Machine σ) : Prop :=
  ∃ point, Relation.ReflTransGen (Turn listing) m point ∧ Ends listing point r m'

theorem runsTo_iff_halts
    {m m' : Machine σ} {r : Except Error Unit} :
    RunsTo listing m r m' ↔ Halts listing (m.started listing) r m' := by
  rw [runsTo_iff_exists_path]
  constructor
  · rintro ⟨hops, point, hPath, hEnds⟩
    exact ⟨point, hPath.turns, hEnds⟩
  · rintro ⟨point, hTurns, hEnds⟩
    obtain ⟨hops, hPath⟩ := exists_path_of_turns hTurns
    exact ⟨hops, point, hPath, hEnds⟩

theorem Halts.of_turns
    {m m₁ m' : Machine σ} {r : Except Error Unit}
    (hTurns : Relation.ReflTransGen (Turn listing) m m₁) (h : Halts listing m₁ r m') :
    Halts listing m r m' := by
  obtain ⟨point, hRest, hEnds⟩ := h
  exact ⟨point, hTurns.trans hRest, hEnds⟩

/-- What holds when a run is started and is kept by every statement, whether it fails or not, holds
when the run has come to its end. -/
theorem RunsTo.invariant
    {P : Except Error Unit → Machine σ → Prop} {m m' : Machine σ} {r : Except Error Unit}
    (h : RunsTo listing m r m')
    (hStart : P (.ok ()) (m.started listing))
    (hExecutes : ∀ n i a b, P (.ok ()) a →
      Executes listing i (a.note (.executing n)) (.ok ()) b → P (.ok ()) b)
    (hFails : ∀ n i a e b, P (.ok ()) a →
      Executes listing i (a.note (.executing n)) (.error e) b → P (.error (e.inLine n)) b)
    (hFinish : ∀ a, P (.ok ()) a → P (.ok ()) (a.note .finished)) :
    P r m' := by
  obtain ⟨point, hTurns, hEnds⟩ := runsTo_iff_halts.mp h
  have hPoint : P (.ok ()) point := by
    clear hEnds
    induction hTurns with
    | refl => exact hStart
    | tail _ hTurn ih =>
        obtain ⟨n, s, _, hExecuted⟩ := hTurn
        exact hExecutes n s.instruction _ _ ih hExecuted
  cases hEnds with
  | finished => exact hFinish point hPoint
  | @failed _ n s e _ _ hFailed => exact hFails n s.instruction point e _ hPoint hFailed

/-- A run that succeeds takes the cursor away; one that fails leaves it at the line of its error. -/
theorem RunsTo.cursor_cases
    {m m' : Machine σ} {r : Except Error Unit}
    (h : RunsTo listing m r m') :
    (r = .ok () ∧ m'.cursor = none) ∨
      ∃ e n, r = .error e ∧ e.line = some n ∧ m'.cursor = some n := by
  obtain ⟨point, _, hEnds⟩ := runsTo_iff_halts.mp h
  cases hEnds with
  | finished hNone => exact Or.inl ⟨rfl, hNone⟩
  | failed _ _ _ hCursor _ => exact Or.inr ⟨_, _, rfl, rfl, hCursor⟩

/-- Without a cursor, the loop has come to its end. -/
theorem halts_iff_of_finished
    {m m' : Machine σ} {r : Except Error Unit}
    (hNone : m.cursor = none) :
    Halts listing m r m' ↔ r = .ok () ∧ m' = m.note .finished := by
  constructor
  · rintro ⟨point, hTurns, hEnds⟩
    rcases hTurns.cases_head with rfl | ⟨m₁, ⟨n, s, hCurrent, _⟩, _⟩
    · cases hEnds with
      | finished _ => exact ⟨rfl, rfl⟩
      | failed hCursor => cases hNone.symm.trans hCursor
    · cases hNone.symm.trans (current?_eq_some_iff.mp hCurrent).1
  · rintro ⟨rfl, rfl⟩
    exact ⟨m, .refl, .finished hNone⟩

/-- At a stored line, the loop executes its statement, and then goes on unless that failed. -/
theorem halts_iff_of_stored
    {m m' : Machine σ} {r : Except Error Unit} {n : LineNumber} {s : Statement}
    (hCursor : m.cursor = some n) (hGet : listing.get? n = some s) :
    Halts listing m r m' ↔
      (∃ m₁, Executes listing s.instruction (m.note (.executing n)) (.ok ()) m₁ ∧
        Halts listing m₁ r m') ∨
      (∃ e, Executes listing s.instruction (m.note (.executing n)) (.error e) m' ∧
        r = .error (e.inLine n)) := by
  have hCurrent := current?_eq_some_iff.mpr ⟨hCursor, hGet⟩
  constructor
  · rintro ⟨point, hTurns, hEnds⟩
    rcases hTurns.cases_head with rfl | ⟨m₁, ⟨n', s', hCurrent', hExecutes⟩, hRest⟩
    · cases hEnds with
      | finished hNone => cases hNone.symm.trans hCursor
      | failed hCursor' hGet' hExecutes =>
          cases hCursor.symm.trans hCursor'
          cases hGet.symm.trans hGet'
          exact Or.inr ⟨_, hExecutes, rfl⟩
    · cases hCurrent.symm.trans hCurrent'
      exact Or.inl ⟨m₁, hExecutes, point, hRest, hEnds⟩
  · rintro (⟨m₁, hExecutes, hRest⟩ | ⟨e, hExecutes, rfl⟩)
    · exact hRest.of_turns (.single ⟨n, s, hCurrent, hExecutes⟩)
    · exact ⟨m, .refl, ends_of_executes_error hCursor hGet hExecutes⟩

/-- If the turns of one program are matched by turns of another one, from related machines to
related machines, and so are its ends, then whole runs are matched. -/
theorem exists_simulation
    {listing' : Listing} (related final : Machine σ → Machine σ → Prop)
    (hTurn : ∀ a b a₁, related a b → Turn listing a a₁ →
      ∃ b₁, Relation.ReflTransGen (Turn listing') b b₁ ∧ related a₁ b₁)
    (hEnds : ∀ a b r a', related a b → Ends listing a r a' →
      ∃ b', Halts listing' b r b' ∧ final a' b')
    {a b a' : Machine σ} {r : Except Error Unit}
    (hRelated : related a b) (h : Halts listing a r a') :
    ∃ b', Halts listing' b r b' ∧ final a' b' := by
  obtain ⟨point, hTurns, hEnd⟩ := h
  induction hTurns using Relation.ReflTransGen.head_induction_on generalizing b with
  | refl => exact hEnds point b r a' hRelated hEnd
  | head hFirst _ ih =>
      obtain ⟨b₁, hMatched, hRelated₁⟩ := hTurn _ b _ hRelated hFirst
      obtain ⟨b', hHalts, hFinal⟩ := ih hRelated₁
      exact ⟨b', hHalts.of_turns hMatched, hFinal⟩

end Machine
end IntegerBasic
