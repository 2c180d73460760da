import IntegerBasic.Proofs.Effect
import Mathlib.Logic.Relation

/-!
# The path of a run

**Definitions.**  One `Turn` of the loop executes the statement under the cursor without error.  A
`Path` is a chain of turns in which each line is stored and control leaves it as its statement
asks: to the least line above it, to a stored target, or to the end.  `Ends` says how a run ends
at a point of its path: with no line to execute, or with the failure of a statement.

**Invariant.**  At every point the cursor is empty or a stored line (`Resolves`), although it is
looked up anew at every turn.

**Record.**  The run succeeds exactly if the path comes to a point without a cursor, and exactly
then it records that it has finished.  It fails exactly if a statement on the path fails, with that
error and with the cursor on its line.

**Results.**
* `exists_departs_of_executes`: what one turn does to the cursor and the record of events.
* `exists_path_of_runFrom`, `exists_runFrom_of_path`: the loop follows a path, and every path.
* `run_follows_path`: a run starts at the lowest line, follows the path and records it.
-/

namespace IntegerBasic

namespace Listing

/-- The number is the lowest one stored; there is none in an empty listing. -/
def IsFirst (listing : Listing) : Option LineNumber → Prop
  | none => ∀ k, listing.contains k = false
  | some n => listing.contains n = true ∧ ∀ k, listing.contains k = true → n ≤ k

/-- The number is the lowest one stored above `n`, if there is any. -/
def IsNext (listing : Listing) (n : LineNumber) : Option LineNumber → Prop
  | none => ∀ k, listing.contains k = true → k ≤ n
  | some m => listing.contains m = true ∧ n < m ∧
      ∀ k, listing.contains k = true → n < k → m ≤ k

/-- There is no number, or it is that of a stored line. -/
def Resolves (listing : Listing) (cursor : Option LineNumber) : Prop :=
  cursor = none ∨ ∃ n s, cursor = some n ∧ listing.get? n = some s

theorem resolves_of_contains
    {listing : Listing} {n : LineNumber}
    (h : listing.contains n = true) :
    listing.Resolves (some n) := by
  obtain ⟨s, hs⟩ := Option.isSome_iff_exists.mp h
  exact Or.inr ⟨n, s, rfl, hs⟩

theorem isFirst_first?
    (listing : Listing) :
    listing.IsFirst listing.first? := by
  cases h : listing.first? with
  | none =>
      have hEmpty : listing.lines = [] := by simpa [first?] using h
      intro k
      simp [contains, get?, hEmpty]
  | some n => exact first?_eq_some_iff.mp h

theorem isNext_next?
    (listing : Listing) (n : LineNumber) :
    listing.IsNext n (listing.next? n) := by
  cases h : listing.next? n with
  | none =>
      intro k hk
      obtain ⟨s, hs⟩ := contains_iff.mp hk
      rw [next?, Option.map_eq_none_iff, List.find?_eq_none] at h
      simpa using h (k, s) hs
  | some m => exact next?_eq_some_iff.mp h

theorem IsFirst.resolves
    {listing : Listing} {cursor : Option LineNumber}
    (h : listing.IsFirst cursor) :
    listing.Resolves cursor := by
  cases cursor with
  | none => exact Or.inl rfl
  | some n => exact resolves_of_contains h.1

theorem IsNext.resolves
    {listing : Listing} {n : LineNumber} {cursor : Option LineNumber}
    (h : listing.IsNext n cursor) :
    listing.Resolves cursor := by
  cases cursor with
  | none => exact Or.inl rfl
  | some m => exact resolves_of_contains h.1

end Listing

/-- Where control arrives when it leaves line `n`. -/
def Departure.LeadsTo (listing : Listing) (n : LineNumber) :
    Departure → Option LineNumber → Prop
  | .onward, next => listing.IsNext n next
  | .stop, next => next = none
  | .jump _ target, next => listing.contains target = true ∧ next = some target

theorem Departure.LeadsTo.resolves
    {listing : Listing} {n : LineNumber} {d : Departure} {next : Option LineNumber}
    (h : d.LeadsTo listing n next) :
    listing.Resolves next := by
  cases d with
  | onward => exact Listing.IsNext.resolves h
  | stop => exact Or.inl h
  | jump c target =>
      obtain ⟨hContains, rfl⟩ := h
      exact Listing.resolves_of_contains hContains

/-- A line that was executed, and how control left it. -/
structure Hop where
  line : LineNumber
  departure : Departure

/-- What is recorded of a departure: only jumps are. -/
def Departure.events (n : LineNumber) : Departure → List Event
  | .jump _ target => [.jumped (some n) target]
  | .onward | .stop => []

/-- What is recorded of a hop: the line, and then the jump if there was one. -/
def Hop.events (hop : Hop) : List Event :=
  .executing hop.line :: hop.departure.events hop.line

theorem Hop.finished_notMem_events
    (hop : Hop) :
    Event.finished ∉ hop.events := by
  cases h : hop.departure <;> simp [Hop.events, Departure.events, h]

namespace Machine

variable {σ : Type}

theorem current?_eq_some_iff
    {listing : Listing} {m : Machine σ} {n : LineNumber} {s : Statement} :
    m.current? listing = some (n, s) ↔ m.cursor = some n ∧ listing.get? n = some s := by
  cases hCursor : m.cursor with
  | none => simp [current?, hCursor]
  | some k =>
      cases hGet : listing.get? k with
      | none =>
          simp only [current?, hCursor, hGet, Option.bind_eq_bind, Option.bind_some,
            Option.bind_none, reduceCtorEq, Option.some_inj, false_iff, not_and]
          rintro rfl
          simp [hGet]
      | some t =>
          simp only [current?, hCursor, hGet, Option.bind_eq_bind, Option.bind_some,
            Option.pure_def, Option.some_inj, Prod.mk.injEq]
          constructor
          · rintro ⟨rfl, rfl⟩
            exact ⟨rfl, hGet⟩
          · rintro ⟨rfl, hs⟩
            rw [hGet, Option.some_inj] at hs
            exact ⟨rfl, hs⟩

theorem current?_eq_none_of_resolves
    {listing : Listing} {m : Machine σ}
    (hResolves : listing.Resolves m.cursor)
    (h : m.current? listing = none) :
    m.cursor = none := by
  rcases hResolves with hNone | ⟨n, s, hCursor, hGet⟩
  · exact hNone
  · rw [current?_eq_some_iff.mpr ⟨hCursor, hGet⟩] at h
    contradiction

/-- A departure that succeeds leads where it says. -/
theorem leadsTo_of_depart
    {listing : Listing} {d : Departure} {m m' : Machine σ} {n : LineNumber}
    (hCursor : m.cursor = some n)
    (h : (depart listing d).run.run m = some (.ok (), m')) :
    d.LeadsTo listing n m'.cursor ∧ m'.events.toList = m.events.toList ++ d.events n := by
  cases d with
  | onward =>
      cases h
      have hNext : (m.advance listing).cursor = listing.next? n := by
        rw [cursor_advance, hCursor, Option.bind_some]
      rw [hNext]
      exact ⟨listing.isNext_next? n, by simp [advance, Departure.events]⟩
  | stop =>
      cases h
      exact ⟨rfl, by simp [halt, Departure.events]⟩
  | jump c target =>
      cases hContains : listing.contains target with
      | true =>
          rw [run_depart_jump_of_contains c m hContains] at h
          cases h
          exact ⟨⟨hContains, rfl⟩, by simp [note, Departure.events, hCursor]⟩
      | false =>
          rw [run_depart_jump_of_not_contains c m hContains] at h
          cases h

variable [Console σ]

/-- An outcome of executing an instruction, however many steps that takes. -/
def Executes (listing : Listing) (i : Instruction) (m : Machine σ) (r : Except Error Unit)
    (m' : Machine σ) : Prop :=
  ∃ fuel, (execute fuel listing i).run.run m = some (r, m')

/-- One turn of the loop. -/
def Turn (listing : Listing) (m m' : Machine σ) : Prop :=
  ∃ n s, m.current? listing = some (n, s) ∧
    Executes listing s.instruction (m.note (.executing n)) (.ok ()) m'

/-- The loop executes the lines of `hops` one after the other, each as its statement asks. -/
inductive Path (listing : Listing) : Machine σ → List Hop → Machine σ → Prop
  | here (m : Machine σ) :
      Path listing m [] m
  | hop {m m₁ m₂ : Machine σ} {n : LineNumber} {s : Statement} {d : Departure} {hops : List Hop} :
      m.cursor = some n →
      listing.get? n = some s →
      Executes listing s.instruction (m.note (.executing n)) (.ok ()) m₁ →
      Departs m.vars s.instruction d →
      d.LeadsTo listing n m₁.cursor →
      Path listing m₁ hops m₂ →
      Path listing m (⟨n, d⟩ :: hops) m₂

/-- How a run ends at a point of its path. -/
inductive Ends (listing : Listing) : Machine σ → Except Error Unit → Machine σ → Prop
  | finished {m : Machine σ} :
      m.cursor = none →
      Ends listing m (.ok ()) (m.note .finished)
  | failed {m m' : Machine σ} {n : LineNumber} {s : Statement} {e : Error} :
      m.cursor = some n →
      listing.get? n = some s →
      Executes listing s.instruction (m.note (.executing n)) (.error e) m' →
      m'.cursor = some n →
      m'.events = m.events.push (.executing n) →
      Ends listing m (.error (e.inLine n)) m'

/-- A statement that succeeds leaves its line as it asks to. -/
theorem exists_departs_of_executes
    {listing : Listing} {i : Instruction} {m m' : Machine σ} {n : LineNumber}
    (hCursor : m.cursor = some n)
    (h : Executes listing i m (.ok ()) m') :
    ∃ d, Departs m.vars i d ∧ d.LeadsTo listing n m'.cursor ∧
      m'.events.toList = m.events.toList ++ d.events n := by
  obtain ⟨fuel, hRun⟩ := h
  rw [run_execute_eq_some_iff] at hRun
  rcases hRun with ⟨d, m₁, hEffect, hDepart⟩ | ⟨e, _, hError⟩
  · obtain ⟨hCursor₁, hEvents₁⟩ := (detached_effect fuel i).keeps hEffect
    obtain ⟨hLeads, hEvents⟩ := leadsTo_of_depart (hCursor₁.trans hCursor) hDepart
    refine ⟨d, departs_of_effect hEffect, hLeads, ?_⟩
    rw [hEvents, hEvents₁]
  · contradiction

/-- A statement that fails leaves the cursor and the record as they were. -/
theorem keeps_of_executes_error
    {listing : Listing} {i : Instruction} {m m' : Machine σ} {e : Error}
    (h : Executes listing i m (.error e) m') :
    m'.cursor = m.cursor ∧ m'.events = m.events := by
  obtain ⟨fuel, hRun⟩ := h
  rw [run_execute_eq_some_iff] at hRun
  rcases hRun with ⟨d, m₁, hEffect, hDepart⟩ | ⟨e, hEffect, _⟩
  · obtain ⟨_, _, _, _, _, rfl⟩ := exists_jump_of_depart_error hDepart
    exact (detached_effect fuel i).keeps hEffect
  · exact (detached_effect fuel i).keeps hEffect

/-- One turn of the loop is one hop of a path. -/
theorem exists_hop_of_turn
    {listing : Listing} {m m' : Machine σ}
    (h : Turn listing m m') :
    ∃ hop, Path listing m [hop] m' := by
  obtain ⟨n, s, hCurrent, hExecutes⟩ := h
  obtain ⟨hCursor, hGet⟩ := current?_eq_some_iff.mp hCurrent
  have hNoted : (m.note (.executing n)).cursor = some n := hCursor
  obtain ⟨d, hDeparts, hLeads, _⟩ := exists_departs_of_executes hNoted hExecutes
  exact ⟨⟨n, d⟩, .hop hCursor hGet hExecutes hDeparts hLeads (.here m')⟩

namespace Path

variable {listing : Listing} {m m₁ m₂ : Machine σ} {hops hops' : List Hop}

theorem append
    (h : Path listing m hops m₁) (h' : Path listing m₁ hops' m₂) :
    Path listing m (hops ++ hops') m₂ := by
  induction h with
  | here m => exact h'
  | hop hCursor hGet hExecutes hDeparts hLeads _ ih =>
      exact .hop hCursor hGet hExecutes hDeparts hLeads (ih h')

/-- The cursor resolves at every point of a path. -/
theorem resolves
    (h : Path listing m hops m₁) (hResolves : listing.Resolves m.cursor) :
    listing.Resolves m₁.cursor := by
  induction h with
  | here m => exact hResolves
  | hop _ _ _ _ hLeads _ ih => exact ih hLeads.resolves

/-- The record lists exactly the path. -/
theorem events_eq
    (h : Path listing m hops m₁) :
    m₁.events.toList = m.events.toList ++ hops.flatMap Hop.events := by
  induction h with
  | here m => simp
  | @hop m m₁ m₂ n s d hops hCursor _ hExecutes hDeparts _ _ ih =>
      have hNoted : (m.note (.executing n)).cursor = some n := hCursor
      obtain ⟨d', hDeparts', _, hEvents⟩ := exists_departs_of_executes hNoted hExecutes
      obtain rfl : d' = d := hDeparts'.unique hDeparts
      have hNote : (m.note (.executing n)).events.toList = m.events.toList ++ [.executing n] := by
        simp [note]
      rw [ih, hEvents, hNote]
      simp [Hop.events]

theorem turns
    (h : Path listing m hops m₁) :
    Relation.ReflTransGen (Turn listing) m m₁ := by
  induction h with
  | here m => exact .refl
  | @hop m _ _ n s _ _ hCursor hGet hExecutes _ _ _ ih =>
      exact .head ⟨n, s, current?_eq_some_iff.mpr ⟨hCursor, hGet⟩, hExecutes⟩ ih

end Path

theorem exists_path_of_turns
    {listing : Listing} {m point : Machine σ}
    (h : Relation.ReflTransGen (Turn listing) m point) :
    ∃ hops, Path listing m hops point := by
  induction h with
  | refl => exact ⟨[], .here m⟩
  | tail _ hTurn ih =>
      obtain ⟨hops, hPath⟩ := ih
      obtain ⟨hop, hHop⟩ := exists_hop_of_turn hTurn
      exact ⟨hops ++ [hop], hPath.append hHop⟩

theorem runFrom_mono
    {listing : Listing} {fuel fuel' : Nat} {m : Machine σ} {outcome : Except Error Unit × Machine σ}
    (hLe : fuel ≤ fuel')
    (h : runFrom listing fuel m = some outcome) :
    runFrom listing fuel' m = some outcome := by
  induction fuel generalizing fuel' m with
  | zero => contradiction
  | succ fuel ih =>
      obtain ⟨fuel', rfl⟩ : ∃ n, fuel' = n + 1 := ⟨fuel' - 1, by omega⟩
      have hLe : fuel ≤ fuel' := by omega
      cases hCurrent : m.current? listing with
      | none =>
          rw [runFrom_of_current?_eq_none fuel hCurrent] at h
          rw [runFrom_of_current?_eq_none fuel' hCurrent, h]
      | some line =>
          obtain ⟨n, s⟩ := line
          rw [runFrom, hCurrent] at h
          cases hExecute : (execute fuel listing s.instruction).run.run (m.note (.executing n)) with
          | none => simp [hExecute] at h
          | some result =>
              have hMore := execute_extends hLe listing s.instruction _ _ hExecute
              simp only [hExecute] at h
              obtain ⟨r, m'⟩ := result
              cases r with
              | error e => rw [runFrom_of_error hCurrent hMore, ← h]
              | ok u =>
                  rw [runFrom_of_ok hCurrent hMore]
                  exact ih hLe h

/-- The loop follows a path to its end. -/
theorem exists_path_of_runFrom
    {listing : Listing} {fuel : Nat} {m m' : Machine σ} {r : Except Error Unit}
    (hResolves : listing.Resolves m.cursor)
    (h : runFrom listing fuel m = some (r, m')) :
    ∃ hops point, Path listing m hops point ∧ Ends listing point r m' := by
  induction fuel generalizing m with
  | zero => contradiction
  | succ fuel ih =>
      cases hCurrent : m.current? listing with
      | none =>
          rw [runFrom_of_current?_eq_none fuel hCurrent] at h
          cases h
          exact ⟨[], m, .here m, .finished (current?_eq_none_of_resolves hResolves hCurrent)⟩
      | some line =>
          obtain ⟨n, s⟩ := line
          obtain ⟨hCursor, hGet⟩ := current?_eq_some_iff.mp hCurrent
          rw [runFrom, hCurrent] at h
          cases hExecute : (execute fuel listing s.instruction).run.run (m.note (.executing n)) with
          | none => simp [hExecute] at h
          | some result =>
              simp only [hExecute] at h
              obtain ⟨r₁, m₁⟩ := result
              cases r₁ with
              | error e =>
                  cases h
                  have hExecutes : Executes listing s.instruction (m.note (.executing n))
                      (.error e) m' := ⟨fuel, hExecute⟩
                  obtain ⟨hKept, hEvents⟩ := keeps_of_executes_error hExecutes
                  exact ⟨[], m, .here m,
                    .failed hCursor hGet hExecutes (hKept.trans hCursor) hEvents⟩
              | ok u =>
                  have hTurn : Turn listing m m₁ := ⟨n, s, hCurrent, fuel, hExecute⟩
                  obtain ⟨hop, hHop⟩ := exists_hop_of_turn hTurn
                  obtain ⟨hops, point, hPath, hEnds⟩ := ih (hHop.resolves hResolves) h
                  exact ⟨hop :: hops, point, hHop.append hPath, hEnds⟩

theorem exists_runFrom_of_ends
    {listing : Listing} {m m' : Machine σ} {r : Except Error Unit}
    (h : Ends listing m r m') :
    ∃ fuel, runFrom listing fuel m = some (r, m') := by
  cases h with
  | finished hNone =>
      have hCurrent : m.current? listing = none := by simp [current?, hNone]
      exact ⟨1, runFrom_of_current?_eq_none 0 hCurrent⟩
  | failed hCursor hGet hExecutes _ _ =>
      obtain ⟨fuel, hRun⟩ := hExecutes
      have hCurrent := current?_eq_some_iff.mpr ⟨hCursor, hGet⟩
      exact ⟨fuel + 1, runFrom_of_error hCurrent hRun⟩

/-- Every path that comes to an end is followed by the loop. -/
theorem exists_runFrom_of_path
    {listing : Listing} {m point m' : Machine σ} {hops : List Hop} {r : Except Error Unit}
    (hPath : Path listing m hops point)
    (hEnds : Ends listing point r m') :
    ∃ fuel, runFrom listing fuel m = some (r, m') := by
  induction hPath with
  | here m => exact exists_runFrom_of_ends hEnds
  | @hop m _ _ n s d hops hCursor hGet hExecutes _ _ _ ih =>
      obtain ⟨fuel, hRest⟩ := ih hEnds
      obtain ⟨fuel', hRun⟩ := hExecutes
      have hCurrent := current?_eq_some_iff.mpr ⟨hCursor, hGet⟩
      have hRun := execute_extends (Nat.le_max_right fuel fuel') listing s.instruction _ _ hRun
      have hRest := runFrom_mono (Nat.le_max_left fuel fuel') hRest
      refine ⟨max fuel fuel' + 1, ?_⟩
      rw [runFrom_of_ok hCurrent hRun, hRest]

/-- The end of a run adds one event to the record: that it has finished, if it has, and otherwise
the line that failed. -/
theorem exists_event_of_ends
    {listing : Listing} {point m' : Machine σ} {r : Except Error Unit}
    (h : Ends listing point r m') :
    ∃ last, m'.events.toList = point.events.toList ++ [last] ∧
      (last = .finished ↔ r = .ok ()) := by
  cases h with
  | finished _ => exact ⟨.finished, by simp [note], by simp⟩
  | @failed m' n _ _ _ _ _ _ hEvents => exact ⟨.executing n, by simp [hEvents], by simp⟩

/-- The machine as a run of the listing starts with it. -/
def started (listing : Listing) (m : Machine σ) : Machine σ :=
  (m.start listing).note (.started listing.first?)

end Machine
end IntegerBasic
