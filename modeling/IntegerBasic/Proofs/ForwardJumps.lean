import IntegerBasic.Proofs.FiniteInput
import IntegerBasic.Proofs.ListingChange
import IntegerBasic.Proofs.RunOutcome
import Mathlib.Data.List.Sort

/-!
# Programs that only jump forward

**Input.**  A listing in which every jump goes to a higher line, and a console with finite input.

**Invariant.**  The lines from the cursor on (`numbersFrom`) are all that can still be executed: a
turn of the loop executes the first of them and leaves a part of the others, in their order.  So
what is executed is a sublist of the lines stored, and there are fewer lines left after each turn.
Without jumps and stops, nothing is left out.

**Results.**
* `numbersFrom_sublist_of_leadsTo`, `Path.append_numbersFrom_sublist`: one line and a path of a
  program that only jumps forward.
* `exists_halts_of_jumpsForward`: such a program comes to an end.
* `forward_run_bounded`: its run ends and executes each line once at most, in ascending order.
-/

namespace IntegerBasic

namespace Listing

/-- Every line that jumps does so to a higher number. -/
def JumpsForward (l : Listing) : Prop :=
  ∀ line ∈ l.lines, ∀ target ∈ line.2.instruction.target?, line.1 < target

/-- No line jumps or stops the program. -/
def StraightLine (l : Listing) : Prop :=
  ∀ line ∈ l.lines, line.2.instruction.category = .sequential

instance (l : Listing) : Decidable l.JumpsForward :=
  inferInstanceAs (Decidable (∀ line ∈ l.lines, ∀ target ∈ line.2.instruction.target?,
    line.1 < target))

instance (l : Listing) : Decidable l.StraightLine :=
  inferInstanceAs (Decidable (∀ line ∈ l.lines, line.2.instruction.category = .sequential))

/-- The numbers of the lines, in ascending order. -/
def numbers (l : Listing) : List LineNumber :=
  l.lines.map Prod.fst

/-- The numbers of the lines from the cursor on. -/
def numbersFrom (l : Listing) : Option LineNumber → List LineNumber
  | none => []
  | some n => l.numbers.filter fun k => decide (n ≤ k)

section Numbers

variable {l : Listing} {n : LineNumber} {c : Option LineNumber}

theorem pairwise_numbers
    (l : Listing) :
    l.numbers.Pairwise (· < ·) :=
  List.pairwise_map.mpr l.ascending

theorem pairwise_numbersFrom
    (l : Listing) (c : Option LineNumber) :
    (l.numbersFrom c).Pairwise (· < ·) := by
  cases c with
  | none => exact List.Pairwise.nil
  | some n => exact l.pairwise_numbers.filter _

theorem mem_numbers_iff
    {k : LineNumber} :
    k ∈ l.numbers ↔ l.contains k = true := by
  rw [contains_iff, numbers, List.mem_map]
  constructor
  · rintro ⟨⟨_, s⟩, hMem, rfl⟩
    exact ⟨s, hMem⟩
  · rintro ⟨s, hMem⟩
    exact ⟨(k, s), hMem, rfl⟩

/-- From the lowest line with a property that higher numbers keep, there are the lines with that
property. -/
theorem mem_numbersFrom_iff
    {p : LineNumber → Prop} {k : LineNumber}
    (hUpward : ∀ j k, j ≤ k → p j → p k) (h : l.IsLowest p c) :
    k ∈ l.numbersFrom c ↔ l.contains k = true ∧ p k := by
  cases c with
  | none =>
      simp only [numbersFrom, List.not_mem_nil, false_iff, not_and]
      exact h k
  | some n =>
      rw [numbersFrom, List.mem_filter, mem_numbers_iff, decide_eq_true_iff]
      constructor
      · rintro ⟨hk, hLe⟩
        exact ⟨hk, hUpward n k hLe h.1.2⟩
      · rintro ⟨hk, hp⟩
        exact ⟨hk, h.2 ⟨hk, hp⟩⟩

/-- From the first line on, there are all lines. -/
theorem numbersFrom_first?
    (l : Listing) :
    l.numbersFrom l.first? = l.numbers := by
  refine (l.pairwise_numbersFrom _).eq_of_mem_iff l.pairwise_numbers fun k => ?_
  rw [mem_numbersFrom_iff (fun _ _ _ h => h) l.isLowest_first?, mem_numbers_iff]
  exact and_iff_left trivial

/-- From a stored line on, there are the line and those from the next one on. -/
theorem numbersFrom_some
    (hStored : l.contains n = true) (hNext : l.IsNext n c) :
    l.numbersFrom (some n) = n :: l.numbersFrom c := by
  have hRest : ∀ k, k ∈ l.numbersFrom c ↔ l.contains k = true ∧ n < k := fun k =>
    mem_numbersFrom_iff (fun _ _ hLe hLt => Nat.lt_of_lt_of_le hLt hLe) hNext.isLowest
  have hAscending : (n :: l.numbersFrom c).Pairwise (· < ·) := by
    refine List.pairwise_cons.mpr ⟨?_, l.pairwise_numbersFrom c⟩
    intro k hk
    exact ((hRest k).mp hk).2
  refine (l.pairwise_numbersFrom _).eq_of_mem_iff hAscending fun k => ?_
  rw [List.mem_cons, hRest, numbersFrom, List.mem_filter, mem_numbers_iff, decide_eq_true_iff,
    Nat.le_iff_lt_or_eq]
  constructor
  · rintro ⟨hk, hLt | rfl⟩
    · exact Or.inr ⟨hk, hLt⟩
    · exact Or.inl rfl
  · rintro (rfl | ⟨hk, hLt⟩)
    · exact ⟨hStored, Or.inr rfl⟩
    · exact ⟨hk, Or.inl hLt⟩

/-- Further on, there are fewer lines. -/
theorem numbersFrom_sublist
    {k : LineNumber}
    (hStored : l.contains k = true) (hNext : l.IsNext n c) (hLt : n < k) :
    (l.numbersFrom (some k)).Sublist (l.numbersFrom c) := by
  cases c with
  | none => exact absurd hLt (Nat.not_lt.mpr (hNext k hStored))
  | some m =>
      refine l.numbers.monotone_filter_right fun j hj => ?_
      rw [decide_eq_true_iff] at hj ⊢
      exact Nat.le_trans (hNext.2.2 k hStored hLt) hj

/-- The line under a cursor is one of those from the cursor on. -/
theorem Resolves.toList_sublist
    (h : l.Resolves c) :
    c.toList.Sublist (l.numbersFrom c) := by
  rcases h with rfl | ⟨n, s, rfl, hGet⟩
  · exact List.Sublist.refl []
  · rw [numbersFrom_some (Option.isSome_of_eq_some hGet) (l.isNext_next? n)]
    exact (List.nil_sublist _).cons_cons n

end Numbers

end Listing

section Leaving

variable {listing : Listing} {n : LineNumber} {s : Statement} {vars : Variables} {d : Departure}
  {next : Option LineNumber}

/-- A line is executed, and what is left are lines behind it. -/
theorem numbersFrom_sublist_of_leadsTo
    (hForward : listing.JumpsForward) (hGet : listing.get? n = some s)
    (hDeparts : Departs vars s.instruction d) (hLeads : d.LeadsTo listing n next) :
    (n :: listing.numbersFrom next).Sublist (listing.numbersFrom (some n)) := by
  have hStored : listing.contains n = true := Option.isSome_of_eq_some hGet
  have hNext := listing.isNext_next? n
  cases d with
  | onward =>
      rw [Listing.numbersFrom_some hStored hLeads]
  | stop =>
      rw [Listing.numbersFrom_some hStored hNext, hLeads]
      exact (List.nil_sublist _).cons_cons n
  | jump c target =>
      obtain ⟨hTarget, rfl⟩ := hLeads
      have hLt : n < target :=
        hForward (n, s) (Listing.get?_eq_some_iff.mp hGet) target hDeparts.target?_eq
      rw [Listing.numbersFrom_some hStored hNext]
      exact (Listing.numbersFrom_sublist hTarget hNext hLt).cons_cons n

/-- A line without a jump or a stop is executed, and all lines behind it are left. -/
theorem numbersFrom_of_sequential
    (hSequential : s.instruction.category = .sequential) (hGet : listing.get? n = some s)
    (hDeparts : Departs vars s.instruction d) (hLeads : d.LeadsTo listing n next) :
    listing.numbersFrom (some n) = n :: listing.numbersFrom next := by
  have hStored : listing.contains n = true := Option.isSome_of_eq_some hGet
  cases hDeparts.eq_onward hSequential
  exact Listing.numbersFrom_some hStored hLeads

end Leaving

namespace Machine

variable {σ : Type} [Console σ] {listing : Listing} {m point : Machine σ} {hops : List Hop}

/-- What is executed on a path and what is left at its end are some of the lines from its start on,
in their order. -/
theorem Path.append_numbersFrom_sublist
    (h : Path listing m hops point) (hForward : listing.JumpsForward) :
    (hops.map Hop.line ++ listing.numbersFrom point.cursor).Sublist
      (listing.numbersFrom m.cursor) := by
  induction h with
  | here m => exact List.Sublist.refl _
  | @hop _ _ _ n _ _ _ hCursor hGet _ hDeparts hLeads _ ih =>
      rw [hCursor]
      exact (ih.cons_cons n).trans (numbersFrom_sublist_of_leadsTo hForward hGet hDeparts hLeads)

/-- Without jumps and stops, they are all the lines from its start on. -/
theorem Path.append_numbersFrom_eq
    (h : Path listing m hops point) (hStraight : listing.StraightLine) :
    hops.map Hop.line ++ listing.numbersFrom point.cursor = listing.numbersFrom m.cursor := by
  induction h with
  | here m => rfl
  | @hop _ _ _ n s _ _ hCursor hGet _ hDeparts hLeads _ ih =>
      have hSequential := hStraight (n, s) (Listing.get?_eq_some_iff.mp hGet)
      rw [hCursor, numbersFrom_of_sequential hSequential hGet hDeparts hLeads, ← ih]
      rfl

/-- After each turn there are fewer lines left. -/
theorem length_numbersFrom_lt_of_turn
    (hForward : listing.JumpsForward) (h : Turn listing m point) :
    (listing.numbersFrom point.cursor).length < (listing.numbersFrom m.cursor).length := by
  obtain ⟨hop, hPath⟩ := exists_hop_of_turn h
  exact (hPath.append_numbersFrom_sublist hForward).length_le

/-- With a finite input, the loop comes to an end or takes a turn. -/
theorem exists_ends_or_turn
    (hResolves : listing.Resolves m.cursor) (hInput : Console.FiniteInput m.console) :
    (∃ r m', Ends listing m r m') ∨
      ∃ m₁, Turn listing m m₁ ∧ Console.FiniteInput m₁.console := by
  rcases hResolves with hNone | ⟨n, s, hCursor, hGet⟩
  · exact Or.inl ⟨_, _, .finished hNone⟩
  · have hNoted : Console.FiniteInput (m.note (.executing n)).console := hInput
    obtain ⟨r, m₁, hExecutes⟩ := exists_executes_of_finiteInput hNoted listing s.instruction
    cases r with
    | error e => exact Or.inl ⟨_, m₁, ends_of_executes_error hCursor hGet hExecutes⟩
    | ok u =>
        exact Or.inr ⟨m₁, ⟨n, s, current?_eq_some_iff.mpr ⟨hCursor, hGet⟩, hExecutes⟩,
          finiteInput_of_executes hNoted hExecutes⟩

/-- A program that only jumps forward comes to an end. -/
theorem exists_halts_of_jumpsForward
    (hForward : listing.JumpsForward) (hResolves : listing.Resolves m.cursor)
    (hInput : Console.FiniteInput m.console) :
    ∃ r m', Halts listing m r m' := by
  induction hLeft : (listing.numbersFrom m.cursor).length using Nat.strong_induction_on
    generalizing m with
  | h left ih =>
      rcases exists_ends_or_turn hResolves hInput with ⟨r, m', hEnds⟩ | ⟨m₁, hTurn, hInput₁⟩
      · exact ⟨r, m', m, .refl, hEnds⟩
      · have hFewer := length_numbersFrom_lt_of_turn hForward hTurn
        rw [hLeft] at hFewer
        obtain ⟨hop, hPath⟩ := exists_hop_of_turn hTurn
        obtain ⟨r, m', hRest⟩ := ih _ hFewer (hPath.resolves hResolves) hInput₁ rfl
        exact ⟨r, m', hRest.of_turns (.single hTurn)⟩

/-- If every jump goes to a higher line and the input is finite, a run ends and executes stored
lines in ascending order, and without jumps, stops and failures it executes them all. -/
theorem forward_run_bounded
    {listing : Listing} {m : Machine σ}
    (hForward : listing.JumpsForward) (hInput : Console.FiniteInput m.console) :
    (∃ r m', RunsTo listing m r m') ∧
    ∀ r m', RunsTo listing m r m' →
      (executedSince m m').Pairwise (· < ·) ∧
      (executedSince m m').length ≤ listing.size ∧
      (listing.StraightLine → r = .ok () → executedSince m m' = listing.numbers) := by
  have hResolves := resolves_started listing m
  have hStart : listing.numbersFrom (m.started listing).cursor = listing.numbers :=
    listing.numbersFrom_first?
  refine ⟨?_, ?_⟩
  · obtain ⟨r, m', hHalts⟩ :=
      exists_halts_of_jumpsForward (m := m.started listing) hForward hResolves hInput
    exact ⟨r, m', runsTo_iff_halts.mpr hHalts⟩
  · intro r m' hRun
    obtain ⟨hops, point, hPath, hEnds⟩ := runsTo_iff_exists_path.mp hRun
    have hExecuted := executedSince_of_path hPath hEnds
    have hSublist : (executedSince m m').Sublist listing.numbers := by
      have hLast := (hPath.resolves hResolves).toList_sublist.append_left (hops.map Hop.line)
      rw [hExecuted, ← hStart]
      exact hLast.trans (hPath.append_numbersFrom_sublist hForward)
    refine ⟨listing.pairwise_numbers.sublist hSublist, ?_, ?_⟩
    · calc (executedSince m m').length
        _ ≤ listing.numbers.length := hSublist.length_le
        _ = listing.size := by rw [Listing.numbers, List.length_map, Listing.size]
    · rintro hStraight rfl
      have hAll := hPath.append_numbersFrom_eq hStraight
      cases hEnds with
      | finished hNone =>
          rw [hExecuted, ← hStart, ← hAll, hNone]
          rfl

/-- An `INPUT` rejects its first answer, and then a jump leaves out line 30; without the jump no
line is left out. -/
theorem forward_run_bounded_input :
    ∃ (listing : Listing) (m m₁ m₂ : Machine Transcript),
      listing.numbers = [10, 20, 30, 40] ∧ m.console.input = ["X", "5"] ∧
      RunsTo listing m (.ok ()) m₁ ∧ executedSince m m₁ = [10, 20, 40] ∧
      (executedSince m m₁).length ≤ listing.size ∧
      RunsTo (listing.remove 20) m (.ok ()) m₂ ∧ executedSince m m₂ = [10, 30, 40] := by
  let input : Statement :=
    { text := "INPUT N", instruction := .input ⟨6, 7⟩ "N", trim_text := rfl, spells := rfl }
  let branch : Statement :=
    { text := "IF N > 3 THEN 40"
      instruction := .branch (.var ⟨3, 4⟩ "N") .greater (.integer ⟨7, 8⟩ ⟨3, by decide⟩) ⟨14, 16⟩ 40
      trim_text := rfl
      spells := rfl }
  let print : Statement :=
    { text := "PRINT N", instruction := .print (.var ⟨6, 7⟩ "N"), trim_text := rfl, spells := rfl }
  let listing : Listing := ⟨[(10, input), (20, branch), (30, print), (40, print)], by decide⟩
  let m : Machine Transcript := idle ⟨["X", "5"], ""⟩
  have hOutcome : ((run 8 listing).run.run m).map (fun o => (o.1, executedSince m o.2)) =
      some (.ok (), [10, 20, 40]) := by
    decide +kernel
  have hRemoved : ((run 8 (listing.remove 20)).run.run m).map Prod.fst = some (.ok ()) := by
    decide +kernel
  obtain ⟨⟨_, m₁⟩, hRun₁, hOutput⟩ := Option.map_eq_some_iff.mp hOutcome
  obtain ⟨rfl, hExecuted⟩ := Prod.mk.inj hOutput
  obtain ⟨⟨_, m₂⟩, hRun₂, rfl⟩ := Option.map_eq_some_iff.mp hRemoved
  have hRun₁ : RunsTo listing m (.ok ()) m₁ := ⟨8, hRun₁⟩
  have hRun₂ : RunsTo (listing.remove 20) m (.ok ()) m₂ := ⟨8, hRun₂⟩
  obtain ⟨_, hLength, _⟩ := (forward_run_bounded (by decide) m.console.finiteInput).2 _ _ hRun₁
  obtain ⟨_, _, hAll⟩ := (forward_run_bounded (by decide) m.console.finiteInput).2 _ _ hRun₂
  exact ⟨listing, m, m₁, m₂, rfl, rfl, hRun₁, hExecuted, hLength, hRun₂, hAll (by decide) rfl⟩

end Machine
end IntegerBasic
