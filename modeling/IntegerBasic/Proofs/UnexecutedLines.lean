import IntegerBasic.Console.Transcript
import IntegerBasic.Proofs.ListingChange
import IntegerBasic.Proofs.RunOutcome

/-!
# Lines that are not executed

**Input.**  Two listings that agree except at one number, which is stored in the first one, and a
run of the first listing that comes to an end without executing the line there.

**Argument.**  The run asks for the line under the cursor, for the first line, for the line behind
another one and for whether the target of a jump is stored.  One of the last three answers can be
different in the second listing only if it takes the cursor to the number in the first one, and then
the line there would be executed next.  Since it never is, all answers are the same.

**Results.**
* `executes_of_agreesExcept`: a statement after which the cursor is not at the number.
* `Path.turns_of_agreesExcept`: a path on which the number does not lie.
* `unexecuted_line_irrelevant`: the run is the same when the line is removed or replaced.
-/

namespace IntegerBasic
namespace Machine

variable {σ : Type} {l l' : Listing} {n : LineNumber}

/-- A departure that does not lead to `n` is the same in both listings. -/
theorem run_depart_of_agreesExcept
    {d : Departure} {m m' : Machine σ} {r : Except Error Unit}
    (hAgrees : Listing.AgreesExcept n l l') (hStored : l.contains n = true)
    (hOther : r = .ok () → m'.cursor ≠ some n)
    (h : (depart l d).run.run m = some (r, m')) :
    (depart l' d).run.run m = some (r, m') := by
  cases d with
  | onward =>
      cases h
      have hNext : m.cursor.bind l'.next? = m.cursor.bind l.next? := by
        have hOther := hOther rfl
        rw [cursor_advance] at hOther
        cases hCursor : m.cursor with
        | none => rfl
        | some k =>
            rw [hCursor] at hOther
            exact Listing.next?_of_agreesExcept hAgrees hStored hOther
      have hSame : m.advance l' = m.advance l := by
        rw [advance, advance, hNext]
      rw [← hSame]
      rfl
  | stop => exact h
  | jump c target =>
      cases hContains : l.contains target with
      | true =>
          rw [run_depart_jump_of_contains c m hContains] at h
          cases h
          have hNe : target ≠ n := fun hEq => hOther rfl (congrArg some hEq)
          exact run_depart_jump_of_contains c m ((hAgrees.contains_eq hNe).trans hContains)
      | false =>
          rw [run_depart_jump_of_not_contains c m hContains] at h
          cases h
          have hNe : target ≠ n := by
            rintro rfl
            rw [hStored] at hContains
            contradiction
          exact run_depart_jump_of_not_contains c m ((hAgrees.contains_eq hNe).trans hContains)

theorem started_of_agreesExcept
    {m : Machine σ}
    (hAgrees : Listing.AgreesExcept n l l') (hStored : l.contains n = true)
    (hOther : (m.started l).cursor ≠ some n) :
    m.started l' = m.started l := by
  have hFirst : l'.first? = l.first? := Listing.first?_of_agreesExcept hAgrees hStored hOther
  rw [started, started, start, start, hFirst]

variable [Console σ]

/-- A statement after which the cursor is not at `n` does the same in both listings. -/
theorem executes_of_agreesExcept
    {i : Instruction} {m m' : Machine σ} {r : Except Error Unit}
    (hAgrees : Listing.AgreesExcept n l l') (hStored : l.contains n = true)
    (hOther : r = .ok () → m'.cursor ≠ some n)
    (h : Executes l i m r m') :
    Executes l' i m r m' := by
  obtain ⟨fuel, hRun⟩ := h
  refine ⟨fuel, ?_⟩
  rw [run_execute_eq_some_iff] at hRun ⊢
  rcases hRun with ⟨d, m₁, hEffect, hDepart⟩ | hFailed
  · exact Or.inl ⟨d, m₁, hEffect, run_depart_of_agreesExcept hAgrees hStored hOther hDepart⟩
  · exact Or.inr hFailed

/-- A path on which `n` does not lie is followed in both listings. -/
theorem Path.turns_of_agreesExcept
    {m point : Machine σ} {hops : List Hop}
    (h : Path l m hops point)
    (hAgrees : Listing.AgreesExcept n l l') (hStored : l.contains n = true)
    (hNever : n ∉ hops.map Hop.line ++ point.cursor.toList) :
    Relation.ReflTransGen (Turn l') m point := by
  induction h with
  | here m => exact .refl
  | @hop m m₁ _ k s _ _ hCursor hGet hExecutes _ _ hRest ih =>
      rw [List.map_cons, List.cons_append, List.mem_cons, not_or] at hNever
      obtain ⟨hNe, hNever⟩ := hNever
      have hOther : m₁.cursor ≠ some n := fun hAt => hNever (hRest.mem_of_cursor hAt)
      have hGet' : l'.get? k = some s := (hAgrees k (Ne.symm hNe)).trans hGet
      have hExecutes' := executes_of_agreesExcept hAgrees hStored (fun _ => hOther) hExecutes
      exact .head ⟨k, s, current?_eq_some_iff.mpr ⟨hCursor, hGet'⟩, hExecutes'⟩ (ih hNever)

/-- An end that is not at `n` is one in both listings. -/
theorem ends_of_agreesExcept
    {point m' : Machine σ} {r : Except Error Unit}
    (hAgrees : Listing.AgreesExcept n l l') (hStored : l.contains n = true)
    (hOther : point.cursor ≠ some n)
    (h : Ends l point r m') :
    Ends l' point r m' := by
  cases h with
  | finished hNone => exact .finished hNone
  | @failed _ k _ _ hCursor hGet hExecutes hKept hEvents =>
      have hNe : k ≠ n := fun hEq => hOther (hCursor.trans (congrArg some hEq))
      exact .failed hCursor ((hAgrees k hNe).trans hGet)
        (executes_of_agreesExcept hAgrees hStored (fun hOk => by contradiction) hExecutes)
        hKept hEvents

/-- A run that does not execute line `n` is the same in both listings. -/
theorem runsTo_of_agreesExcept
    {m m' : Machine σ} {r : Except Error Unit}
    (hAgrees : Listing.AgreesExcept n l l') (hStored : l.contains n = true)
    (hRun : RunsTo l m r m') (hNever : n ∉ executedSince m m') :
    RunsTo l' m r m' := by
  obtain ⟨hops, point, hPath, hEnds⟩ := runsTo_iff_exists_path.mp hRun
  rw [executedSince_of_path hPath hEnds] at hNever
  have hStart : (m.started l).cursor ≠ some n := fun hAt => hNever (hPath.mem_of_cursor hAt)
  have hEnd : point.cursor ≠ some n := by
    intro hAt
    exact hNever (List.mem_append_right _ (Option.mem_toList.mpr hAt))
  rw [runsTo_iff_halts, started_of_agreesExcept hAgrees hStored hStart]
  exact ⟨point, hPath.turns_of_agreesExcept hAgrees hStored hNever,
    ends_of_agreesExcept hAgrees hStored hEnd hEnds⟩

/-- A run that comes to an end without having executed a stored line is the same run, with the same
result and the same machine, when that line is removed or replaced. -/
theorem unexecuted_line_irrelevant
    {listing : Listing} {n : LineNumber} {m m' : Machine σ} {r : Except Error Unit}
    (hStored : listing.contains n = true) (hRun : RunsTo listing m r m')
    (hNever : n ∉ executedSince m m') :
    RunsTo (listing.remove n) m r m' ∧ ∀ s, RunsTo (listing.insert n s) m r m' := by
  refine ⟨?_, ?_⟩
  · exact runsTo_of_agreesExcept (listing.agreesExcept_remove n) hStored hRun hNever
  · intro s
    exact runsTo_of_agreesExcept (listing.agreesExcept_insert n s) hStored hRun hNever

/-- A run jumps over line 20 and fails at a jump to a line that is not stored. -/
theorem unexecuted_line_irrelevant_failing :
    ∃ (listing : Listing) (m m' : Machine Transcript) (e : Error),
      listing.lines.map Prod.fst = [10, 20, 30] ∧ e.code = .lineNumberError ∧ e.line = some 30 ∧
      executedSince m m' = [10, 30] ∧
      RunsTo listing m (.error e) m' ∧ RunsTo (listing.remove 20) m (.error e) m' ∧
      ∀ s, RunsTo (listing.insert 20 s) m (.error e) m' := by
  let jumping : Statement :=
    { text := "GOTO 30", instruction := .jump ⟨5, 7⟩ 30, trim_text := rfl, spells := rfl }
  let stop : Statement :=
    { text := "END", instruction := .stop, trim_text := rfl, spells := rfl }
  let missing : Statement :=
    { text := "GOTO 40", instruction := .jump ⟨5, 7⟩ 40, trim_text := rfl, spells := rfl }
  let listing : Listing := ⟨[(10, jumping), (20, stop), (30, missing)], by decide⟩
  let m : Machine Transcript := idle .empty
  let e : Error := ((Error.of .lineNumberError).inColumn ⟨5, 7⟩).inLine 30
  have hOutcome : ((run 8 listing).run.run m).map (fun o => (o.1, executedSince m o.2)) =
      some (.error e, [10, 30]) := by
    decide +kernel
  obtain ⟨⟨_, m'⟩, hRun, hOutput⟩ := Option.map_eq_some_iff.mp hOutcome
  obtain ⟨rfl, hExecuted⟩ := Prod.mk.inj hOutput
  have hRun : RunsTo listing m (.error e) m' := ⟨8, hRun⟩
  have hNever : 20 ∉ executedSince m m' := by
    rw [hExecuted]
    decide
  obtain ⟨hRemoved, hReplaced⟩ := unexecuted_line_irrelevant rfl hRun hNever
  exact ⟨listing, m, m', e, rfl, rfl, rfl, hExecuted, hRun, hRemoved, hReplaced⟩

end Machine
end IntegerBasic
