import IntegerBasic.Proofs.ProgramPath

/-!
# The same statement at two machines

**Definition.**  `SameStore a b` says that two machines have the same variables and the same
console; their cursors and records may differ.

**Argument.**  The effect of a statement sees neither the cursor nor the record, so it is the same
at both machines.  Then control leaves the line.  Here the listings may differ as well, as long as
they agree on whether the target of the statement is stored.

**Results.**
* `Detached.exists_run_of_sameStore`: what neither sees nor changes the cursor and the record.
* `exists_executes_of_sameStore`: a statement does the same at both machines, and leaves in the same
  way.
-/

namespace IntegerBasic

/-- The cursor after a departure that succeeds. -/
def Departure.arrival (listing : Listing) (cursor : Option LineNumber) :
    Departure → Option LineNumber
  | .onward => cursor.bind listing.next?
  | .stop => none
  | .jump _ target => some target

namespace Machine

variable {σ : Type}

/-- The machines have the same variables and the same console. -/
structure SameStore (a b : Machine σ) : Prop where
  vars : b.vars = a.vars
  console : b.console = a.console

namespace SameStore

variable {a b c : Machine σ}

theorem symm
    (h : SameStore a b) :
    SameStore b a :=
  ⟨h.vars.symm, h.console.symm⟩

theorem trans
    (h : SameStore a b) (h' : SameStore b c) :
    SameStore a c :=
  ⟨h'.vars.trans h.vars, h'.console.trans h.console⟩

theorem eq_moved
    (h : SameStore a b) :
    b = { a with cursor := b.cursor, events := b.events } := by
  obtain ⟨vars, cursor, console, events⟩ := b
  obtain ⟨hVars, hConsole⟩ := h
  cases hVars
  cases hConsole
  rfl

end SameStore

section Detached

variable {α : Type} {x : Action (Machine σ) α} {a b a' : Machine σ} {r : Except Error α}

/-- What neither sees nor changes the cursor and the record does the same at both machines. -/
theorem Detached.exists_run_of_sameStore
    (hDetached : Detached x) (hSame : SameStore a b) (h : x.run.run a = some (r, a')) :
    ∃ b', x.run.run b = some (r, b') ∧ SameStore a' b' ∧ b'.cursor = b.cursor := by
  have hMoved := hDetached a b.cursor b.events
  rw [← hSame.eq_moved, h] at hMoved
  exact ⟨_, hMoved, ⟨rfl, rfl⟩, rfl⟩

end Detached

section Depart

variable {listing listing' : Listing} {d : Departure} {a b a' : Machine σ}

/-- A jump is refused at both machines if it is refused at one, and otherwise control arrives where
the listing of each machine leads it. -/
theorem exists_depart_of_sameStore
    {r : Except Error Unit}
    (hSame : SameStore a b)
    (hTarget : ∀ c t, d = .jump c t → listing'.contains t = listing.contains t)
    (h : (depart listing d).run.run a = some (r, a')) :
    ∃ b', (depart listing' d).run.run b = some (r, b') ∧ SameStore a' b' ∧
      (r = .ok () →
        a'.cursor = d.arrival listing a.cursor ∧ b'.cursor = d.arrival listing' b.cursor) := by
  cases d with
  | onward =>
      cases h
      exact ⟨b.advance listing', rfl, ⟨hSame.vars, hSame.console⟩, fun _ => ⟨rfl, rfl⟩⟩
  | stop =>
      cases h
      exact ⟨b.halt, rfl, ⟨hSame.vars, hSame.console⟩, fun _ => ⟨rfl, rfl⟩⟩
  | jump c target =>
      have hBoth := hTarget c target rfl
      cases hContains : listing.contains target with
      | true =>
          rw [run_depart_jump_of_contains c a hContains] at h
          cases h
          rw [hContains] at hBoth
          exact ⟨_, run_depart_jump_of_contains c b hBoth, ⟨hSame.vars, hSame.console⟩,
            fun _ => ⟨rfl, rfl⟩⟩
      | false =>
          rw [run_depart_jump_of_not_contains c a hContains] at h
          cases h
          rw [hContains] at hBoth
          exact ⟨b, run_depart_jump_of_not_contains c b hBoth, hSame, fun hOk => by contradiction⟩

end Depart

variable [Console σ]

/-- A statement does the same at both machines.  If it succeeds, control leaves both in the way that
the statement asks for. -/
theorem exists_executes_of_sameStore
    {listing listing' : Listing} {i : Instruction} {a b a' : Machine σ} {r : Except Error Unit}
    (hSame : SameStore a b)
    (hTarget : ∀ t, i.target? = some t → listing'.contains t = listing.contains t)
    (h : Executes listing i a r a') :
    ∃ b', Executes listing' i b r b' ∧ SameStore a' b' ∧
      (r = .ok () → ∃ d, Departs a.vars i d ∧
        a'.cursor = d.arrival listing a.cursor ∧ b'.cursor = d.arrival listing' b.cursor) := by
  obtain ⟨fuel, hRun⟩ := h
  rw [run_execute_eq_some_iff] at hRun
  rcases hRun with ⟨d, a₁, hEffect, hDepart⟩ | ⟨e, hEffect, rfl⟩
  · obtain ⟨b₁, hEffect', hSame₁, hCursor⟩ :=
      (detached_effect fuel i).exists_run_of_sameStore hSame hEffect
    have hDeparts := departs_of_effect hEffect
    have hJump : ∀ c t, d = .jump c t → listing'.contains t = listing.contains t := by
      rintro c t rfl
      exact hTarget t hDeparts.target?_eq
    obtain ⟨b', hDepart', hSame', hArrivals⟩ := exists_depart_of_sameStore hSame₁ hJump hDepart
    refine ⟨b', ⟨fuel, run_execute_eq_some_iff.mpr (Or.inl ⟨d, b₁, hEffect', hDepart'⟩)⟩,
      hSame', ?_⟩
    intro hOk
    rw [((detached_effect fuel i).keeps hEffect).1, hCursor] at hArrivals
    exact ⟨d, hDeparts, hArrivals hOk⟩
  · obtain ⟨b', hEffect', hSame', _⟩ :=
      (detached_effect fuel i).exists_run_of_sameStore hSame hEffect
    refine ⟨b', ⟨fuel, run_execute_eq_some_iff.mpr (Or.inr ⟨e, hEffect', rfl⟩)⟩, hSame', ?_⟩
    intro hOk
    contradiction

end Machine
end IntegerBasic
