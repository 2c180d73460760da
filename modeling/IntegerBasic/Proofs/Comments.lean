import IntegerBasic.Console.Transcript
import IntegerBasic.Proofs.ListingChange
import IntegerBasic.Proofs.RunOutcome
import IntegerBasic.Proofs.SameStore

/-!
# Comments do not change a program

**Input.**  A listing, a number that is neither stored in it nor the target of a jump, and a `REM`
to be stored there.

**Argument.**  The runs of the two listings go side by side (`Abreast`): their variables and
consoles are the same, and so are their cursors, except that the run with the comment may be at the
comment while the other one is already at the line behind it.  A turn at a common line takes both
to where they are abreast again, since the new line can come only in front of the line that the
other run goes to.  A turn at the comment is a turn of one run alone, after which the cursors are
the same.  So each run can be followed by the other.

**Results.**
* `exists_turn_of_agreesExcept`, `exists_ends_of_agreesExcept`: a common line in listings that
  differ elsewhere.
* `exists_caught_up`: the comment is passed.
* `remark_changes_nothing`: both runs come to an end or neither does, with the same outcome.
-/

namespace IntegerBasic

namespace Listing

/-- No statement jumps to the line. -/
def NoJumpTo (l : Listing) (n : LineNumber) : Prop :=
  ∀ k t, l.get? k = some t → t.instruction.target? ≠ some n

/-- The statement is a `REM`, and the number is neither stored nor jumped to. -/
structure FreshRemark (l : Listing) (n : LineNumber) (s : Statement) : Prop where
  free : l.contains n = false
  noJump : l.NoJumpTo n
  remark : s.instruction = .remark

theorem FreshRemark.noJump_insert
    {l : Listing} {n : LineNumber} {s : Statement}
    (h : l.FreshRemark n s) :
    (l.insert n s).NoJumpTo n := by
  intro k t hGet
  rw [get?_insert] at hGet
  split at hGet
  · cases hGet
    rw [h.remark]
    exact (Option.some_ne_none n).symm
  · exact h.noJump k t hGet

end Listing

namespace Machine

variable {σ : Type}

/-- The machines are the same but for their records, or `b` is at the comment and `a` at the line
behind it. -/
structure Abreast (listing : Listing) (n : LineNumber) (a b : Machine σ) : Prop where
  same : SameStore a b
  cursor : listing.Ahead n a.cursor b.cursor

/-- The outcomes are the same but for the records. -/
def SameOutcome (a b : Machine σ) : Prop :=
  SameStore a b ∧ b.cursor = a.cursor

section Cursors

variable {listing : Listing} {n : LineNumber} {s : Statement} {a b a₁ b₁ : Machine σ}

theorem abreast_started
    (hFree : listing.contains n = false) (s : Statement) (m : Machine σ) :
    Abreast listing n (m.started listing) (m.started (listing.insert n s)) :=
  ⟨⟨rfl, rfl⟩, Listing.ahead_first? hFree s⟩

/-- The same departure from a common line leads to where the machines are abreast. -/
theorem abreast_of_arrival
    {d : Departure}
    (hFree : listing.contains n = false) (hSame : SameStore a₁ b₁)
    (hCursor : b.cursor = a.cursor)
    (hOther : ∀ c target, d = .jump c target → target ≠ n)
    (ha : a₁.cursor = d.arrival listing a.cursor)
    (hb : b₁.cursor = d.arrival (listing.insert n s) b.cursor) :
    Abreast listing n a₁ b₁ := by
  refine ⟨hSame, ?_⟩
  rw [ha, hb, hCursor]
  cases d with
  | onward =>
      cases a.cursor with
      | none => exact Or.inl ⟨(Option.some_ne_none n).symm, rfl⟩
      | some k => exact Listing.ahead_next? hFree s k
  | stop => exact Or.inl ⟨(Option.some_ne_none n).symm, rfl⟩
  | jump c target =>
      refine Or.inl ⟨?_, rfl⟩
      intro hEq
      exact hOther c target rfl (Option.some_inj.mp hEq)

/-- What the machine is like behind the comment. -/
def behind (listing : Listing) (n : LineNumber) (b : Machine σ) : Machine σ :=
  (b.note (.executing n)).advance listing

theorem sameStore_behind
    (listing : Listing) (n : LineNumber) (b : Machine σ) :
    SameStore b (b.behind listing n) :=
  ⟨rfl, rfl⟩

/-- The run with the comment is at it; once it is behind it, both are at the same line. -/
theorem cursor_behind
    (hFree : listing.contains n = false) (s : Statement)
    (hNext : a.cursor = listing.next? n) (hComment : b.cursor = some n) :
    (b.behind (listing.insert n s) n).cursor = a.cursor ∧ a.cursor ≠ some n := by
  rw [hNext, behind, cursor_advance, note, hComment, Option.bind_some,
    Listing.next?_insert_self hFree s]
  exact ⟨rfl, Listing.next?_ne_self listing n⟩

end Cursors

variable [Console σ]

section CommonLine

variable {l l' : Listing} {n : LineNumber} {a b : Machine σ}

/-- What is executed at a common line does the same in both listings. -/
theorem exists_executes_of_agreesExcept
    {k : LineNumber} {t : Statement} {a' : Machine σ} {r : Except Error Unit}
    (hAgrees : Listing.AgreesExcept n l l') (hNoJump : l.NoJumpTo n) (hSame : SameStore a b)
    (hGet : l.get? k = some t)
    (h : Executes l t.instruction (a.note (.executing k)) r a') :
    ∃ b', Executes l' t.instruction (b.note (.executing k)) r b' ∧ SameStore a' b' ∧
      (r = .ok () → ∃ d : Departure, (∀ c target, d = .jump c target → target ≠ n) ∧
        a'.cursor = d.arrival l a.cursor ∧ b'.cursor = d.arrival l' b.cursor) := by
  have hNoted : SameStore (a.note (.executing k)) (b.note (.executing k)) :=
    ⟨hSame.vars, hSame.console⟩
  have hOther : ∀ target, t.instruction.target? = some target → target ≠ n := by
    rintro target hTarget rfl
    exact hNoJump k t hGet hTarget
  obtain ⟨b', hExecutes, hSame', hArrivals⟩ :=
    exists_executes_of_sameStore hNoted (fun target h => hAgrees.contains_eq (hOther target h)) h
  refine ⟨b', hExecutes, hSame', ?_⟩
  intro hOk
  obtain ⟨d, hDeparts, hCursors⟩ := hArrivals hOk
  refine ⟨d, ?_, hCursors⟩
  rintro c target rfl
  exact hOther target hDeparts.target?_eq

/-- A turn at a common line is a turn in both listings. -/
theorem exists_turn_of_agreesExcept
    {a₁ : Machine σ}
    (hAgrees : Listing.AgreesExcept n l l') (hNoJump : l.NoJumpTo n) (hSame : SameStore a b)
    (hCursor : b.cursor = a.cursor) (hOther : a.cursor ≠ some n)
    (h : Turn l a a₁) :
    ∃ b₁, Turn l' b b₁ ∧ SameStore a₁ b₁ ∧
      ∃ d : Departure, (∀ c target, d = .jump c target → target ≠ n) ∧
        a₁.cursor = d.arrival l a.cursor ∧ b₁.cursor = d.arrival l' b.cursor := by
  obtain ⟨k, t, hCurrent, hExecutes⟩ := h
  obtain ⟨hLine, hGet⟩ := current?_eq_some_iff.mp hCurrent
  have hNe : k ≠ n := fun hEq => hOther (hLine.trans (congrArg some hEq))
  obtain ⟨b₁, hExecutes', hSame', hArrivals⟩ :=
    exists_executes_of_agreesExcept hAgrees hNoJump hSame hGet hExecutes
  have hCurrent' : b.current? l' = some (k, t) :=
    current?_eq_some_iff.mpr ⟨hCursor.trans hLine, (hAgrees k hNe).trans hGet⟩
  exact ⟨b₁, ⟨k, t, hCurrent', hExecutes'⟩, hSame', hArrivals rfl⟩

/-- Where one run ends, the other one does. -/
theorem exists_ends_of_agreesExcept
    {a' : Machine σ} {r : Except Error Unit}
    (hAgrees : Listing.AgreesExcept n l l') (hNoJump : l.NoJumpTo n) (hSame : SameStore a b)
    (hCursor : b.cursor = a.cursor) (hOther : a.cursor ≠ some n)
    (h : Ends l a r a') :
    ∃ b', Ends l' b r b' ∧ SameOutcome a' b' := by
  cases h with
  | finished hNone =>
      exact ⟨_, .finished (hCursor.trans hNone), ⟨hSame.vars, hSame.console⟩, hCursor⟩
  | failed hLine hGet hExecutes hKept _ =>
      obtain ⟨b', hExecutes', hSame', _⟩ :=
        exists_executes_of_agreesExcept hAgrees hNoJump hSame hGet hExecutes
      have hGet' := (hAgrees _ fun hEq => hOther (hLine.trans (congrArg some hEq))).trans hGet
      have hKept' : b'.cursor = b.cursor := (keeps_of_executes_error hExecutes').1
      refine ⟨b', ends_of_executes_error (hCursor.trans hLine) hGet' hExecutes', hSame', ?_⟩
      rw [hKept', hCursor, hLine, hKept]

end CommonLine

section Remark

variable {listing : Listing} {n : LineNumber} {s : Statement} {a b a₁ b₁ : Machine σ}

/-- A turn at the comment does nothing but move the cursor. -/
theorem turn_behind
    (hRemark : s.instruction = .remark) (hComment : b.cursor = some n) :
    Turn (listing.insert n s) b (b.behind (listing.insert n s) n) := by
  have hGet : (listing.insert n s).get? n = some s := by
    rw [Listing.get?_insert, if_pos rfl]
  refine ⟨n, s, current?_eq_some_iff.mpr ⟨hComment, hGet⟩, 0, ?_⟩
  rw [hRemark]
  rfl

/-- What is executed at the comment is the comment, and it succeeds. -/
theorem eq_behind_of_executes
    {t : Statement} {r : Except Error Unit}
    (hRemark : s.instruction = .remark) (hGet : (listing.insert n s).get? n = some t)
    (h : Executes (listing.insert n s) t.instruction (b.note (.executing n)) r b₁) :
    r = .ok () ∧ b₁ = b.behind (listing.insert n s) n := by
  rw [Listing.get?_insert, if_pos rfl] at hGet
  cases hGet
  obtain ⟨fuel, hRun⟩ := h
  rw [hRemark] at hRun
  cases hRun
  exact ⟨rfl, rfl⟩

namespace Abreast

/-- The run with the comment passes it, if it is there, and then both are at the same line. -/
theorem exists_caught_up
    (h : Abreast listing n a b) (hFresh : listing.FreshRemark n s) :
    ∃ b₁, Relation.ReflTransGen (Turn (listing.insert n s)) b b₁ ∧ SameStore a b₁ ∧
      b₁.cursor = a.cursor ∧ a.cursor ≠ some n := by
  rcases h.cursor with ⟨hOther, hSame⟩ | ⟨hNext, hComment⟩
  · exact ⟨b, .refl, h.same, hSame, hOther⟩
  · exact ⟨_, .single (turn_behind hFresh.remark hComment),
      h.same.trans (sameStore_behind _ n b), cursor_behind hFresh.free s hNext hComment⟩

/-- The run with the comment follows a turn of the other one. -/
theorem exists_turns
    (h : Abreast listing n a b) (hFresh : listing.FreshRemark n s) (hTurn : Turn listing a a₁) :
    ∃ b₁, Relation.ReflTransGen (Turn (listing.insert n s)) b b₁ ∧ Abreast listing n a₁ b₁ := by
  obtain ⟨b₀, hPass, hSame, hCursor, hOther⟩ := h.exists_caught_up hFresh
  obtain ⟨b₁, hTurn', hSame', d, hTargets, ha, hb⟩ :=
    exists_turn_of_agreesExcept (listing.agreesExcept_insert n s) hFresh.noJump hSame hCursor
      hOther hTurn
  exact ⟨b₁, hPass.tail hTurn', abreast_of_arrival hFresh.free hSame' hCursor hTargets ha hb⟩

theorem exists_halts
    {a' : Machine σ} {r : Except Error Unit}
    (h : Abreast listing n a b) (hFresh : listing.FreshRemark n s) (hEnds : Ends listing a r a') :
    ∃ b', Halts (listing.insert n s) b r b' ∧ SameOutcome a' b' := by
  obtain ⟨b₀, hPass, hSame, hCursor, hOther⟩ := h.exists_caught_up hFresh
  obtain ⟨b', hEnds', hOutcome⟩ :=
    exists_ends_of_agreesExcept (listing.agreesExcept_insert n s) hFresh.noJump hSame hCursor
      hOther hEnds
  exact ⟨b', ⟨b₀, hPass, hEnds'⟩, hOutcome⟩

/-- The run without the comment follows a turn of the one with it, and stays where it is when that
turn is at the comment. -/
theorem exists_turns_back
    (h : Abreast listing n a b) (hFresh : listing.FreshRemark n s)
    (hTurn : Turn (listing.insert n s) b b₁) :
    ∃ a₁, Relation.ReflTransGen (Turn listing) a a₁ ∧ Abreast listing n a₁ b₁ := by
  rcases h.cursor with ⟨hOther, hSame⟩ | ⟨hNext, hComment⟩
  · have hOther' : b.cursor ≠ some n := hSame ▸ hOther
    obtain ⟨a₁, hTurn', hSame', d, hTargets, hb, ha⟩ :=
      exists_turn_of_agreesExcept (listing.agreesExcept_insert n s).symm hFresh.noJump_insert
        h.same.symm hSame.symm hOther' hTurn
    exact ⟨a₁, .single hTurn', abreast_of_arrival hFresh.free hSame'.symm hSame hTargets ha hb⟩
  · obtain ⟨k, t, hCurrent, hExecutes⟩ := hTurn
    obtain ⟨hLine, hGet⟩ := current?_eq_some_iff.mp hCurrent
    cases hComment.symm.trans hLine
    obtain ⟨_, rfl⟩ := eq_behind_of_executes hFresh.remark hGet hExecutes
    obtain ⟨hSame, hOther⟩ := cursor_behind hFresh.free s hNext hComment
    exact ⟨a, .refl, h.same.trans (sameStore_behind _ n b), Or.inl ⟨hOther, hSame⟩⟩

theorem exists_halts_back
    {b' : Machine σ} {r : Except Error Unit}
    (h : Abreast listing n a b) (hFresh : listing.FreshRemark n s)
    (hEnds : Ends (listing.insert n s) b r b') :
    ∃ a', Halts listing a r a' ∧ SameOutcome b' a' := by
  rcases h.cursor with ⟨hOther, hSame⟩ | ⟨_, hComment⟩
  · have hOther' : b.cursor ≠ some n := hSame ▸ hOther
    obtain ⟨a', hEnds', hOutcome⟩ :=
      exists_ends_of_agreesExcept (listing.agreesExcept_insert n s).symm hFresh.noJump_insert
        h.same.symm hSame.symm hOther' hEnds
    exact ⟨a', ⟨a, .refl, hEnds'⟩, hOutcome⟩
  · cases hEnds with
    | finished hNone => cases hComment.symm.trans hNone
    | failed hLine hGet hExecutes =>
        cases hComment.symm.trans hLine
        cases (eq_behind_of_executes hFresh.remark hGet hExecutes).1

end Abreast

/-- If a program runs to an end, it does so with the comment. -/
theorem exists_runsTo_insert_remark
    {m m₁ : Machine σ} {r : Except Error Unit}
    (hFresh : listing.FreshRemark n s) (h : RunsTo listing m r m₁) :
    ∃ m₂, RunsTo (listing.insert n s) m r m₂ ∧ SameOutcome m₁ m₂ := by
  simp only [runsTo_iff_halts] at h ⊢
  exact exists_simulation (Abreast listing n) SameOutcome (fun a b a₁ h => h.exists_turns hFresh)
    (fun a b r a' h => h.exists_halts hFresh) (abreast_started hFresh.free s m) h

/-- If a program runs to an end with the comment, it does so without it. -/
theorem exists_runsTo_of_insert_remark
    {m m₂ : Machine σ} {r : Except Error Unit}
    (hFresh : listing.FreshRemark n s) (h : RunsTo (listing.insert n s) m r m₂) :
    ∃ m₁, RunsTo listing m r m₁ ∧ SameOutcome m₂ m₁ := by
  simp only [runsTo_iff_halts] at h ⊢
  exact exists_simulation (fun b a => Abreast listing n a b) SameOutcome
    (fun b a b₁ h => h.exists_turns_back hFresh) (fun b a r b' h => h.exists_halts_back hFresh)
    (abreast_started hFresh.free s m) h

end Remark

/-- A `REM` stored at a number that is neither stored nor jumped to changes neither whether the
program comes to an end nor its result, its variables, its cursor and the console. -/
theorem remark_changes_nothing
    {listing : Listing} {n : LineNumber} {s : Statement}
    (hFree : listing.contains n = false)
    (hNoJump : ∀ k t, listing.get? k = some t → t.instruction.target? ≠ some n)
    (hRemark : s.instruction = .remark) (m : Machine σ) :
    ((∃ r m', RunsTo (listing.insert n s) m r m') ↔ ∃ r m', RunsTo listing m r m') ∧
    ∀ r m₁ r' m₂, RunsTo listing m r m₁ → RunsTo (listing.insert n s) m r' m₂ →
      r' = r ∧ m₂.vars = m₁.vars ∧ m₂.cursor = m₁.cursor ∧ m₂.console = m₁.console := by
  have hFresh : listing.FreshRemark n s := ⟨hFree, hNoJump, hRemark⟩
  refine ⟨⟨?_, ?_⟩, ?_⟩
  · rintro ⟨r, m₂, hRun⟩
    obtain ⟨m₁, hRun', _⟩ := exists_runsTo_of_insert_remark hFresh hRun
    exact ⟨r, m₁, hRun'⟩
  · rintro ⟨r, m₁, hRun⟩
    obtain ⟨m₂, hRun', _⟩ := exists_runsTo_insert_remark hFresh hRun
    exact ⟨r, m₂, hRun'⟩
  · intro r m₁ r' m₂ hRun hRun'
    obtain ⟨m₃, hRun₃, hSame, hCursor⟩ := exists_runsTo_insert_remark hFresh hRun
    obtain ⟨rfl, rfl⟩ := hRun'.unique hRun₃
    exact ⟨rfl, hSame.vars, hCursor, hSame.console⟩

/-- A loop jumps back across the comment, which is passed in every round but the last. -/
theorem remark_changes_nothing_loop :
    ∃ (listing : Listing) (s : Statement) (m m₁ m₂ : Machine Transcript),
      listing.lines.map Prod.fst = [20, 40, 50] ∧ s.text = "REM" ∧
      RunsTo listing m (.ok ()) m₁ ∧ RunsTo (listing.insert 30 s) m (.ok ()) m₂ ∧
      m₁.console.output = "2\n1\n" ∧
      m₂.vars = m₁.vars ∧ m₂.cursor = m₁.cursor ∧ m₂.console = m₁.console := by
  let print : Statement :=
    { text := "PRINT N", instruction := .print (.var ⟨6, 7⟩ "N"), trim_text := rfl, spells := rfl }
  let count : Statement :=
    { text := "LET N = N - 1"
      instruction := .assign (.assign ⟨6, 7⟩ "N"
        (.binary ⟨10, 11⟩ .subtract (.var ⟨8, 9⟩ "N") (.integer ⟨12, 13⟩ ⟨1, by decide⟩)))
      trim_text := rfl
      spells := rfl }
  let branch : Statement :=
    { text := "IF N > 0 THEN 20"
      instruction := .branch (.var ⟨3, 4⟩ "N") .greater (.integer ⟨7, 8⟩ ⟨0, by decide⟩) ⟨14, 16⟩ 20
      trim_text := rfl
      spells := rfl }
  let remark : Statement :=
    { text := "REM", instruction := .remark, trim_text := rfl, spells := rfl }
  let listing : Listing := ⟨[(20, print), (40, count), (50, branch)], by decide⟩
  let m : Machine Transcript := (idle .empty).assign "N" ⟨2, by decide⟩
  have hNoJump : listing.NoJumpTo 30 := by
    intro k t hGet
    have hMem := Listing.get?_eq_some_iff.mp hGet
    simp only [listing, List.mem_cons, List.not_mem_nil, or_false, Prod.mk.injEq] at hMem
    rcases hMem with ⟨_, rfl⟩ | ⟨_, rfl⟩ | ⟨_, rfl⟩ <;> decide
  have hOutcome : ((run 8 listing).run.run m).map (fun o => (o.1, o.2.console.output)) =
      some (.ok (), "2\n1\n") := by
    decide +kernel
  obtain ⟨⟨_, m₁⟩, hRun, hOutput⟩ := Option.map_eq_some_iff.mp hOutcome
  obtain ⟨rfl, hOutput⟩ := Prod.mk.inj hOutput
  have hRun : RunsTo listing m (.ok ()) m₁ := ⟨8, hRun⟩
  obtain ⟨hEnds, hSame⟩ := remark_changes_nothing (s := remark) rfl hNoJump rfl m
  obtain ⟨r, m₂, hRun'⟩ := hEnds.mpr ⟨.ok (), m₁, hRun⟩
  obtain ⟨rfl, hVars, hCursor, hConsole⟩ := hSame _ _ _ _ hRun hRun'
  exact ⟨listing, remark, m, m₁, m₂, rfl, rfl, hRun, hRun', hOutput, hVars, hCursor, hConsole⟩

end Machine
end IntegerBasic
