import IntegerBasic.Proofs.Coincidence
import IntegerBasic.Proofs.RunOutcome
import IntegerBasic.Proofs.SessionLog

/-!
# Machines that correspond

Two machines are run side by side, with consoles that may be of different kinds.

**Input.**  A relation between the variables of the one and of the other, which the instructions
respect (`Instruction.Respects`), and one between their consoles, which then give the same answers
to the same uses (`Console.Corresponds`).

**Argument.**  `Matches R x y` says that whatever the action `x` does from a state, the action `y`
does from a related one.  It is passed from the parts of an action to the whole.  An effect sees the
variables and the console only; control leaves a line as the listing says, and so two machines that
are at the same line of the same listing stay `InStep`.

**Results.**
* `matches_effect`, `matches_execute`: effects and statements on linked machines.
* `exists_run_of_linked`: a run sets the cursor before it looks at it, and so it does the same on
  linked machines wherever their cursors are.
* `Session.Alike.exists_enters`: sessions with the same listing, the same variables and
  corresponding consoles answer a line in the same way.
-/

namespace IntegerBasic

namespace Action

variable {s t α β : Type} {R : s → t → Prop}

/-- Whatever the first action does from a state, the second does from a related one: it comes to
the same result, in related states. -/
def Matches (R : s → t → Prop) (x : Action s α) (y : Action t α) : Prop :=
  ∀ a b r a', R a b → x.run.run a = some (r, a') → ∃ b', y.run.run b = some (r, b') ∧ R a' b'

theorem matches_pure
    (v : α) :
    Matches R (pure v : Action s α) (pure v : Action t α) := by
  intro a b r a' hRelated h
  cases h
  exact ⟨b, rfl, hRelated⟩

theorem matches_throw
    (e : Error) :
    Matches R (throw e : Action s α) (throw e : Action t α) := by
  intro a b r a' hRelated h
  cases h
  exact ⟨b, rfl, hRelated⟩

theorem exhausted_matches
    (y : Action t α) :
    Matches R (exhausted : Action s α) y := by
  intro a b r a' _ h
  cases h

theorem matches_modify
    {f : s → s} {g : t → t}
    (h : ∀ a b, R a b → R (f a) (g b)) :
    Matches R (modify f : Action s PUnit) (modify g : Action t PUnit) := by
  intro a b r a' hRelated hRun
  cases hRun
  exact ⟨g b, rfl, h a b hRelated⟩

theorem Matches.bind
    {x : Action s α} {y : Action t α} {f : α → Action s β} {g : α → Action t β}
    (h : Matches R x y) (hNext : ∀ v, Matches R (f v) (g v)) :
    Matches R (x >>= f) (y >>= g) := by
  intro a b r a'' hRelated hRun
  rw [run_bind_eq_some_iff] at hRun
  rcases hRun with ⟨v, a', hFirst, hSecond⟩ | ⟨e, hFirst, rfl⟩
  · obtain ⟨b', hFirst', hRelated'⟩ := h a b _ a' hRelated hFirst
    rw [run_bind_of_ok hFirst']
    exact hNext v a' b' r a'' hRelated' hSecond
  · obtain ⟨b', hFirst', hRelated'⟩ := h a b _ a'' hRelated hFirst
    exact ⟨b', run_bind_of_error hFirst' g, hRelated'⟩

end Action

open IntegerBasic.Action (Matches)

/-- Consoles that are related give the same answers to the same uses, and are related again. -/
structure Console.Corresponds {σ τ : Type} [Console σ] [Console τ] (C : σ → τ → Prop) : Prop where
  prints : ∀ line c d, C c d → (printLine line d).1 = (printLine line c).1 ∧
    C (printLine line c).2 (printLine line d).2
  reads : ∀ prompt c d, C c d → (readLine prompt d).1 = (readLine prompt c).1 ∧
    C (readLine prompt c).2 (readLine prompt d).2

/-- A console corresponds to itself. -/
theorem Console.corresponds_eq
    (σ : Type) [Console σ] :
    Console.Corresponds (Eq : σ → σ → Prop) where
  prints := by
    rintro line c _ rfl
    exact ⟨rfl, rfl⟩
  reads := by
    rintro prompt c _ rfl
    exact ⟨rfl, rfl⟩

namespace Instruction

/-- From related variables, the expressions of the instruction have the same values, and what it
assigns leaves related variables. -/
structure Respects (V : Variables → Variables → Prop) (i : Instruction) : Prop where
  evaluates : ∀ e ∈ i.exprs, Eval.Keeps V e.eval
  assigns : ∀ c x, i = .input c x → ∀ value v w, V v w → V (v.set x value) (w.set x value)

/-- An instruction respects an agreement on the names that it reads. -/
theorem respects_agreeOn
    {p : Name → Prop} {i : Instruction}
    (hReads : ∀ e ∈ i.exprs, ∀ x ∈ e.readNames, p x) :
    i.Respects (Variables.AgreeOn p) where
  evaluates e he := Expr.keeps_eval (hReads e he)
  assigns _ x _ value _ _ h := h.set x value

theorem respects_sameValues
    (i : Instruction) :
    i.Respects Variables.SameValues :=
  respects_agreeOn fun _ _ _ _ => trivial

end Instruction

namespace Machine

variable {σ τ : Type} {V : Variables → Variables → Prop} {C : σ → τ → Prop}

/-- The machines have related variables and consoles; their cursors and records may differ. -/
structure Linked (V : Variables → Variables → Prop) (C : σ → τ → Prop) (a : Machine σ)
    (b : Machine τ) : Prop where
  vars : V a.vars b.vars
  console : C a.console b.console

/-- The machines are linked and at the same line, and they have recorded the same events since they
were `a₀` and `b₀`. -/
structure InStep (V : Variables → Variables → Prop) (C : σ → τ → Prop) (a₀ : Machine σ)
    (b₀ : Machine τ) (a : Machine σ) (b : Machine τ) : Prop where
  linked : Linked V C a b
  cursor : b.cursor = a.cursor
  record : ∃ log, a.events.toList = a₀.events.toList ++ log ∧
    b.events.toList = b₀.events.toList ++ log

theorem run_useConsole
    {α : Type} (use : σ → Except String α × σ) (m : Machine σ) :
    (useConsole use).run.run m =
      some ((use m.console).1.mapError Error.ofConsole, { m with console := (use m.console).2 }) := by
  rfl

theorem matches_useConsole
    {α : Type} {use : σ → Except String α × σ} {use' : τ → Except String α × τ}
    (h : ∀ c d, C c d → (use' d).1 = (use c).1 ∧ C (use c).2 (use' d).2) :
    Matches (Linked V C) (useConsole use) (useConsole use') := by
  intro a b r a' hLinked hRun
  obtain ⟨hSame, hConsole⟩ := h a.console b.console hLinked.console
  rw [run_useConsole, Option.some_inj, Prod.mk.injEq] at hRun
  obtain ⟨rfl, rfl⟩ := hRun
  refine ⟨{ b with console := (use' b.console).2 }, ?_, hLinked.vars, hConsole⟩
  rw [run_useConsole, hSame]

theorem matches_eval
    {i : Instruction} {e : Expr}
    (h : i.Respects V) (hExpr : e ∈ i.exprs) :
    Matches (Linked V C) (eval e) (eval e) := by
  intro a b r a' hLinked hRun
  rw [run_eval, Option.some_inj, Prod.mk.injEq] at hRun
  obtain ⟨rfl, rfl⟩ := hRun
  obtain ⟨vars', hEval, hVars⟩ := h.evaluates e hExpr a.vars b.vars _ _ hLinked.vars rfl
  refine ⟨{ b with vars := vars' }, ?_, hVars, hLinked.console⟩
  rw [run_eval, hEval]
  rfl

/-- Control leaves the line in the same way, wherever the cursors are. -/
theorem matches_depart
    (listing : Listing) (d : Departure) :
    Matches (Linked V C) (depart listing d) (depart listing d) := by
  intro a b r a' hLinked hRun
  have hMoved : ∀ cursor events cursor' events',
      Linked V C { a with cursor := cursor, events := events }
        { b with cursor := cursor', events := events' } :=
    fun _ _ _ _ => ⟨hLinked.vars, hLinked.console⟩
  cases d with
  | onward =>
      cases hRun
      exact ⟨b.advance listing, rfl, hMoved _ _ _ _⟩
  | stop =>
      cases hRun
      exact ⟨b.halt, rfl, hMoved _ _ _ _⟩
  | jump c target =>
      cases hContains : listing.contains target with
      | true =>
          rw [run_depart_jump_of_contains c a hContains] at hRun
          cases hRun
          exact ⟨_, run_depart_jump_of_contains c b hContains, hMoved _ _ _ _⟩
      | false =>
          rw [run_depart_jump_of_not_contains c a hContains] at hRun
          cases hRun
          exact ⟨b, run_depart_jump_of_not_contains c b hContains, hLinked⟩

namespace InStep

variable {a₀ a : Machine σ} {b₀ b : Machine τ}

theorem note
    (h : InStep V C a₀ b₀ a b) (event : Event) :
    InStep V C a₀ b₀ (a.note event) (b.note event) := by
  obtain ⟨log, ha, hb⟩ := h.record
  refine ⟨⟨h.linked.vars, h.linked.console⟩, h.cursor, log ++ [event], ?_, ?_⟩
  · simp [Machine.note, ha]
  · simp [Machine.note, hb]

theorem moved
    (h : InStep V C a₀ b₀ a b) (cursor : Option LineNumber) :
    InStep V C a₀ b₀ { a with cursor := cursor } { b with cursor := cursor } :=
  ⟨⟨h.linked.vars, h.linked.console⟩, rfl, h.record⟩

/-- Machines that have kept in step have executed the same lines. -/
theorem executedSince_eq
    (h : InStep V C a₀ b₀ a b) :
    executedSince b₀ b = executedSince a₀ a := by
  obtain ⟨log, ha, hb⟩ := h.record
  rw [executedSince_of_append ha, executedSince_of_append hb]

/-- What neither sees nor changes the cursor and the record keeps machines in step. -/
theorem matches_of_detached
    {α : Type} {x : Action (Machine σ) α} {y : Action (Machine τ) α}
    (hx : Detached x) (hy : Detached y) (h : Matches (Linked V C) x y) :
    Matches (InStep V C a₀ b₀) x y := by
  intro a b r a' hStep hRun
  obtain ⟨b', hRun', hLinked⟩ := h a b r a' hStep.linked hRun
  obtain ⟨hCursor, hEvents⟩ := hx.keeps hRun
  obtain ⟨hCursor', hEvents'⟩ := hy.keeps hRun'
  refine ⟨b', hRun', hLinked, ?_, ?_⟩
  · rw [hCursor, hCursor', hStep.cursor]
  · rw [hEvents, hEvents']
    exact hStep.record

/-- From the same line of the same listing, control goes to the same line. -/
theorem matches_depart
    (listing : Listing) (d : Departure) :
    Matches (InStep V C a₀ b₀) (depart listing d) (depart listing d) := by
  intro a b r a' hStep hRun
  cases d with
  | onward =>
      cases hRun
      refine ⟨b.advance listing, rfl, ?_⟩
      rw [advance, advance, hStep.cursor]
      exact hStep.moved _
  | stop =>
      cases hRun
      exact ⟨b.halt, rfl, hStep.moved none⟩
  | jump c target =>
      cases hContains : listing.contains target with
      | true =>
          rw [run_depart_jump_of_contains c a hContains] at hRun
          cases hRun
          refine ⟨_, run_depart_jump_of_contains c b hContains, ?_⟩
          rw [hStep.cursor]
          exact (hStep.note _).moved (some target)
      | false =>
          rw [run_depart_jump_of_not_contains c a hContains] at hRun
          cases hRun
          exact ⟨b, run_depart_jump_of_not_contains c b hContains, hStep⟩

end InStep

/-- A run starts in step on linked machines, wherever their cursors are. -/
theorem Linked.started
    {a : Machine σ} {b : Machine τ}
    (h : Linked V C a b) (listing : Listing) :
    InStep V C a b (a.started listing) (b.started listing) := by
  have hStart : InStep V C a b (a.start listing) (b.start listing) :=
    ⟨⟨h.vars, h.console⟩, rfl, [], by simp [start], by simp [start]⟩
  exact hStart.note (.started listing.first?)

variable [Console σ] [Console τ]

theorem matches_printLine
    (hConsole : Console.Corresponds C) (line : String) :
    Matches (Linked V C) (printLine line) (printLine line) :=
  matches_useConsole (hConsole.prints line)

theorem matches_readInteger
    (hConsole : Console.Corresponds C) (fuel : Nat) :
    Matches (Linked V C) (readInteger fuel) (readInteger fuel) := by
  induction fuel with
  | zero => exact Action.exhausted_matches _
  | succ fuel ih =>
      refine (matches_useConsole (hConsole.reads inputPrompt)).bind fun line? => ?_
      cases line? with
      | none => exact Action.matches_throw _
      | some line =>
          cases hValue : valueOfText? line with
          | some v =>
              simp only [hValue]
              exact Action.matches_pure v
          | none =>
              simp only [hValue]
              exact (matches_printLine hConsole redoMessage).bind fun _ => ih

section Statements

variable {i : Instruction} {listing : Listing} {fuel : Nat} {r : Except Error Unit}
  {a₀ a a' : Machine σ} {b₀ b : Machine τ}

/-- An effect does the same on linked machines. -/
theorem matches_effect
    (hConsole : Console.Corresponds C) (hRespects : i.Respects V) (fuel : Nat) :
    Matches (Linked V C) (effect fuel i) (effect fuel i) := by
  cases i with
  | remark | stop | jump => exact Action.matches_pure _
  | assign e =>
      exact (matches_eval hRespects List.mem_cons_self).bind fun _ => Action.matches_pure _
  | print e =>
      exact (matches_eval hRespects List.mem_cons_self).bind fun v =>
        (matches_printLine hConsole v.render).bind fun _ => Action.matches_pure _
  | input c x =>
      have hAssign : ∀ v a b, Linked V C a b → Linked V C (a.assign x v) (b.assign x v) :=
        fun v a b h => ⟨hRespects.assigns c x rfl v a.vars b.vars h.vars, h.console⟩
      exact (matches_readInteger hConsole fuel).bind fun v =>
        (Action.matches_modify (hAssign v)).bind fun _ => Action.matches_pure _
  | branch l relation r c target =>
      exact (matches_eval hRespects List.mem_cons_self).bind fun _ =>
        (matches_eval hRespects (List.mem_cons_of_mem _ List.mem_cons_self)).bind fun _ =>
          Action.matches_pure _

/-- A statement does the same on linked machines, wherever their cursors are. -/
theorem matches_execute
    (hConsole : Console.Corresponds C) (hRespects : i.Respects V) (fuel : Nat)
    (listing : Listing) :
    Matches (Linked V C) (execute fuel listing i) (execute fuel listing i) := by
  rw [execute_eq, execute_eq]
  exact (matches_effect hConsole hRespects fuel).bind (matches_depart listing)

/-- A statement keeps machines in step. -/
theorem InStep.matches_execute
    (hConsole : Console.Corresponds C) (hRespects : i.Respects V) (fuel : Nat)
    (listing : Listing) :
    Matches (InStep V C a₀ b₀) (execute fuel listing i) (execute fuel listing i) := by
  rw [execute_eq, execute_eq]
  exact (InStep.matches_of_detached (detached_effect fuel i) (detached_effect fuel i)
    (matches_effect hConsole hRespects fuel)).bind (InStep.matches_depart listing)

/-- A turn keeps machines in step. -/
theorem InStep.exists_turn
    {a₁ : Machine σ}
    (hConsole : Console.Corresponds C)
    (hRespects : ∀ line ∈ listing.lines, line.2.instruction.Respects V)
    (hStep : InStep V C a₀ b₀ a b) (hTurn : Turn listing a a₁) :
    ∃ b₁, Turn listing b b₁ ∧ InStep V C a₀ b₀ a₁ b₁ := by
  obtain ⟨n, s, hCurrent, fuel, hRun⟩ := hTurn
  obtain ⟨hCursor, hGet⟩ := current?_eq_some_iff.mp hCurrent
  have hStored := hRespects (n, s) (Listing.get?_eq_some_iff.mp hGet)
  obtain ⟨b₁, hRun', hStep₁⟩ := InStep.matches_execute hConsole hStored fuel listing _ _ _ a₁
    (hStep.note (.executing n)) hRun
  exact ⟨b₁, ⟨n, s, current?_eq_some_iff.mpr ⟨hStep.cursor.trans hCursor, hGet⟩, fuel, hRun'⟩,
    hStep₁⟩

/-- Any number of turns keeps machines in step. -/
theorem InStep.exists_turns
    (hConsole : Console.Corresponds C)
    (hRespects : ∀ line ∈ listing.lines, line.2.instruction.Respects V)
    (hStep : InStep V C a₀ b₀ a b) (hTurns : Relation.ReflTransGen (Turn listing) a a') :
    ∃ b', Relation.ReflTransGen (Turn listing) b b' ∧ InStep V C a₀ b₀ a' b' := by
  induction hTurns with
  | refl => exact ⟨b, .refl, hStep⟩
  | tail _ hTurn ih =>
      obtain ⟨b₁, hTurns', hStep₁⟩ := ih
      obtain ⟨b₂, hTurn', hStep₂⟩ := hStep₁.exists_turn hConsole hRespects hTurn
      exact ⟨b₂, hTurns'.tail hTurn', hStep₂⟩

/-- The loop keeps machines in step. -/
theorem InStep.exists_runFrom
    (hConsole : Console.Corresponds C)
    (hRespects : ∀ line ∈ listing.lines, line.2.instruction.Respects V)
    (hStep : InStep V C a₀ b₀ a b) (hRun : runFrom listing fuel a = some (r, a')) :
    ∃ b', runFrom listing fuel b = some (r, b') ∧ InStep V C a₀ b₀ a' b' := by
  induction fuel generalizing a b with
  | zero => contradiction
  | succ fuel ih =>
      have hSame : b.current? listing = a.current? listing := by
        rw [current?, current?, hStep.cursor]
      cases hCurrent : a.current? listing with
      | none =>
          rw [runFrom_of_current?_eq_none fuel hCurrent] at hRun
          cases hRun
          exact ⟨_, runFrom_of_current?_eq_none fuel (hSame.trans hCurrent), hStep.note .finished⟩
      | some line =>
          obtain ⟨n, s⟩ := line
          have hStored := Listing.get?_eq_some_iff.mp (current?_eq_some_iff.mp hCurrent).2
          have hMatches : Matches (InStep V C a₀ b₀) _ _ :=
            InStep.matches_execute hConsole (hRespects (n, s) hStored) fuel listing
          rw [runFrom, hCurrent] at hRun
          cases hExecute :
              (execute fuel listing s.instruction).run.run (a.note (.executing n)) with
          | none => simp [hExecute] at hRun
          | some outcome =>
              obtain ⟨r₁, a₁⟩ := outcome
              obtain ⟨b₁, hExecute', hStep₁⟩ :=
                hMatches _ _ r₁ a₁ (hStep.note (.executing n)) hExecute
              simp only [hExecute] at hRun
              cases r₁ with
              | error e =>
                  cases hRun
                  exact ⟨b₁, runFrom_of_error (hSame.trans hCurrent) hExecute', hStep₁⟩
              | ok u =>
                  rw [runFrom_of_ok (hSame.trans hCurrent) hExecute']
                  exact ih hStep₁ hRun

/-- A run does the same on linked machines, wherever their cursors are, and keeps them in step. -/
theorem exists_run_of_linked
    (hConsole : Console.Corresponds C)
    (hRespects : ∀ line ∈ listing.lines, line.2.instruction.Respects V)
    (hLinked : Linked V C a b) (hRun : (run fuel listing).run.run a = some (r, a')) :
    ∃ b', (run fuel listing).run.run b = some (r, b') ∧ InStep V C a b a' b' := by
  exact (hLinked.started listing).exists_runFrom hConsole hRespects hRun

/-- A text that is executed at once does the same on linked machines. -/
theorem matches_runDirect
    {text : String}
    (hConsole : Console.Corresponds C)
    (hRespects : ∀ s, Statement.parse text = .ok s → s.instruction.Respects V) (fuel : Nat)
    (listing : Listing) :
    Matches (Linked V C) (runDirect fuel listing text) (runDirect fuel listing text) := by
  intro a b r a' hLinked hRun
  cases hParse : Statement.parse text with
  | error e =>
      rw [run_runDirect_of_error fuel listing a hParse] at hRun
      cases hRun
      exact ⟨b, run_runDirect_of_error fuel listing b hParse, hLinked⟩
  | ok s =>
      cases hAllowed : s.instruction.allowedDirect with
      | false =>
          rw [run_runDirect_of_illegal fuel listing a hParse hAllowed] at hRun
          cases hRun
          exact ⟨b, run_runDirect_of_illegal fuel listing b hParse hAllowed, hLinked⟩
      | true =>
          rw [run_runDirect_of_allowed fuel listing a hParse hAllowed,
            Option.map_eq_some_iff] at hRun
          obtain ⟨⟨_, a₁⟩, hExecute, hOutcome⟩ := hRun
          obtain ⟨rfl, rfl⟩ := Prod.mk.inj hOutcome
          obtain ⟨b₁, hExecute', hLinked₁⟩ :=
            matches_execute hConsole (hRespects s hParse) fuel listing a b _ a₁ hLinked hExecute
          refine ⟨{ b₁ with cursor := b.cursor }, ?_, hLinked₁.vars, hLinked₁.console⟩
          rw [run_runDirect_of_allowed fuel listing b hParse hAllowed, hExecute']
          rfl

end Statements

end Machine

namespace Session

variable {σ τ : Type} {C : σ → τ → Prop}

/-- The sessions have the same listing and the same variables, and related consoles; their cursors
and records may differ. -/
structure Alike (C : σ → τ → Prop) (s : Session σ) (t : Session τ) : Prop where
  listing : s.listing = t.listing
  linked : Machine.Linked Variables.SameValues C s.machine t.machine

theorem matches_onMachine
    {α : Type} {x : Listing → Action (Machine σ) α} {y : Listing → Action (Machine τ) α}
    (h : ∀ listing, Matches (Machine.Linked Variables.SameValues C) (x listing) (y listing)) :
    Matches (Alike C) (onMachine x) (onMachine y) := by
  rintro ⟨listing, a⟩ ⟨_, b⟩ r s' ⟨rfl, hLinked⟩ hRun
  rw [run_onMachine, Option.map_eq_some_iff] at hRun
  obtain ⟨⟨_, a'⟩, hRun, hOutcome⟩ := hRun
  obtain ⟨rfl, rfl⟩ := Prod.mk.inj hOutcome
  obtain ⟨b', hRun', hLinked'⟩ := h listing a b _ a' hLinked hRun
  refine ⟨⟨listing, b'⟩, ?_, rfl, hLinked'⟩
  rw [run_onMachine, hRun']
  rfl

namespace Alike

variable {s : Session σ} {t : Session τ}

theorem note
    (h : Alike C s t) (event event' : Event) :
    Alike C (s.note event) (t.note event') :=
  ⟨h.listing, h.linked.vars, h.linked.console⟩

theorem edited
    (h : Alike C s t) (listing : Listing) :
    Alike C { s with listing := listing } { t with listing := listing } :=
  ⟨rfl, h.linked⟩

theorem clear
    (h : Alike C s t) :
    Alike C s.clear t.clear :=
  ⟨rfl, .refl _ _, h.linked.console⟩

theorem removeLine
    (h : Alike C s t) (n : LineNumber) :
    Alike C (s.removeLine n) (t.removeLine n) := by
  rw [Session.removeLine, Session.removeLine, ← h.listing]
  split
  · exact (h.edited _).note _ _
  · exact h

theorem insertLine
    (h : Alike C s t) (n : LineNumber) (statement : Statement) :
    Alike C
      ({ s with listing := s.listing.insert n statement }.note
        (.inserted n (s.listing.contains n)))
      ({ t with listing := t.listing.insert n statement }.note
        (.inserted n (t.listing.contains n))) := by
  rw [← h.listing]
  exact (h.edited _).note _ _

end Alike

variable [Console σ] [Console τ]

theorem matches_forM_printLine
    {α : Type} (hConsole : Console.Corresponds C) (text : α → String) (items : List α) :
    Matches (Alike C) (items.forM fun item => printLine (text item))
      (items.forM fun item => printLine (text item)) := by
  induction items with
  | nil => exact Action.matches_pure _
  | cons item items ih =>
      exact (matches_onMachine fun _ => Machine.matches_printLine hConsole (text item)).bind
        fun _ => ih

/-- A command does the same in sessions that are alike. -/
theorem matches_perform
    (hConsole : Console.Corresponds C) (fuel : Nat) (command : Command) :
    Matches (Alike C) (perform fuel command) (perform fuel command) := by
  cases command with
  | nothing | quit => exact Action.matches_pure _
  | run =>
      refine Matches.bind (matches_onMachine fun listing => ?_) fun _ => Action.matches_pure _
      intro a b r a' hLinked hRun
      obtain ⟨b', hRun', hStep⟩ := Machine.exists_run_of_linked hConsole
        (fun line _ => line.2.instruction.respects_sameValues) hLinked hRun
      exact ⟨b', hRun', hStep.linked⟩
  | direct text =>
      exact (matches_onMachine fun listing => Machine.matches_runDirect hConsole
        (fun s _ => s.instruction.respects_sameValues) fuel listing).bind fun _ => Action.matches_pure _
  | list =>
      intro s t r s' hAlike hRun
      have hList : s.list = t.list := by rw [list, list, hAlike.listing]
      have hShown := (matches_forM_printLine hConsole listed t.list).bind fun _ =>
        Action.matches_pure Reply.ready
      exact hShown s t r s' hAlike (hList ▸ hRun)
  | help =>
      exact (matches_forM_printLine hConsole id Command.helpLines).bind fun _ =>
        Action.matches_pure _
  | clear =>
      exact (Action.matches_modify fun _ _ h => h.clear).bind fun _ => Action.matches_pure _
  | remove n =>
      exact (Action.matches_modify fun _ _ h => h.removeLine n).bind fun _ =>
        Action.matches_pure _
  | insert n text =>
      intro s t r s' hAlike hRun
      cases hParse : Statement.parse text with
      | error e =>
          rw [run_perform_insert_of_error fuel s hParse] at hRun
          cases hRun
          exact ⟨t, run_perform_insert_of_error fuel t hParse, hAlike⟩
      | ok statement =>
          rw [run_perform_insert_of_ok fuel s hParse] at hRun
          cases hRun
          exact ⟨_, run_perform_insert_of_ok fuel t hParse, hAlike.insertLine n statement⟩

/-- Sessions that are alike answer a line in the same way, and are alike afterwards. -/
theorem Alike.exists_enters
    {s s' : Session σ} {t : Session τ} {line : String} {outcome : Except Error Reply}
    (h : Alike C s t) (hConsole : Console.Corresponds C) (hEnters : s.Enters line outcome s') :
    ∃ t', t.Enters line outcome t' ∧ Alike C s' t' := by
  obtain ⟨fuel, hRun⟩ := hEnters
  cases hCommand : Command.parse line with
  | error e =>
      rw [run_enter_of_error fuel s hCommand] at hRun
      cases hRun
      exact ⟨t, ⟨fuel, run_enter_of_error fuel t hCommand⟩, h⟩
  | ok command =>
      rw [run_enter_of_ok fuel s hCommand] at hRun
      obtain ⟨t', hRun', hAlike⟩ := matches_perform hConsole fuel command s t _ s' h hRun
      exact ⟨t', ⟨fuel, (run_enter_of_ok fuel t hCommand).trans hRun'⟩, hAlike⟩

end Session

end IntegerBasic
