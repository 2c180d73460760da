import IntegerBasic.Console.Pipe
import IntegerBasic.Console.Transcript
import IntegerBasic.Proofs.ProgramPath
import Mathlib.Order.WellFounded

/-!
# Consoles that run out of input

An `INPUT` asks until it is given the text of a value, so on a console that goes on answering with
something else it never ends.  Here it is shown that nothing else keeps a statement from ending.

**Definitions.**  A `Use` of a console prints a line or asks for one, with or without success.  A
console has `FiniteInput` if, however it is used, it gives a line only finitely often: the relation
`GivesLine` between a console and what it is after its next line cannot be followed forever.

**Argument.**  A statement changes the console by using it (`UsesConsole`), so what remains of a
finite input stays finite.  Each round of an `INPUT` but the last consumes a line.

**Results.**
* `Transcript.finiteInput`, `Pipe.finiteInput`: prepared input is finite.
* `exists_executes_of_finiteInput`: on such a console every statement comes to an end.
* `finiteInput_of_executes`: and its input is finite afterwards.
-/

namespace IntegerBasic

namespace Console

variable {σ : Type} [Console σ]

/-- One use of a console, and what it is afterwards. -/
inductive Use : σ → σ → Prop
  | print (line : String) (c : σ) :
      Use c (printLine line c).2
  | read (prompt : String) (c : σ) :
      Use c (readLine prompt c).2

/-- The console `c` gives a line, perhaps after some other uses, and is `c'` then. -/
def GivesLine (c' c : σ) : Prop :=
  ∃ between prompt line, Relation.ReflTransGen Use c between ∧
    readLine prompt between = (.ok (some line), c')

/-- However it is used, the console gives a line only finitely often. -/
def FiniteInput (c : σ) : Prop :=
  Acc GivesLine c

/-- What is left of a finite input is finite. -/
theorem FiniteInput.of_uses
    {c c' : σ}
    (h : FiniteInput c) (hUses : Relation.ReflTransGen Use c c') :
    FiniteInput c' := by
  refine Acc.intro c' ?_
  rintro d ⟨between, prompt, line, hBetween, hRead⟩
  exact h.inv ⟨between, prompt, line, hUses.trans hBetween, hRead⟩

section Measure

variable {μ : σ → Nat}

theorem le_of_uses
    (hUse : ∀ c c', Use c c' → μ c' ≤ μ c) {c c' : σ}
    (h : Relation.ReflTransGen Use c c') :
    μ c' ≤ μ c := by
  induction h with
  | refl => exact Nat.le_refl _
  | tail _ hLast ih => exact Nat.le_trans (hUse _ _ hLast) ih

/-- The input is finite if there is a measure of it that no use increases and that every line
given decreases. -/
theorem finiteInput_of_measure
    (hUse : ∀ c c', Use c c' → μ c' ≤ μ c)
    (hLine : ∀ prompt c line c', readLine prompt c = (.ok (some line), c') → μ c' < μ c)
    (c : σ) :
    FiniteInput c := by
  have hLess : ∀ c' c, GivesLine c' c → μ c' < μ c := by
    rintro c' c ⟨between, prompt, line, hUses, hRead⟩
    exact Nat.lt_of_lt_of_le (hLine _ _ _ _ hRead) (le_of_uses hUse hUses)
  exact (Subrelation.wf (fun {c' c} => hLess c' c) (measure μ).wf).apply c

end Measure

end Console

/-- The lines of a transcript are finite in number. -/
theorem Transcript.finiteInput
    (t : Transcript) :
    Console.FiniteInput t := by
  refine Console.finiteInput_of_measure (μ := fun t => t.input.length) ?_ ?_ t
  · intro t t' h
    cases h with
    | print line => exact Nat.le_refl _
    | read prompt =>
        obtain ⟨_ | ⟨line, rest⟩, output⟩ := t
        · exact Nat.le_refl _
        · exact Nat.le_succ _
  · rintro prompt ⟨_ | ⟨line, rest⟩, output⟩ answer t' h
    · cases h
    · cases h
      exact Nat.lt_succ_self _

/-- The lines of a pipe are finite in number. -/
theorem Pipe.finiteInput
    (p : Pipe) :
    Console.FiniteInput p := by
  refine Console.finiteInput_of_measure (μ := fun p => p.input.length) ?_ ?_ p
  · intro p p' h
    cases h with
    | print line => exact Nat.le_refl _
    | read prompt =>
        obtain ⟨_ | ⟨b, bs⟩, output⟩ := p
        · exact Nat.le_refl _
        · exact Nat.le_of_lt (length_readTextLine_lt (List.cons_ne_nil b bs))
  · rintro prompt ⟨_ | ⟨b, bs⟩, output⟩ line p' h
    · cases h
    · rw [← (Prod.mk.inj h).2]
      exact length_readTextLine_lt (List.cons_ne_nil b bs)

namespace Machine

variable {σ : Type}

theorem total_eval
    (e : Expr) :
    Action.Total (eval e : Action (Machine σ) Value) :=
  fun m => ⟨_, _, run_eval e m⟩

theorem total_useConsole
    {α : Type} (use : σ → Except String α × σ) :
    Action.Total (useConsole use) :=
  fun _ => ⟨_, _, rfl⟩

theorem total_depart
    (listing : Listing) (d : Departure) :
    Action.Total (depart listing d : Action (Machine σ) Unit) := by
  intro m
  obtain ⟨r, _, _, hRun⟩ := exists_run_depart listing d m
  exact ⟨r, _, hRun⟩

variable [Console σ]

section UsesConsole

/-- The action changes the console only by using it. -/
def UsesConsole {α : Type} (x : Action (Machine σ) α) : Prop :=
  ∀ m r m', x.run.run m = some (r, m') → Relation.ReflTransGen Console.Use m.console m'.console

theorem usesConsole_printLine
    (line : String) :
    UsesConsole (printLine line : Action (Machine σ) Unit) := by
  intro m r m' h
  cases h
  exact .single (.print line m.console)

theorem usesConsole_readLine
    (prompt : String) :
    UsesConsole (readLine prompt : Action (Machine σ) (Option String)) := by
  intro m r m' h
  cases h
  exact .single (.read prompt m.console)

theorem effectClosed_usesConsole :
    EffectClosed fun {α} (x : Action (Machine σ) α) => UsesConsole x := by
  refine effectClosed_steps (fun m => .refl) (fun _ _ _ => .trans) ?_ ?_ usesConsole_printLine
    usesConsole_readLine
  · intro e m r m' h
    cases h
    exact .refl
  · intro x v m r m' h
    cases h
    exact .refl

theorem usesConsole_depart
    (listing : Listing) (d : Departure) :
    UsesConsole (depart listing d : Action (Machine σ) Unit) := by
  intro m r m' h
  obtain ⟨_, _, _, hRun⟩ := exists_run_depart listing d m
  cases h.symm.trans hRun
  exact .refl

end UsesConsole

section Outcome

variable {listing : Listing} {i : Instruction}

/-- A statement changes the console only by using it. -/
theorem uses_of_executes
    {m m' : Machine σ} {r : Except Error Unit}
    (h : Executes listing i m r m') :
    Relation.ReflTransGen Console.Use m.console m'.console := by
  obtain ⟨fuel, hRun⟩ := h
  rw [execute_eq] at hRun
  exact Action.Steps.bind (fun _ _ _ => .trans) (effectClosed_usesConsole.effect fuel i)
    (usesConsole_depart listing) m r m' hRun

theorem givesLine_of_readLine
    {c : σ} {m m' : Machine σ} {prompt line : String}
    (hUses : Relation.ReflTransGen Console.Use c m.console)
    (h : (readLine prompt).run.run m = some (.ok (some line), m')) :
    Console.GivesLine m'.console c := by
  refine ⟨m.console, prompt, line, hUses, ?_⟩
  have hRun : (readLine prompt).run.run m =
      some ((Console.readLine prompt m.console).1.mapError Error.ofConsole,
        { m with console := (Console.readLine prompt m.console).2 }) := rfl
  rw [hRun, Option.some_inj, Prod.mk.injEq] at h
  obtain ⟨hAnswer, rfl⟩ := h
  refine Prod.ext ?_ rfl
  cases hLine : (Console.readLine prompt m.console).1 with
  | error failure =>
      rw [hLine] at hAnswer
      cases hAnswer
  | ok answer =>
      rw [hLine] at hAnswer
      cases hAnswer
      rfl

/-- After an answer that is not the text of a value, an `INPUT` starts over. -/
theorem run_readInteger_of_redo
    {m m₁ : Machine σ} {line : String}
    (hRead : (readLine inputPrompt).run.run m = some (.ok (some line), m₁))
    (hNoValue : valueOfText? line = none) (fuel : Nat) :
    (readInteger (fuel + 1)).run.run m =
      (printLine redoMessage >>= fun _ => readInteger fuel).run.run m₁ := by
  rw [readInteger, Action.run_bind_of_ok hRead]
  simp only [hNoValue]

/-- With a finite input, an `INPUT` comes to an end: it is given a value, or the input ends, or the
console fails. -/
theorem exists_run_readInteger
    {c : σ}
    (hFinite : Console.FiniteInput c) :
    ∀ m : Machine σ, Relation.ReflTransGen Console.Use c m.console →
      ∃ fuel r m', (readInteger fuel).run.run m = some (r, m') := by
  -- The console may have been used since its last line, so the machine is not fixed.
  induction hFinite with
  | intro c _ ih =>
      intro m hUses
      obtain ⟨answer, m₁, hRead⟩ := total_useConsole (Console.readLine inputPrompt) m
      obtain e | _ | line := answer
      · exact ⟨1, _, m₁, Action.run_bind_of_error hRead _⟩
      · exact ⟨1, _, m₁, Action.run_bind_of_ok hRead _⟩
      · cases hValue : valueOfText? line with
        | some v =>
            refine ⟨1, .ok v, m₁, (Action.run_bind_of_ok hRead _).trans ?_⟩
            simp only [hValue]
            rfl
        | none =>
            obtain ⟨printed, m₂, hPrint⟩ := total_useConsole (Console.printLine redoMessage) m₁
            cases printed with
            | error e =>
                exact ⟨1, _, m₂, (run_readInteger_of_redo hRead hValue 0).trans
                  (Action.run_bind_of_error hPrint _)⟩
            | ok u =>
                obtain ⟨fuel, r, m', hRest⟩ := ih m₁.console (givesLine_of_readLine hUses hRead)
                  m₂ (usesConsole_printLine redoMessage m₁ _ m₂ hPrint)
                exact ⟨fuel + 1, r, m', (run_readInteger_of_redo hRead hValue fuel).trans
                  ((Action.run_bind_of_ok hPrint _).trans hRest)⟩

/-- With a finite input, every effect comes to an end. -/
theorem exists_run_effect
    {m : Machine σ}
    (hFinite : Console.FiniteInput m.console) (i : Instruction) :
    ∃ fuel r m', (effect fuel i).run.run m = some (r, m') := by
  cases i with
  | remark | stop | jump => exact ⟨0, Action.total_pure _ m⟩
  | assign e => exact ⟨0, (total_eval e).bind (fun _ => Action.total_pure _) m⟩
  | print e =>
      exact ⟨0, (total_eval e).bind
        (fun _ => (total_useConsole _).bind fun _ => Action.total_pure _) m⟩
  | input c y =>
      obtain ⟨fuel, hRead⟩ := exists_run_readInteger hFinite m .refl
      exact ⟨fuel, Action.exists_run_bind hRead fun v m' => ⟨_, _, rfl⟩⟩
  | branch l relation r c target =>
      exact ⟨0, (total_eval l).bind
        (fun _ => (total_eval r).bind fun _ => Action.total_pure _) m⟩

/-- With a finite input, every statement comes to an end. -/
theorem exists_executes_of_finiteInput
    {m : Machine σ}
    (hFinite : Console.FiniteInput m.console) (listing : Listing) (i : Instruction) :
    ∃ r m', Executes listing i m r m' := by
  obtain ⟨fuel, hEffect⟩ := exists_run_effect hFinite i
  obtain ⟨r, m', hRun⟩ := Action.exists_run_bind hEffect (total_depart listing)
  refine ⟨r, m', fuel, ?_⟩
  rw [execute_eq]
  exact hRun

/-- What a statement leaves of a finite input is finite. -/
theorem finiteInput_of_executes
    {m m' : Machine σ} {r : Except Error Unit}
    (hFinite : Console.FiniteInput m.console) (h : Executes listing i m r m') :
    Console.FiniteInput m'.console :=
  hFinite.of_uses (uses_of_executes h)

end Outcome

end Machine
end IntegerBasic
