import IntegerBasic.Machine.Run
import IntegerBasic.Proofs.Outcome

/-!
# What a statement does before the cursor moves

Executing a statement falls into two parts.  Its *effect* evaluates, prints or reads; it uses
neither the listing nor the cursor, and ends in a `Departure`, which says how control will leave
the line.  Then the departure moves the cursor, and only that looks at the listing.

**Results.**
* `run_execute`: a statement is executed by its effect and then its departure.
* `EffectClosed.effect`: a property that is inherited from parts to sequences holds of every effect.
* `effectClosed_steps`: so does a relation between the machines before and after.
* `detached_effect`: an effect neither sees nor changes the cursor and the record of events.
* `departs_of_effect`: the departure is the one that the instruction asks for.
* `cases_of_effect_error`, `exists_jump_of_depart_error`: where either of the two can fail.
* `execute_extends`: with more steps allowed, a statement does what it did with fewer.
-/

namespace IntegerBasic

/-- How control leaves a line. -/
inductive Departure where
  | onward
  | stop
  | jump (column : Column) (target : LineNumber)
deriving DecidableEq

namespace Machine

variable {σ : Type}

/-- The action neither sees nor changes the cursor and the record of events. -/
def Detached {α : Type} (x : Action (Machine σ) α) : Prop :=
  ∀ m cursor events, x.run.run { m with cursor := cursor, events := events } =
    (x.run.run m).map fun (r, m') => (r, { m' with cursor := cursor, events := events })

section Detached

variable {α β : Type} {x : Action (Machine σ) α}

theorem detached_pure
    (a : α) :
    Detached (pure a : Action (Machine σ) α) :=
  fun _ _ _ => rfl

theorem detached_throw
    (e : Error) :
    Detached (throw e : Action (Machine σ) α) :=
  fun _ _ _ => rfl

theorem detached_exhausted :
    Detached (Action.exhausted : Action (Machine σ) α) :=
  fun _ _ _ => rfl

theorem detached_eval
    (e : Expr) :
    Detached (eval e : Action (Machine σ) Value) :=
  fun _ _ _ => rfl

theorem detached_useConsole
    (use : σ → Except String α × σ) :
    Detached (useConsole use) :=
  fun _ _ _ => rfl

theorem detached_assign
    (x : Name) (v : Value) :
    Detached (modify (assign x v) : Action (Machine σ) PUnit) :=
  fun _ _ _ => rfl

theorem Detached.bind
    {f : α → Action (Machine σ) β}
    (hx : Detached x) (hf : ∀ a, Detached (f a)) :
    Detached (x >>= f) := by
  intro m cursor events
  have hMoved := hx m cursor events
  cases hRun : x.run.run m with
  | none =>
      rw [hRun] at hMoved
      rw [Action.run_bind_of_none hMoved, Action.run_bind_of_none hRun]
      rfl
  | some outcome =>
      obtain ⟨result, m'⟩ := outcome
      rw [hRun] at hMoved
      cases result with
      | error e =>
          rw [Action.run_bind_of_error hMoved, Action.run_bind_of_error hRun]
          rfl
      | ok a =>
          rw [Action.run_bind_of_ok hMoved, Action.run_bind_of_ok hRun]
          exact hf a m' cursor events

theorem Detached.keeps
    {m m' : Machine σ} {r : Except Error α}
    (h : Detached x)
    (hRun : x.run.run m = some (r, m')) :
    m'.cursor = m.cursor ∧ m'.events = m.events := by
  have hSelf : x.run.run m = some (r, { m' with cursor := m.cursor, events := m.events }) := by
    have hMoved := h m m.cursor m.events
    rw [hRun] at hMoved
    exact hRun.trans hMoved
  rw [hRun, Option.some_inj, Prod.mk.injEq] at hSelf
  have hCursor := congrArg cursor hSelf.2
  have hEvents := congrArg events hSelf.2
  exact ⟨hCursor, hEvents⟩

end Detached

theorem run_eval
    (e : Expr) (m : Machine σ) :
    (eval e).run.run m =
      some ((e.eval.run.run m.vars).1, { m with vars := (e.eval.run.run m.vars).2 }) := by
  rfl

/-- Moves the cursor as the departure says. -/
def depart (listing : Listing) : Departure → Action (Machine σ) Unit
  | .onward => modify (advance listing)
  | .stop => modify halt
  | .jump c target => (jump listing target).adapt (Error.inColumn c)

theorem run_depart_jump_of_contains
    {listing : Listing} {target : LineNumber} (c : Column) (m : Machine σ)
    (h : listing.contains target = true) :
    (depart listing (.jump c target)).run.run m =
      some (.ok (), { m.note (.jumped m.cursor target) with cursor := some target }) := by
  rw [depart, Action.run_adapt, run_jump_of_contains m h]
  rfl

theorem run_depart_jump_of_not_contains
    {listing : Listing} {target : LineNumber} (c : Column) (m : Machine σ)
    (h : listing.contains target = false) :
    (depart listing (.jump c target)).run.run m =
      some (.error ((Error.of .lineNumberError).inColumn c), m) := by
  rw [depart, Action.run_adapt, run_jump_of_not_contains m h]
  rfl

/-- Only a jump to a line that is not stored fails, and it changes nothing. -/
theorem exists_jump_of_depart_error
    {listing : Listing} {d : Departure} {m m' : Machine σ} {e : Error}
    (h : (depart listing d).run.run m = some (.error e, m')) :
    ∃ c target, d = .jump c target ∧ listing.contains target = false ∧
      e = (Error.of .lineNumberError).inColumn c ∧ m' = m := by
  cases d with
  | onward | stop => cases h
  | jump c target =>
      cases hContains : listing.contains target with
      | true =>
          rw [run_depart_jump_of_contains c m hContains] at h
          cases h
      | false =>
          rw [run_depart_jump_of_not_contains c m hContains] at h
          cases h
          exact ⟨c, target, rfl, hContains, rfl, rfl⟩

/-- Leaving a line moves the cursor and adds to the record, and that is all. -/
theorem exists_run_depart
    (listing : Listing) (d : Departure) (m : Machine σ) :
    ∃ result cursor events, (depart listing d).run.run m =
      some (result, { m with cursor := cursor, events := events }) := by
  cases d with
  | onward => exact ⟨.ok (), _, m.events, rfl⟩
  | stop => exact ⟨.ok (), none, m.events, rfl⟩
  | jump c target =>
      cases hContains : listing.contains target with
      | true =>
          rw [run_depart_jump_of_contains c m hContains]
          exact ⟨.ok (), some target, _, rfl⟩
      | false =>
          rw [run_depart_jump_of_not_contains c m hContains]
          exact ⟨.error _, m.cursor, m.events, rfl⟩

variable [Console σ]

/-- What an instruction does apart from moving the cursor. -/
def effect (fuel : Nat) : Instruction → Action (Machine σ) Departure
  | .remark => pure .onward
  | .assign e => do
      let _ ← eval e
      pure .onward
  | .print e => do
      print (← eval e)
      pure .onward
  | .input _ x => do
      let v ← readInteger fuel
      modify (assign x v)
      pure .onward
  | .stop => pure .stop
  | .jump c target => pure (.jump c target)
  | .branch l relation r c target => do
      let a ← eval l
      let b ← eval r
      pure (if relation.holds a b then .jump c target else .onward)

/-- An instruction is executed by its effect and then its departure. -/
theorem execute_eq
    (fuel : Nat) (listing : Listing) (i : Instruction) :
    execute (σ := σ) fuel listing i = effect fuel i >>= depart listing := by
  cases i with
  | remark => rfl
  | assign e => simp [execute, effect, depart]
  | print e => simp [execute, effect, depart, bind_assoc]
  | input c x =>
      simp [execute, effect, depart, bind_assoc]
      rfl
  | stop => rfl
  | jump c target => rfl
  | branch l relation r c target =>
      simp only [execute, effect, bind_assoc, pure_bind]
      congr 1
      funext a
      congr 1
      funext b
      split <;> rfl

theorem run_execute_eq_some_iff
    {fuel : Nat} {listing : Listing} {i : Instruction} {m m'' : Machine σ} {r : Except Error Unit} :
    (execute fuel listing i).run.run m = some (r, m'') ↔
      (∃ d m', (effect fuel i).run.run m = some (.ok d, m') ∧
        (depart listing d).run.run m' = some (r, m'')) ∨
      (∃ e, (effect fuel i).run.run m = some (.error e, m'') ∧ r = .error e) := by
  rw [execute_eq, Action.run_bind_eq_some_iff]

/-- The property holds of the steps that effects are made of, and sequences inherit it. -/
structure EffectClosed (P : ∀ {α : Type}, Action (Machine σ) α → Prop) : Prop where
  pure : ∀ {α : Type} (a : α), P (pure a)
  throw : ∀ {α : Type} (e : Error), P (throw e : Action (Machine σ) α)
  exhausted : ∀ {α : Type}, P (Action.exhausted : Action (Machine σ) α)
  eval : ∀ e : Expr, P (eval e)
  assign : ∀ (x : Name) (v : Value), P (modify (assign x v))
  printLine : ∀ line : String, P (printLine line)
  readLine : ∀ prompt : String, P (readLine prompt)
  bind : ∀ {α β : Type} {x : Action (Machine σ) α} {f : α → Action (Machine σ) β},
    P x → (∀ a, P (f a)) → P (x >>= f)

namespace EffectClosed

variable {P : ∀ {α : Type}, Action (Machine σ) α → Prop}

theorem readInteger
    (hP : EffectClosed P) (fuel : Nat) :
    P (readInteger fuel) := by
  induction fuel with
  | zero => exact hP.exhausted
  | succ fuel ih =>
      refine hP.bind (hP.readLine _) fun line? => ?_
      cases line? with
      | none => exact hP.throw _
      | some line =>
          cases h : valueOfText? line with
          | some v =>
              simp only [h]
              exact hP.pure v
          | none =>
              simp only [h]
              exact hP.bind (hP.printLine _) fun _ => ih

/-- The property holds of every effect. -/
theorem effect
    (hP : EffectClosed P) (fuel : Nat) (i : Instruction) :
    P (effect fuel i) := by
  cases i with
  | remark | stop | jump => exact hP.pure _
  | assign e => exact hP.bind (hP.eval e) fun _ => hP.pure _
  | print e =>
      exact hP.bind (hP.eval e) fun v => hP.bind (hP.printLine v.render) fun _ => hP.pure _
  | input c x =>
      exact hP.bind (hP.readInteger fuel) fun v => hP.bind (hP.assign x v) fun _ => hP.pure _
  | branch l relation r c target =>
      exact hP.bind (hP.eval l) fun a => hP.bind (hP.eval r) fun b => hP.pure _

end EffectClosed

/-- A reflexive and transitive relation between the machines before and after holds of every effect
if it holds of evaluations, assignments and calls. -/
theorem effectClosed_steps
    {R : Machine σ → Machine σ → Prop}
    (hRefl : ∀ m, R m m) (hTrans : ∀ a b c, R a b → R b c → R a c)
    (hEval : ∀ e, Action.Steps R (eval e)) (hAssign : ∀ x v, Action.Steps R (modify (assign x v)))
    (hPrint : ∀ line, Action.Steps R (printLine line))
    (hRead : ∀ prompt, Action.Steps R (readLine prompt)) :
    EffectClosed fun {α} (x : Action (Machine σ) α) => Action.Steps R x where
  pure a m r m' h := by
    cases h
    exact hRefl m
  throw e m r m' h := by
    cases h
    exact hRefl m
  exhausted m r m' h := by
    cases h
  eval := hEval
  assign := hAssign
  printLine := hPrint
  readLine := hRead
  bind := Action.Steps.bind hTrans

theorem effectClosed_detached :
    EffectClosed fun {α} (x : Action (Machine σ) α) => Detached x where
  pure := detached_pure
  throw := detached_throw
  exhausted := detached_exhausted
  eval := detached_eval
  assign := detached_assign
  printLine _ := detached_useConsole _
  readLine _ := detached_useConsole _
  bind := Detached.bind

/-- An effect neither sees nor changes the cursor and the record of events. -/
theorem detached_effect
    (fuel : Nat) (i : Instruction) :
    Detached (effect fuel i : Action (Machine σ) Departure) :=
  effectClosed_detached.effect fuel i

end Machine

/-- The relation between integers that is tested. -/
def Comparison.Relates : Comparison → Int → Int → Prop
  | equal, i, j => i = j
  | less, i, j => i < j
  | greater, i, j => j < i

/-- Values are compared as the integers they are. -/
theorem Comparison.holds_iff_relates
    {relation : Comparison} {a b : Value} :
    relation.holds a b = true ↔ relation.Relates a.toInt b.toInt := by
  cases relation <;> simp [holds, Relates]

/-- Both operands have values, the left one being evaluated first, and `outcome` says whether the
relation is that of their integers. -/
def Compares (vars : Variables) (l : Expr) (relation : Comparison) (r : Expr) (outcome : Bool) :
    Prop :=
  ∃ a between b after, l.eval.run.run vars = (.ok a, between) ∧
    r.eval.run.run between = (.ok b, after) ∧
    (outcome = true ↔ relation.Relates a.toInt b.toInt)

/-- The departure that an instruction asks for. -/
inductive Departs (vars : Variables) : Instruction → Departure → Prop
  | remark :
      Departs vars .remark .onward
  | assign {e : Expr} :
      Departs vars (.assign e) .onward
  | print {e : Expr} :
      Departs vars (.print e) .onward
  | input {c : Column} {x : Name} :
      Departs vars (.input c x) .onward
  | stop :
      Departs vars .stop .stop
  | jump {c : Column} {target : LineNumber} :
      Departs vars (.jump c target) (.jump c target)
  | taken {l r : Expr} {relation : Comparison} {c : Column} {target : LineNumber} :
      Compares vars l relation r true →
      Departs vars (.branch l relation r c target) (.jump c target)
  | passed {l r : Expr} {relation : Comparison} {c : Column} {target : LineNumber} :
      Compares vars l relation r false →
      Departs vars (.branch l relation r c target) .onward

theorem Compares.unique
    {vars : Variables} {l r : Expr} {relation : Comparison} {outcome outcome' : Bool}
    (h : Compares vars l relation r outcome) (h' : Compares vars l relation r outcome') :
    outcome = outcome' := by
  obtain ⟨a, between, b, after, hLeft, hRight, hOutcome⟩ := h
  obtain ⟨a', between', b', after', hLeft', hRight', hOutcome'⟩ := h'
  rw [hLeft, Prod.mk.injEq, Except.ok.injEq] at hLeft'
  obtain ⟨rfl, rfl⟩ := hLeft'
  rw [hRight, Prod.mk.injEq, Except.ok.injEq] at hRight'
  obtain ⟨rfl, rfl⟩ := hRight'
  exact Bool.eq_iff_iff.mpr (hOutcome.trans hOutcome'.symm)

theorem Departs.unique
    {vars : Variables} {i : Instruction} {d d' : Departure}
    (h : Departs vars i d) (h' : Departs vars i d') :
    d = d' := by
  cases h with
  | remark | assign | print | input | stop | jump =>
      cases h'
      rfl
  | taken hCompares =>
      cases h' with
      | taken _ => rfl
      | passed hCompares' => exact absurd (hCompares.unique hCompares') (by decide)
  | passed hCompares =>
      cases h' with
      | taken hCompares' => exact absurd (hCompares.unique hCompares') (by decide)
      | passed _ => rfl

/-- Only the target of an instruction is jumped to. -/
theorem Departs.target?_eq
    {vars : Variables} {i : Instruction} {c : Column} {target : LineNumber}
    (h : Departs vars i (.jump c target)) :
    i.target? = some target := by
  cases h <;> rfl

/-- A sequential instruction goes on to the next line. -/
theorem Departs.eq_onward
    {vars : Variables} {i : Instruction} {d : Departure}
    (h : Departs vars i d) (hSequential : i.category = .sequential) :
    d = .onward := by
  cases h with
  | remark | assign | print | input | passed => rfl
  | stop | jump | taken => cases hSequential

namespace Machine

variable {σ : Type} [Console σ]

theorem departs_of_branch
    {fuel : Nat} {l r : Expr} {relation : Comparison} {c : Column} {target : LineNumber}
    {m m' : Machine σ} {d : Departure}
    (h : (effect fuel (.branch l relation r c target)).run.run m = some (.ok d, m')) :
    Departs m.vars (.branch l relation r c target) d := by
  rw [effect, Action.run_bind_eq_some_iff] at h
  rcases h with ⟨a, m₁, hLeft, h⟩ | ⟨e, _, h⟩
  · rw [Action.run_bind_eq_some_iff] at h
    rcases h with ⟨b, m₂, hRight, h⟩ | ⟨e, _, h⟩
    · rw [Action.run_pure, Option.some_inj, Prod.mk.injEq, Except.ok.injEq] at h
      obtain ⟨rfl, -⟩ := h
      rw [run_eval, Option.some_inj, Prod.mk.injEq] at hLeft hRight
      obtain ⟨hLeft, rfl⟩ := hLeft
      have hCompares : Compares m.vars l relation r (relation.holds a b) :=
        ⟨a, _, b, _, Prod.ext hLeft rfl, Prod.ext hRight.1 rfl, Comparison.holds_iff_relates⟩
      cases hHolds : relation.holds a b with
      | true => exact .taken (hHolds ▸ hCompares)
      | false => exact .passed (hHolds ▸ hCompares)
    · cases h
  · cases h

/-- A successful effect ends in the departure that the instruction asks for. -/
theorem departs_of_effect
    {fuel : Nat} {i : Instruction} {m m' : Machine σ} {d : Departure}
    (h : (effect fuel i).run.run m = some (.ok d, m')) :
    Departs m.vars i d := by
  cases i with
  | remark =>
      cases h
      exact .remark
  | assign e =>
      rw [effect, Action.run_bind_eq_some_iff] at h
      rcases h with ⟨v, m₁, _, h⟩ | ⟨e, _, h⟩
      · cases h
        exact .assign
      · cases h
  | print e =>
      simp only [effect, Action.run_bind_eq_some_iff] at h
      rcases h with ⟨v, m₁, _, ⟨u, m₂, _, h⟩ | ⟨e, _, h⟩⟩ | ⟨e, _, h⟩
      · cases h
        exact .print
      · cases h
      · cases h
  | input c x =>
      simp only [effect, Action.run_bind_eq_some_iff] at h
      rcases h with ⟨v, m₁, _, ⟨u, m₂, _, h⟩ | ⟨e, _, h⟩⟩ | ⟨e, _, h⟩
      · cases h
        exact .input
      · cases h
      · cases h
  | stop =>
      cases h
      exact .stop
  | jump c target =>
      cases h
      exact .jump
  | branch l relation r c target => exact departs_of_branch h

/-- An effect fails with one of its expressions, with a call that prints, or while it asks. -/
theorem cases_of_effect_error
    {fuel : Nat} {i : Instruction} {m m' : Machine σ} {e : Error}
    (h : (effect fuel i).run.run m = some (.error e, m')) :
    (∃ a ∈ i.exprs, ∃ m₁, (eval a).run.run m₁ = some (.error e, m')) ∨
    (∃ line m₁, (printLine line).run.run m₁ = some (.error e, m')) ∨
    (∃ c x, i = .input c x ∧ (readInteger fuel).run.run m = some (.error e, m')) := by
  cases i with
  | remark | stop | jump => cases h
  | assign a =>
      rw [effect, Action.run_bind_eq_some_iff] at h
      rcases h with ⟨_, _, _, hRest⟩ | ⟨_, hEval, hError⟩
      · cases hRest
      · cases hError
        exact .inl ⟨a, List.mem_cons_self, m, hEval⟩
  | print a =>
      simp only [effect, Action.run_bind_eq_some_iff] at h
      rcases h with ⟨v, m₁, _, ⟨_, _, _, hRest⟩ | ⟨_, hPrint, hError⟩⟩ | ⟨_, hEval, hError⟩
      · cases hRest
      · cases hError
        exact .inr (.inl ⟨v.render, m₁, hPrint⟩)
      · cases hError
        exact .inl ⟨a, List.mem_cons_self, m, hEval⟩
  | input c x =>
      simp only [effect, Action.run_bind_eq_some_iff] at h
      rcases h with ⟨_, _, _, ⟨_, _, _, hRest⟩ | ⟨_, hAssign, _⟩⟩ | ⟨_, hRead, hError⟩
      · cases hRest
      · cases hAssign
      · cases hError
        exact .inr (.inr ⟨c, x, rfl, hRead⟩)
  | branch l relation r c target =>
      simp only [effect, Action.run_bind_eq_some_iff] at h
      rcases h with ⟨_, m₁, _, ⟨_, _, _, hRest⟩ | ⟨_, hRight, hError⟩⟩ | ⟨_, hLeft, hError⟩
      · cases hRest
      · cases hError
        exact .inl ⟨r, List.mem_cons_of_mem l List.mem_cons_self, m₁, hRight⟩
      · cases hError
        exact .inl ⟨l, List.mem_cons_self, m, hLeft⟩

section Fuel

variable {fuel fuel' : Nat}

theorem readInteger_extends
    (hLe : fuel ≤ fuel') :
    Action.Extends (readInteger fuel : Action (Machine σ) Value) (readInteger fuel') := by
  induction fuel generalizing fuel' with
  | zero => exact Action.exhausted_extends _
  | succ fuel ih =>
      obtain ⟨fuel', rfl⟩ : ∃ n, fuel' = n + 1 := ⟨fuel' - 1, by omega⟩
      have hRest : Action.Extends (readInteger fuel) (readInteger fuel') := ih (by omega)
      refine (Action.Extends.refl _).bind fun line? => ?_
      cases line? with
      | none => exact Action.Extends.refl _
      | some line =>
          cases h : valueOfText? line with
          | some v =>
              simp only [h]
              exact Action.Extends.refl _
          | none =>
              simp only [h]
              exact (Action.Extends.refl _).bind fun _ => hRest

theorem effect_extends
    (hLe : fuel ≤ fuel') (i : Instruction) :
    Action.Extends (effect fuel i : Action (Machine σ) Departure) (effect fuel' i) := by
  cases i with
  | input c x => exact (readInteger_extends hLe).bind fun _ => Action.Extends.refl _
  | remark | assign | print | stop | jump | branch => exact Action.Extends.refl _

/-- With more steps allowed, a statement does what it did with fewer. -/
theorem execute_extends
    (hLe : fuel ≤ fuel') (listing : Listing) (i : Instruction) :
    Action.Extends (execute (σ := σ) fuel listing i) (execute fuel' listing i) := by
  rw [execute_eq, execute_eq]
  exact (effect_extends hLe i).bind fun _ => Action.Extends.refl _

end Fuel

end Machine
end IntegerBasic
