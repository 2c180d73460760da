import IntegerBasic.Proofs.Entering
import IntegerBasic.Proofs.ErrorOrigins

/-!
# A call that fails ends the entry

A console may fail at any call.  Nothing that is entered goes on after that: the failure becomes the
outcome of the entry, as an internal error with the reason that the console gave.

**Definition.**  `Heeds calls r` says this of the calls that a computation has made and of its
result.  `StopsAtFailure` says it of all computations of an action.

**Argument.**  It holds of a single call, and sequences inherit it, because the second part is not
begun when the first has failed.  In the other direction, whatever else goes wrong has another code.

**Results.**
* `stopsAtFailure_execute`: statements stop at a call that fails.
* `heeds_of_enters`: so does whatever is entered.
* `last_failed_of_enters`: nothing else is an internal error.
-/

namespace IntegerBasic

open Console (Call)

/-- No call failed, or the last one did, and the result is an error with its reason. -/
inductive Heeds {α : Type} : List Call → Except Error α → Prop
  | answered {calls : List Call} {r : Except Error α} :
      (∀ call ∈ calls, call.failure? = none) →
      Heeds calls r
  | failed {calls : List Call} {last : Call} {failure : String} {e : Error} :
      (∀ call ∈ calls, call.failure? = none) →
      last.failure? = some failure →
      e.code = .internalError →
      e.message = failure →
      Heeds (calls ++ [last]) (.error e)

namespace Heeds

variable {α β : Type} {calls more : List Call} {r : Except Error α}

theorem nil
    (r : Except Error α) :
    Heeds [] r :=
  .answered (List.forall_mem_nil _)

/-- The result of one call is what the console has answered. -/
theorem call
    {call : Call} {answer : Except String α}
    (h : call.failure? = errorOf? answer) :
    Heeds [call] (answer.mapError Error.ofConsole) := by
  cases answer with
  | ok a => exact .answered fun other hOther => List.mem_singleton.mp hOther ▸ h
  | error failure =>
      have hNone : ∀ other ∈ ([] : List Call), other.failure? = none := List.forall_mem_nil _
      have hFailed : Heeds ([] ++ [call]) (.error (.ofConsole failure) : Except Error α) :=
        .failed hNone h rfl rfl
      exact hFailed

theorem answered_of_ok
    {a : α}
    (h : Heeds calls (.ok a : Except Error α)) :
    ∀ call ∈ calls, call.failure? = none := by
  cases h with
  | answered hAnswered => exact hAnswered

theorem append
    (hFirst : ∀ call ∈ calls, call.failure? = none) (h : Heeds more r) :
    Heeds (calls ++ more) r := by
  cases h with
  | answered hMore => exact .answered (List.forall_mem_append.mpr ⟨hFirst, hMore⟩)
  | failed hMore hFailed hCode hMessage =>
      rw [← List.append_assoc]
      exact .failed (List.forall_mem_append.mpr ⟨hFirst, hMore⟩) hFailed hCode hMessage

theorem map
    (h : Heeds calls r) (f : α → β) :
    Heeds calls (r.map f) := by
  cases h with
  | answered hAnswered => exact .answered hAnswered
  | failed hAnswered hFailed hCode hMessage => exact .failed hAnswered hFailed hCode hMessage

theorem error
    {e : Error}
    (h : Heeds calls (.error e : Except Error α)) :
    Heeds calls (.error e : Except Error β) := by
  cases h with
  | answered hAnswered => exact .answered hAnswered
  | failed hAnswered hFailed hCode hMessage => exact .failed hAnswered hFailed hCode hMessage

theorem inLine
    {e : Error}
    (h : Heeds calls (.error e : Except Error α)) (n : LineNumber) :
    Heeds calls (.error (e.inLine n) : Except Error α) := by
  cases h with
  | answered hAnswered => exact .answered hAnswered
  | failed hAnswered hFailed hCode hMessage => exact .failed hAnswered hFailed hCode hMessage

/-- A call that failed is the last one, and the result is an internal error with its reason. -/
theorem error_of_failure
    {call : Call} {failure : String}
    (h : Heeds calls r) (hCall : call ∈ calls) (hFailed : call.failure? = some failure) :
    calls.getLast? = some call ∧
      ∃ e, r = .error e ∧ e.code = .internalError ∧ e.message = failure := by
  cases h with
  | answered hAnswered => cases (hAnswered call hCall).symm.trans hFailed
  | @failed before last _ e hAnswered hLast hCode hMessage =>
      rcases List.mem_append.mp hCall with hBefore | hHere
      · cases (hAnswered call hBefore).symm.trans hFailed
      · obtain rfl := List.mem_singleton.mp hHere
        cases hLast.symm.trans hFailed
        exact ⟨List.getLast?_concat, e, rfl, hCode, hMessage⟩

end Heeds

namespace Machine

variable {σ : Type} {listing : Listing} {m m' : Machine (Recorded σ)} {r : Except Error Unit}

/-- From the one machine to the other these calls were made, and then the result was this. -/
def Calls {α : Type} (m m' : Machine (Recorded σ)) (r : Except Error α) : Prop :=
  ∃ calls, m'.console.calls = m.console.calls ++ calls ∧ Heeds calls r

theorem calls_self
    {α : Type} (m : Machine (Recorded σ)) (r : Except Error α) :
    Calls m m r :=
  ⟨[], (List.append_nil _).symm, .nil r⟩

namespace Calls

variable {α β : Type} {m₁ : Machine (Recorded σ)}

/-- After calls that have all been answered, more calls may be made. -/
theorem trans
    {a : α} {r : Except Error β}
    (h : Calls m m₁ (.ok a : Except Error α)) (hMore : Calls m₁ m' r) :
    Calls m m' r := by
  obtain ⟨calls, hCalls, hHeeds⟩ := h
  obtain ⟨more, hCalls', hHeeds'⟩ := hMore
  exact ⟨calls ++ more, by rw [hCalls', hCalls, List.append_assoc],
    .append hHeeds.answered_of_ok hHeeds'⟩

theorem map
    {r : Except Error α}
    (h : Calls m m' r) (f : α → β) :
    Calls m m' (r.map f) := by
  obtain ⟨calls, hCalls, hHeeds⟩ := h
  exact ⟨calls, hCalls, hHeeds.map f⟩

theorem error
    {e : Error}
    (h : Calls m m' (.error e : Except Error α)) :
    Calls m m' (.error e : Except Error β) := by
  obtain ⟨calls, hCalls, hHeeds⟩ := h
  exact ⟨calls, hCalls, hHeeds.error⟩

theorem inLine
    {e : Error}
    (h : Calls m m' (.error e : Except Error α)) (n : LineNumber) :
    Calls m m' (.error (e.inLine n) : Except Error α) := by
  obtain ⟨calls, hCalls, hHeeds⟩ := h
  exact ⟨calls, hCalls, hHeeds.inLine n⟩

end Calls

/-- The action stops at a call that fails. -/
def StopsAtFailure {α : Type} (x : Action (Machine (Recorded σ)) α) : Prop :=
  ∀ m r m', x.run.run m = some (r, m') → Calls m m' r

section StopsAtFailure

variable {α β : Type}

/-- What makes no calls does not have to stop. -/
theorem stopsAtFailure_of_keeps
    {x : Action (Machine (Recorded σ)) α}
    (h : ∀ m r m', x.run.run m = some (r, m') → m'.console.calls = m.console.calls) :
    StopsAtFailure x := by
  intro m r m' hRun
  exact ⟨[], by rw [h m r m' hRun, List.append_nil], .nil r⟩

theorem StopsAtFailure.bind
    {x : Action (Machine (Recorded σ)) α} {f : α → Action (Machine (Recorded σ)) β}
    (hx : StopsAtFailure x) (hf : ∀ a, StopsAtFailure (f a)) :
    StopsAtFailure (x >>= f) := by
  intro m r m'' hRun
  rw [Action.run_bind_eq_some_iff] at hRun
  rcases hRun with ⟨a, m', hFirst, hSecond⟩ | ⟨e, hFirst, rfl⟩
  · exact (hx m _ m' hFirst).trans (hf a m' r m'' hSecond)
  · exact (hx m _ m'' hFirst).error

theorem stopsAtFailure_useConsole
    {use : Recorded σ → Except String α × Recorded σ} (call : Except String α → Call)
    (hCalls : ∀ d, (use d).2.calls = d.calls ++ [call (use d).1])
    (hFailure : ∀ answer, (call answer).failure? = errorOf? answer) :
    StopsAtFailure (useConsole use) := by
  intro m r m' hRun
  rw [run_useConsole, Option.some_inj, Prod.mk.injEq] at hRun
  obtain ⟨rfl, rfl⟩ := hRun
  exact ⟨_, hCalls m.console, .call (hFailure _)⟩

variable [Console σ]

theorem effectClosed_stopsAtFailure :
    EffectClosed fun {α} (x : Action (Machine (Recorded σ)) α) => StopsAtFailure x where
  pure a := stopsAtFailure_of_keeps fun m r m' h => by
    cases h
    rfl
  throw e := stopsAtFailure_of_keeps fun m r m' h => by
    cases h
    rfl
  exhausted := stopsAtFailure_of_keeps fun m r m' h => by
    cases h
  eval e := stopsAtFailure_of_keeps fun m r m' h => by
    cases h
    rfl
  assign x v := stopsAtFailure_of_keeps fun m r m' h => by
    cases h
    rfl
  printLine line := stopsAtFailure_useConsole (.print line) (fun _ => rfl) fun answer => by
    cases answer <;> rfl
  readLine prompt := stopsAtFailure_useConsole (.read prompt) (fun _ => rfl) fun answer => by
    cases answer <;> rfl
  bind := StopsAtFailure.bind

/-- Statements stop at a call that fails. -/
theorem stopsAtFailure_execute
    (fuel : Nat) (listing : Listing) (i : Instruction) :
    StopsAtFailure (execute (σ := Recorded σ) fuel listing i) := by
  rw [execute_eq]
  refine (effectClosed_stopsAtFailure.effect fuel i).bind fun d => ?_
  refine stopsAtFailure_of_keeps fun m r m' h => ?_
  obtain ⟨_, _, _, hRun⟩ := exists_run_depart listing d m
  cases h.symm.trans hRun
  rfl

end StopsAtFailure

variable [Console σ]

theorem calls_of_executes
    {i : Instruction}
    (h : Executes listing i m r m') :
    Calls m m' r := by
  obtain ⟨fuel, hRun⟩ := h
  exact stopsAtFailure_execute fuel listing i m r m' hRun

/-- A run stops at a call that fails. -/
theorem calls_of_runsTo
    (h : RunsTo listing m r m') :
    Calls m m' r := by
  -- All calls of the statements that have succeeded were answered.
  refine h.invariant (P := fun r a => Calls m a r) (calls_self m _) ?_ ?_ fun _ hCalls => hCalls
  · intro n i a b hBefore hExecutes
    have hCalls := calls_of_executes hExecutes
    exact hBefore.trans hCalls
  · intro n i a e b hBefore hExecutes
    have hCalls := calls_of_executes hExecutes
    exact hBefore.trans (hCalls.inLine n)

theorem calls_of_executesDirectly
    {text : String}
    (h : ExecutesDirectly listing text m r m') :
    Calls m m' r := by
  rcases h.cases with ⟨_, _, _, rfl⟩ | ⟨_, _, _, rfl⟩ | ⟨_, _, _, hExecutes, rfl⟩
  · exact calls_self _ r
  · exact calls_self _ r
  · have hCalls := calls_of_executes hExecutes
    exact hCalls

end Machine

namespace Session

variable {σ : Type} [Console σ] {s s' : Session (Recorded σ)} {c : Command} {line : String}
  {outcome : Except Error Reply}

open Machine (Calls)

section Printing

/-- Printing stops at a call that fails, and fails only with the last call. -/
theorem calls_of_printLines
    (lines : List String) (d : Recorded σ) :
    ∃ calls, (Console.printLines lines d).2.calls = d.calls ++ calls ∧
      Heeds calls ((Console.printLines lines d).1.mapError Error.ofConsole) ∧
      ∀ failure, (Console.printLines lines d).1 = .error failure →
        ∃ call, calls.getLast? = some call ∧ call.failure? = some failure := by
  induction lines generalizing d with
  | nil => exact ⟨[], (List.append_nil _).symm, .nil _, fun failure h => by cases h⟩
  | cons line lines ih =>
      rw [Console.printLines]
      have hCalls : (Console.printLine line d).2.calls =
          d.calls ++ [.print line (Console.printLine line d).1] := rfl
      cases hPrint : Console.printLine line d with
      | mk result d₁ =>
          rw [hPrint] at hCalls
          cases result with
          | error failure =>
              refine ⟨_, hCalls, ?_, ?_⟩
              · have hHeeds : Heeds [.print line (.error failure)]
                    ((.error failure : Except String Unit).mapError Error.ofConsole) := .call rfl
                exact hHeeds
              · rintro _ ⟨⟩
                exact ⟨_, rfl, rfl⟩
          | ok u =>
              obtain ⟨more, hMore, hHeeds, hFailed⟩ := ih d₁
              refine ⟨.print line (.ok u) :: more, ?_, ?_, ?_⟩
              · have hCalls : d₁.calls = d.calls ++ [.print line (.ok u)] := hCalls
                change (Console.printLines lines d₁).2.calls = _
                rw [hMore, hCalls, List.append_assoc]
                rfl
              · have hFirst : ∀ call ∈ [Call.print line (.ok u)], call.failure? = none :=
                  fun call hCall => List.mem_singleton.mp hCall ▸ rfl
                have hAll := Heeds.append hFirst hHeeds
                exact hAll
              · intro failure hFailure
                obtain ⟨call, hLast, hCall⟩ := hFailed failure hFailure
                exact ⟨call, by rw [List.getLast?_cons, hLast]; rfl, hCall⟩

theorem calls_of_printing
    (lines : List String) (s : Session (Recorded σ)) :
    Calls s.machine (s.printing lines).2.machine (s.printing lines).1 := by
  obtain ⟨calls, hCalls, hHeeds, _⟩ := calls_of_printLines lines s.machine.console
  exact ⟨calls, hCalls, hHeeds.map _⟩

end Printing

theorem Answers.calls
    (h : Answers s c outcome s') :
    Calls s.machine s'.machine outcome := by
  cases h with
  | run hRun => exact (Machine.calls_of_runsTo hRun).map _
  | direct hDirect => exact (Machine.calls_of_executesDirectly hDirect).map _
  | list => exact calls_of_printing _ s
  | help => exact calls_of_printing _ s
  | remove n =>
      rw [removeLine]
      split <;> exact Machine.calls_self _ _
  | nothing | quit | clear | insert | refused => exact Machine.calls_self _ _

/-- Whatever is entered stops at a call that fails. -/
theorem heeds_of_enters
    (h : s.Enters line outcome s') :
    Calls s.machine s'.machine outcome := by
  rcases cases_of_enters h with ⟨_, _, _, rfl⟩ | ⟨_, _, hAnswers⟩
  · exact Machine.calls_self _ _
  · exact hAnswers.calls

section InternalErrors

variable {e : Error}

theorem last_failed_of_executesDirectly
    {listing : Listing} {text : String} {m m' : Machine (Recorded σ)}
    (h : Machine.ExecutesDirectly listing text m (.error e) m') (hCode : e.code = .internalError) :
    ∃ call, m'.console.calls.getLast? = some call ∧ call.failure? = some e.message := by
  rcases h.cases with ⟨_, hParse, hError, _⟩ | ⟨_, _, hError, _⟩ | ⟨_, m₁, _, hExecutes, rfl⟩
  · cases hError
    cases (Statement.refuses_parse text e hParse).code_eq.symm.trans hCode
  · cases hError
    cases hCode
  · exact (Machine.fault_of_executes hExecutes).call_failed hCode

theorem last_failed_of_printing
    {lines : List String}
    (h : (s.printing lines).1 = .error e) :
    ∃ call, (s.printing lines).2.machine.console.calls.getLast? = some call ∧
      call.failure? = some e.message := by
  obtain ⟨calls, hCalls, _, hFailed⟩ := calls_of_printLines lines s.machine.console
  cases hPrint : (Console.printLines lines s.machine.console).1 with
  | ok u =>
      rw [printing] at h
      simp [hPrint, Except.mapError, Except.map] at h
  | error failure =>
      have hMessage : e.message = failure := by
        rw [printing] at h
        simp only [hPrint, Except.mapError, Except.map, Except.error.injEq] at h
        rw [← h]
        rfl
      obtain ⟨call, hLast, hCall⟩ := hFailed failure hPrint
      refine ⟨call, ?_, hMessage ▸ hCall⟩
      change (Console.printLines lines s.machine.console).2.calls.getLast? = some call
      rw [hCalls, List.getLast?_append, hLast]
      rfl

/-- Only a call that failed is an internal error. -/
theorem last_failed_of_enters
    (h : s.Enters line (.error e) s') (hCode : e.code = .internalError) :
    ∃ call, s'.machine.console.calls.getLast? = some call ∧ call.failure? = some e.message := by
  rcases cases_of_enters h with ⟨e', hCommand, hError, _⟩ | ⟨c, _, hAnswers⟩
  · cases hError
    have hRefused := Line.refuses_parse line e (Command.parse_eq_error_iff.mp hCommand)
    cases hRefused.code_eq.symm.trans hCode
  · generalize hOutcome : Except.error e = outcome at hAnswers
    cases hAnswers with
    | nothing | quit | clear | remove | insert => cases hOutcome
    | run hRun =>
        rw [eq_error_of_map hOutcome.symm] at hRun
        obtain ⟨_, _, e', _, _, rfl, hFault⟩ := Machine.exists_fault_of_runsTo hRun
        exact hFault.call_failed hCode
    | direct hDirect =>
        rw [eq_error_of_map hOutcome.symm] at hDirect
        exact last_failed_of_executesDirectly hDirect hCode
    | list => exact last_failed_of_printing hOutcome.symm
    | help => exact last_failed_of_printing hOutcome.symm
    | @refused _ _ e' hParse =>
        cases hOutcome
        cases (Statement.refuses_parse _ e' hParse).code_eq.symm.trans hCode

end InternalErrors

end Session
end IntegerBasic
