import IntegerBasic.Console.Transcript
import IntegerBasic.Proofs.Correspondence

/-!
# The cursor that a failed run leaves behind

A run that fails leaves its cursor on the line that failed.  That line can be edited or removed
before the next line is entered, and a statement that is executed at once even moves the cursor from
there before it is put back.

**Definition.**  `Observes s calls seen` says that the lines of `calls`, each entered at a console
of its own, are answered by the session `s`, and lists what is seen after each of them: the outcome,
the console, the listing and the variables, but not the cursor.  The console of a line can be the
one that the line before has left, or any other one.

**Argument.**  Sessions with the same listing, the same variables and equal consoles are `Alike`
whatever their cursors are, and alike sessions answer a line in the same way.

**Results.**
* `observes_of_same`: one direction, by induction on the lines.
* `observes_iff_of_same`: nothing that is seen later depends on the cursor.
-/

namespace IntegerBasic

/-- What is seen of a session after a line was entered. -/
structure Observation (σ : Type) where
  outcome : Except Error Reply
  console : σ
  listing : Listing
  value? : Name → Option Value

namespace Session

variable {σ : Type}

/-- What is seen of the session when a line was answered with this outcome. -/
def observe (outcome : Except Error Reply) (s : Session σ) : Observation σ :=
  ⟨outcome, s.machine.console, s.listing, s.machine.vars.get?⟩

/-- Alike sessions are seen to be the same. -/
theorem Alike.observe_eq
    {s t : Session σ}
    (h : Alike Eq s t) (outcome : Except Error Reply) :
    s.observe outcome = t.observe outcome := by
  have hValues : t.machine.vars.get? = s.machine.vars.get? :=
    funext fun x => h.linked.vars x trivial
  rw [observe, observe, h.listing, h.linked.console, hValues]

variable [Console σ]

/-- The session answers the lines one after the other, each at the console beside it, and this is
what is seen of it after each. -/
inductive Observes : Session σ → List (σ × String) → List (Observation σ) → Prop
  | nil (s : Session σ) :
      Observes s [] []
  | cons {s s' : Session σ} {console : σ} {line : String} {outcome : Except Error Reply}
      {calls : List (σ × String)} {seen : List (Observation σ)} :
      (s.withConsole console).Enters line outcome s' →
      Observes s' calls seen →
      Observes s ((console, line) :: calls) (s'.observe outcome :: seen)

/-- What is seen of a session is also seen of any other with the same listing and the same
variables. -/
theorem observes_of_same
    {s t : Session σ} {calls : List (σ × String)} {seen : List (Observation σ)}
    (hListing : s.listing = t.listing)
    (hValues : Variables.SameValues s.machine.vars t.machine.vars)
    (h : Observes s calls seen) :
    Observes t calls seen := by
  induction h generalizing t with
  | nil s => exact .nil t
  | @cons s s' console line outcome calls seen hEnters _ ih =>
      have hAlike : Alike Eq (s.withConsole console) (t.withConsole console) :=
        ⟨hListing, hValues, rfl⟩
      obtain ⟨t', hEnters', hAlike'⟩ := hAlike.exists_enters (Console.corresponds_eq σ) hEnters
      rw [hAlike'.observe_eq outcome]
      exact .cons hEnters' (ih hAlike'.listing hAlike'.linked.vars)

/-- Sessions with the same listing and the same variables answer the same lines at the same consoles
alike, wherever their cursors are. -/
theorem observes_iff_of_same
    {s t : Session σ}
    (hListing : s.listing = t.listing)
    (hValues : ∀ x, s.machine.vars.get? x = t.machine.vars.get? x)
    (calls : List (σ × String)) (seen : List (Observation σ)) :
    Observes s calls seen ↔ Observes t calls seen :=
  ⟨observes_of_same hListing fun x _ => (hValues x).symm,
    observes_of_same hListing.symm fun x _ => hValues x⟩

/-- A run has failed at line 20, which has been removed since; without that run the same program
and the same variables answer in the same way. -/
theorem observes_iff_of_same_removed :
    ∃ (s t : Session Transcript) (calls : List (Transcript × String))
      (seen : List (Observation Transcript)),
      s.machine.cursor = some 20 ∧ s.listing.contains 20 = false ∧ t.machine.cursor = none ∧
      s.listing = t.listing ∧ (∀ x, s.machine.vars.get? x = t.machine.vars.get? x) ∧
      calls = [(.empty, "LET X = X + 1"), (.empty, "RUN")] ∧
      Observes s calls seen ∧ Observes t calls seen ∧
      seen.map (fun o => (o.outcome.toOption, o.console.output)) =
        [(some .ready, ""), (some .ready, "8\n")] := by
  let print : Statement :=
    { text := "PRINT X", instruction := .print (.var ⟨6, 7⟩ "X"), trim_text := rfl, spells := rfl }
  let listing : Listing := ⟨[(10, print)], by decide⟩
  let vars : Variables := Variables.empty.set "X" ⟨7, by decide⟩
  let s : Session Transcript := ⟨listing, vars, some 20, .empty, #[]⟩
  let t : Session Transcript := ⟨listing, vars, none, .empty, #[]⟩
  let shown (o : Except Error Reply × Session Transcript) : Option Reply × String :=
    (o.1.toOption, o.2.machine.console.output)
  have hOutcome :
      ((enter 8 "LET X = X + 1").run.run (s.withConsole Transcript.empty)).bind (fun o =>
        ((enter 8 "RUN").run.run (o.2.withConsole Transcript.empty)).map fun o' =>
          [shown o, shown o']) =
      some [(some .ready, ""), (some .ready, "8\n")] := by
    decide +kernel
  obtain ⟨⟨_, s₁⟩, hLet, hOutcome⟩ := Option.bind_eq_some_iff.mp hOutcome
  obtain ⟨⟨_, s₂⟩, hRun, hSeen⟩ := Option.map_eq_some_iff.mp hOutcome
  have hObserves : Observes s [(.empty, "LET X = X + 1"), (.empty, "RUN")] _ :=
    .cons ⟨8, hLet⟩ (.cons ⟨8, hRun⟩ (.nil s₂))
  have hListing : s.listing = t.listing := rfl
  have hValues : ∀ x, s.machine.vars.get? x = t.machine.vars.get? x := fun _ => rfl
  have hObserves' := (observes_iff_of_same hListing hValues _ _).mp hObserves
  exact ⟨s, t, _, _, rfl, rfl, rfl, hListing, hValues, rfl, hObserves, hObserves', hSeen⟩

end Session

end IntegerBasic
