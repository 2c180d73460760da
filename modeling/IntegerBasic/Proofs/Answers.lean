import IntegerBasic.Proofs.CommandLines
import IntegerBasic.Proofs.RunOutcome
import IntegerBasic.Proofs.SessionLog

/-!
# The answer to a line

**Definition.**  `Answers s c outcome s'` lists everything that a command can come to in a session:
one rule for each command, and two for a line that is to be stored.

**Results.**
* `answers_of_perform`: nothing else comes of a command.
* `cases_of_enters`, `answers_of_enters`: what comes of a line.
-/

namespace IntegerBasic

namespace Session

variable {σ : Type} [Console σ]

/-- In the session, the command is answered with this outcome and leaves this session. -/
inductive Answers (s : Session σ) : Command → Except Error Reply → Session σ → Prop
  | nothing :
      Answers s .nothing (.ok .ready) s
  | quit :
      Answers s .quit (.ok .quit) s
  | run {r : Except Error Unit} {m' : Machine σ} :
      Machine.RunsTo s.listing s.machine r m' →
      Answers s .run (r.map fun _ => .ready) { s with machine := m' }
  | direct {text : String} {r : Except Error Unit} {m' : Machine σ} :
      Machine.ExecutesDirectly s.listing text s.machine r m' →
      Answers s (.direct text) (r.map fun _ => .ready) { s with machine := m' }
  | list :
      Answers s .list (s.printing (s.list.map listed)).1 (s.printing (s.list.map listed)).2
  | help :
      Answers s .help (s.printing Command.helpLines).1 (s.printing Command.helpLines).2
  | clear :
      Answers s .clear (.ok .ready) s.clear
  | remove (n : LineNumber) :
      Answers s (.remove n) (.ok .ready) (s.removeLine n)
  | insert {n : LineNumber} {text : String} {statement : Statement} :
      Statement.parse text = .ok statement →
      Answers s (.insert n text) (.ok .ready)
        ({ s with listing := s.listing.insert n statement }.note
          (.inserted n (s.listing.contains n)))
  | refused {n : LineNumber} {text : String} {e : Error} :
      Statement.parse text = .error e →
      Answers s (.insert n text) (.error (e.inLine n)) s

/-- Nothing else comes of a command. -/
theorem answers_of_perform
    {fuel : Nat} {c : Command} {s s' : Session σ} {outcome : Except Error Reply}
    (h : (perform fuel c).run.run s = some (outcome, s')) :
    Answers s c outcome s' := by
  cases c with
  | nothing =>
      cases h
      exact .nothing
  | quit =>
      cases h
      exact .quit
  | run =>
      rw [run_perform_run, Option.map_eq_some_iff] at h
      obtain ⟨_, hRun, h⟩ := h
      cases h
      exact .run ⟨fuel, hRun⟩
  | direct text =>
      rw [run_perform_direct, Option.map_eq_some_iff] at h
      obtain ⟨_, hRun, h⟩ := h
      cases h
      exact .direct ⟨fuel, hRun⟩
  | list =>
      rw [run_perform_list] at h
      cases h
      exact .list
  | help =>
      rw [run_perform_help] at h
      cases h
      exact .help
  | clear =>
      cases h
      exact .clear
  | remove n =>
      cases h
      exact .remove n
  | insert n text =>
      cases hParse : Statement.parse text with
      | error e =>
          rw [run_perform_insert_of_error fuel s hParse] at h
          cases h
          exact .refused hParse
      | ok statement =>
          rw [run_perform_insert_of_ok fuel s hParse] at h
          cases h
          exact .insert hParse

/-- A line is refused because of its number, or it is answered like the command it asks for. -/
theorem cases_of_enters
    {s s' : Session σ} {line : String} {outcome : Except Error Reply}
    (h : s.Enters line outcome s') :
    (∃ e, Command.parse line = .error e ∧ outcome = .error e ∧ s' = s) ∨
      ∃ c, Command.parse line = .ok c ∧ Answers s c outcome s' := by
  obtain ⟨fuel, hRun⟩ := h
  cases hCommand : Command.parse line with
  | error e =>
      rw [run_enter_of_error fuel s hCommand] at hRun
      cases hRun
      exact Or.inl ⟨e, rfl, rfl, rfl⟩
  | ok c =>
      rw [run_enter_of_ok fuel s hCommand] at hRun
      exact Or.inr ⟨c, rfl, answers_of_perform hRun⟩

theorem answers_of_enters
    {s s' : Session σ} {line : String} {outcome : Except Error Reply} {c : Command}
    (h : s.Enters line outcome s') (hCommand : Command.parse line = .ok c) :
    Answers s c outcome s' := by
  rcases cases_of_enters h with ⟨e, hError, _⟩ | ⟨c', hCommand', hAnswers⟩
  · cases hError.symm.trans hCommand
  · cases hCommand'.symm.trans hCommand
    exact hAnswers

end Session
end IntegerBasic
