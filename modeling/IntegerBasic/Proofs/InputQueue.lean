import IntegerBasic.Console.Limited
import IntegerBasic.Proofs.EntryCalls

/-!
# Input from a queue

**Definitions.**  `Call.given?` is the line that a call has given.  A console `ReadsFrom` a queue if
every line that it gives is the first of the queue and nothing else changes the queue; it may fail
at any call.

**Results.**
* `ReadsFrom.queue_of_follows`: the lines that calls have given are those that are gone from the
  queue.
* `Transcript.readsFrom`, `Limited.readsFrom`: transcripts read from a queue, and so do the consoles
  that wear out.
* `Transcript.output_of_follows`, `Transcript.failure?_of_follows`: a transcript shows the calls
  made to it, and none of them fails.
-/

namespace IntegerBasic

namespace Console

/-- The line that the call has given, if it has. -/
def Call.given? : Call → Option String
  | read _ (.ok answer) => answer
  | read _ (.error _) | print .. => none

/-- The input of the console is a queue of lines.  Reading takes the first line or finds that there
is none; printing and failing leave the queue as it is. -/
structure ReadsFrom {σ : Type} [Console σ] (queue : σ → List String) : Prop where
  prints : ∀ line c, queue (printLine line c).2 = queue c
  gives : ∀ prompt c line c', readLine prompt c = (.ok (some line), c') →
    queue c = line :: queue c'
  ends : ∀ prompt c c', readLine prompt c = (.ok none, c') → queue c = [] ∧ queue c' = []
  fails : ∀ prompt c failure c', readLine prompt c = (.error failure, c') → queue c' = queue c

theorem shown_answer
    (prompt line : String) :
    shown [.read prompt (.ok (some line))] = prompt ++ line ++ "\n" := by
  rw [shown_singleton, String.append_assoc]
  rfl

theorem shown_end
    (prompt : String) :
    shown [.read prompt (.ok none)] = prompt ++ "\n" :=
  shown_singleton _

section Follows

variable {σ : Type} [Console σ] {c c' : σ} {calls : List Call} {prompt : String}
  {answer : Except String (Option String)}

/-- If calls that lead from one console to another end with a read, it was answered last. -/
theorem Follows.exists_readLine
    (h : Follows c (calls ++ [.read prompt answer]) c') :
    ∃ between, Follows c calls between ∧ readLine prompt between = (answer, c') := by
  generalize hAll : calls ++ [Call.read prompt answer] = all at h
  cases h with
  | nil => simp at hAll
  | print line hBefore =>
      obtain ⟨_, hLast⟩ := List.append_inj' hAll rfl
      cases hLast
  | @read between _ _ hBefore =>
      obtain ⟨rfl, hLast⟩ := List.append_inj' hAll rfl
      cases hLast
      exact ⟨between, hBefore, rfl⟩

variable {queue : σ → List String}

/-- What a read takes from the queue. -/
theorem ReadsFrom.queue_readLine
    (h : ReadsFrom queue) (prompt : String) (c : σ) :
    queue c =
      (Call.read prompt (readLine prompt c).1).given?.toList ++ queue (readLine prompt c).2 := by
  rcases hRead : readLine prompt c with ⟨failure | _ | line, c'⟩
  · exact (h.fails _ _ _ _ hRead).symm
  · obtain ⟨hBefore, hAfter⟩ := h.ends _ _ _ hRead
    rw [hBefore, hAfter]
    rfl
  · exact h.gives _ _ _ _ hRead

/-- The lines given by calls are those that are missing from the queue. -/
theorem ReadsFrom.queue_of_follows
    (h : ReadsFrom queue) (hFollows : Follows c calls c') :
    queue c = calls.filterMap Call.given? ++ queue c' := by
  induction hFollows with
  | nil => rfl
  | print line _ ih =>
      rw [ih, List.filterMap_append, List.append_assoc, h.prints]
      rfl
  | @read between _ prompt _ ih =>
      rw [ih, List.filterMap_append, List.append_assoc, h.queue_readLine prompt between]
      cases hGiven : (Call.read prompt (readLine prompt between).1).given? <;> simp [hGiven]

end Follows
end Console

open Console (Call Follows ReadsFrom)

namespace Transcript

variable {t t' : Transcript} {calls : List Call}

theorem readsFrom :
    ReadsFrom Transcript.input where
  prints _ _ := rfl
  gives := by
    rintro prompt ⟨_ | ⟨first, rest⟩, output⟩ line t' h
    · cases h
    · cases h
      rfl
  ends := by
    rintro prompt ⟨_ | ⟨first, rest⟩, output⟩ t' h
    · cases h
      exact ⟨rfl, rfl⟩
    · cases h
  fails := by
    rintro prompt ⟨_ | ⟨first, rest⟩, output⟩ failure t' h
    · cases h
    · cases h

theorem readLine_eq
    (prompt : String) (t : Transcript) :
    Console.readLine prompt t = (.ok t.input.head?,
      ⟨t.input.tail, t.output ++ prompt ++ t.input.head?.getD "" ++ "\n"⟩) := by
  obtain ⟨_ | ⟨line, rest⟩, output⟩ := t
  · simp [Console.readLine, Transcript.readLine]
  · simp [Console.readLine, Transcript.readLine]

/-- A transcript shows the calls made to it. -/
theorem output_of_follows
    (h : Follows t calls t') :
    t'.output = t.output ++ Console.shown calls := by
  induction h with
  | nil => exact String.append_empty.symm
  | print line _ ih =>
      rw [Console.shown_append, ← String.append_assoc, ← ih, Console.shown_singleton,
        ← String.append_assoc]
      exact (String.append_assoc).trans String.append_empty.symm
  | @read between _ prompt _ ih =>
      rw [Console.shown_append, ← String.append_assoc, ← ih, Console.shown_singleton, readLine_eq]
      cases between.input.head? <;> simp [Call.written, Call.echo, String.append_assoc]

/-- No call to a transcript fails. -/
theorem failure?_of_follows
    (h : Follows t calls t') {call : Call} (hCall : call ∈ calls) :
    call.failure? = none := by
  induction h with
  | nil => cases hCall
  | print line _ ih =>
      rcases List.mem_append.mp hCall with hBefore | hLast
      · exact ih hBefore
      · rw [List.mem_singleton.mp hLast]
        rfl
  | read prompt _ ih =>
      rcases List.mem_append.mp hCall with hBefore | hLast
      · exact ih hBefore
      · rw [List.mem_singleton.mp hLast, readLine_eq]
        rfl

end Transcript

namespace Limited

variable {σ : Type} [Console σ]

/-- A read at a console that wears out fails and changes nothing, or it is a read at the console
that it limits. -/
theorem readLine_cases
    {prompt : String} {l l' : Limited σ} {answer : Except String (Option String)}
    (h : Console.readLine prompt l = (answer, l')) :
    answer = .error readFailure ∧ l' = l ∨
      Console.readLine prompt l.console = (answer, l'.console) := by
  simp only [Console.readLine] at h
  cases hLeft : spend? l.readsLeft with
  | none =>
      simp only [hLeft, Prod.mk.injEq] at h
      obtain ⟨rfl, rfl⟩ := h
      exact .inl ⟨rfl, rfl⟩
  | some left =>
      simp only [hLeft, Prod.mk.injEq] at h
      obtain ⟨hAnswer, rfl⟩ := h
      exact .inr (Prod.ext hAnswer rfl)

/-- A console that wears out reads from the queue of the console that it limits. -/
theorem readsFrom
    {queue : σ → List String}
    (h : ReadsFrom queue) :
    ReadsFrom fun l : Limited σ => queue l.console where
  prints line l := by
    simp only [Console.printLine]
    cases spend? l.printsLeft with
    | none => rfl
    | some left => exact h.prints line l.console
  gives := by
    intro prompt l line l' hRead
    rcases readLine_cases hRead with ⟨hFailed, _⟩ | hInner
    · cases hFailed
    · exact h.gives _ _ _ _ hInner
  ends := by
    intro prompt l l' hRead
    rcases readLine_cases hRead with ⟨hFailed, _⟩ | hInner
    · cases hFailed
    · exact h.ends _ _ _ hInner
  fails := by
    intro prompt l failure l' hRead
    rcases readLine_cases hRead with ⟨_, rfl⟩ | hInner
    · rfl
    · exact h.fails _ _ _ _ hInner

end Limited

end IntegerBasic
