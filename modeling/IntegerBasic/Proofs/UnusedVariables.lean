import IntegerBasic.Console.Transcript
import IntegerBasic.Proofs.Correspondence
import IntegerBasic.Proofs.DefinedNames

/-!
# Variables that a program does not use

**Input.**  A name that no statement of a listing mentions, and two runs of the listing at the same
console, from variables that differ in nothing but this name.

**Invariant.**  `DifferAt x v₀ w₀` relates variables that agree on all names but `x`, which is on
either side what it was at first.  An expression in which `x` does not occur keeps it: it reads only
names on which the variables agree, and it assigns other names.  So does a statement that does not
mention `x`, and then a run keeps it by `InStep`.

**Points.**  To every point that the one run comes to, also if it never ends, the other comes as
well: the lines executed up to there are the same, and so are the cursor, the console and the other
variables, and on either side the name is what it was at first.

**Results.**
* `Instruction.respects_differAt`: what a statement that does not mention the name keeps.
* `exists_reached_of_unused`, `exists_runsTo_of_unused`: what one run does, the other does.
* `unused_variable_irrelevant`: both directions, for runs that end and runs that do not.
-/

namespace IntegerBasic

open Variables (AgreeOn)

namespace Variables

/-- The variables agree on all names but one, which has the given values. -/
structure DifferAt (x : Name) (v₀ w₀ : Option Value) (v w : Variables) : Prop where
  others : AgreeOn (fun y => y ≠ x) v w
  left : v.get? x = v₀
  right : w.get? x = w₀

/-- The assignment of a value to another name on both sides. -/
theorem DifferAt.set
    {x y : Name} {v₀ w₀ : Option Value} {v w : Variables}
    (h : DifferAt x v₀ w₀ v w) (hOther : y ≠ x) (value : Value) :
    DifferAt x v₀ w₀ (v.set y value) (w.set y value) where
  others := h.others.set y value
  left := (get?_set_of_ne v value hOther.symm).trans h.left
  right := (get?_set_of_ne w value hOther.symm).trans h.right

end Variables

open Variables (DifferAt)

/-- The name occurs in the expression, where it is read or where it is assigned. -/
def Expr.Mentions (e : Expr) (x : Name) : Prop :=
  x ∈ e.readNames ∨ x ∈ e.assignedNames

/-- The name occurs in an expression of the instruction, or a value is to be read for it. -/
def Instruction.Mentions (i : Instruction) (x : Name) : Prop :=
  (∃ e ∈ i.exprs, e.Mentions x) ∨ ∃ c, i = .input c x

namespace Expr

variable {e : Expr} {x : Name}

/-- An expression leaves alone what it does not assign. -/
theorem get?_of_eval
    {vars after : Variables} {result : Except Error Value}
    (hAssigned : x ∉ e.assignedNames) (h : e.eval.run.run vars = (result, after)) :
    after.get? x = vars.get? x := by
  refine steps_eval (R := fun v w => w.get? x = v.get? x) (fun _ => rfl)
    (fun _ _ _ h₁ h₂ => h₂.trans h₁) ?_ vars result after h
  intro y hy value v
  have hOther : x ≠ y := by
    rintro rfl
    exact hAssigned hy
  exact Variables.get?_set_of_ne v value hOther

/-- An expression that does not mention a name neither sees its value nor changes it. -/
theorem keeps_differAt
    {v₀ w₀ : Option Value}
    (hUnused : ¬ e.Mentions x) :
    Eval.Keeps (DifferAt x v₀ w₀) e.eval := by
  rw [Mentions, not_or] at hUnused
  have hReads : ∀ y ∈ e.readNames, y ≠ x := by
    rintro y hy rfl
    exact hUnused.1 hy
  intro v w result v' hDiffer h
  obtain ⟨w', h', hOthers⟩ := keeps_eval hReads v w result v' hDiffer.others h
  exact ⟨w', h', hOthers, (get?_of_eval hUnused.2 h).trans hDiffer.left,
    (get?_of_eval hUnused.2 h').trans hDiffer.right⟩

end Expr

/-- A statement that does not mention a name neither sees its value nor changes it. -/
theorem Instruction.respects_differAt
    {i : Instruction} {x : Name} {v₀ w₀ : Option Value}
    (hUnused : ¬ i.Mentions x) :
    i.Respects (DifferAt x v₀ w₀) where
  evaluates e he := Expr.keeps_differAt fun hMentions => hUnused (Or.inl ⟨e, he, hMentions⟩)
  assigns c y hInput value _ _ h := by
    refine h.set ?_ value
    rintro rfl
    exact hUnused (Or.inr ⟨c, hInput⟩)

/-- No statement of the listing mentions the name. -/
def Listing.Unused (listing : Listing) (x : Name) : Prop :=
  ∀ line ∈ listing.lines, ¬ line.2.instruction.Mentions x

namespace Machine

variable {σ : Type} {x : Name}

/-- Since they were `a₀` and `b₀`, the machines have executed the same lines; now they are the same
in all but one variable, which is on either side what it was then. -/
structure SameBut (x : Name) (a₀ b₀ a b : Machine σ) : Prop where
  executed : executedSince b₀ b = executedSince a₀ a
  cursor : b.cursor = a.cursor
  console : b.console = a.console
  others : ∀ y, y ≠ x → b.vars.get? y = a.vars.get? y
  left : a.vars.get? x = a₀.vars.get? x
  right : b.vars.get? x = b₀.vars.get? x

theorem SameBut.symm
    {a₀ b₀ a b : Machine σ}
    (h : SameBut x a₀ b₀ a b) :
    SameBut x b₀ a₀ b a :=
  ⟨h.executed.symm, h.cursor.symm, h.console.symm, fun y hy => (h.others y hy).symm, h.right,
    h.left⟩

theorem InStep.sameBut
    {a₀ b₀ a b : Machine σ}
    (h : InStep (DifferAt x (a₀.vars.get? x) (b₀.vars.get? x)) Eq a₀ b₀ a b) :
    SameBut x a₀ b₀ a b :=
  ⟨h.executedSince_eq, h.cursor, h.linked.console.symm, h.linked.vars.others, h.linked.vars.left,
    h.linked.vars.right⟩

theorem linked_of_others
    {a b : Machine σ}
    (hConsole : b.console = a.console) (hOthers : ∀ y, y ≠ x → b.vars.get? y = a.vars.get? y) :
    Linked (DifferAt x (a.vars.get? x) (b.vars.get? x)) Eq a b :=
  ⟨⟨hOthers, rfl, rfl⟩, hConsole.symm⟩

variable [Console σ]

/-- The run from the machine comes to this point. -/
def Reaches (listing : Listing) (m point : Machine σ) : Prop :=
  Relation.ReflTransGen (Turn listing) (m.started listing) point

section Unused

variable {listing : Listing} {a b : Machine σ}
  (hUnused : listing.Unused x) (hConsole : b.console = a.console)
  (hOthers : ∀ y, y ≠ x → b.vars.get? y = a.vars.get? y)

include hUnused hConsole hOthers

/-- Whatever point the one run comes to, the other comes to the same point, but for the variable. -/
theorem exists_reached_of_unused
    {point : Machine σ}
    (h : Reaches listing a point) :
    ∃ point', Reaches listing b point' ∧ SameBut x a b point point' := by
  have hRespects : ∀ line ∈ listing.lines, line.2.instruction.Respects
      (DifferAt x (a.vars.get? x) (b.vars.get? x)) :=
    fun line hLine => Instruction.respects_differAt (hUnused line hLine)
  have hStart := (linked_of_others hConsole hOthers).started listing
  obtain ⟨point', hTurns, hStep⟩ := hStart.exists_turns (Console.corresponds_eq σ) hRespects h
  exact ⟨point', hTurns, hStep.sameBut⟩

/-- Wherever the one run ends, the other ends there, too, but for the variable. -/
theorem exists_runsTo_of_unused
    {r : Except Error Unit} {a' : Machine σ}
    (h : RunsTo listing a r a') :
    ∃ b', RunsTo listing b r b' ∧ SameBut x a b a' b' := by
  obtain ⟨fuel, hRun⟩ := h
  obtain ⟨b', hRun', hStep⟩ := exists_run_of_linked (Console.corresponds_eq σ)
    (fun line hLine => Instruction.respects_differAt (hUnused line hLine))
    (linked_of_others hConsole hOthers) hRun
  exact ⟨b', ⟨fuel, hRun'⟩, hStep.sameBut⟩

end Unused

/-- A variable that no statement of a listing mentions is irrelevant: two runs that differ in
nothing else come to the same points and to the same end. -/
theorem unused_variable_irrelevant
    {listing : Listing} {x : Name} {a b : Machine σ}
    (hUnused : listing.Unused x) (hConsole : b.console = a.console)
    (hOthers : ∀ y, y ≠ x → b.vars.get? y = a.vars.get? y) :
    (∀ p, Reaches listing a p → ∃ q, Reaches listing b q ∧ SameBut x a b p q) ∧
    (∀ q, Reaches listing b q → ∃ p, Reaches listing a p ∧ SameBut x a b p q) ∧
    ((∃ r a', RunsTo listing a r a') ↔ ∃ r b', RunsTo listing b r b') ∧
    ∀ r a' r' b', RunsTo listing a r a' → RunsTo listing b r' b' → r' = r ∧ SameBut x a b a' b' := by
  have hOthers' : ∀ y, y ≠ x → a.vars.get? y = b.vars.get? y := fun y hy => (hOthers y hy).symm
  refine ⟨fun p => exists_reached_of_unused hUnused hConsole hOthers, ?_, ⟨?_, ?_⟩, ?_⟩
  · intro q hReaches
    obtain ⟨p, hReaches', hSame⟩ := exists_reached_of_unused hUnused hConsole.symm hOthers' hReaches
    exact ⟨p, hReaches', hSame.symm⟩
  · rintro ⟨r, a', hRun⟩
    obtain ⟨b', hRun', _⟩ := exists_runsTo_of_unused hUnused hConsole hOthers hRun
    exact ⟨r, b', hRun'⟩
  · rintro ⟨r, b', hRun⟩
    obtain ⟨a', hRun', _⟩ := exists_runsTo_of_unused hUnused hConsole.symm hOthers' hRun
    exact ⟨r, a', hRun'⟩
  · intro r a' r' b' hRun hRun'
    obtain ⟨b'', hRun'', hSame⟩ := exists_runsTo_of_unused hUnused hConsole hOthers hRun
    obtain ⟨rfl, rfl⟩ := hRun'.unique hRun''
    exact ⟨rfl, hSame⟩

/-- The variable `Z` is undefined in the one run and not in the other.  Both ask for `N` twice and
fail at line 20, where `Y` is undefined. -/
theorem unused_variable_irrelevant_undefined :
    ∃ (listing : Listing) (a b a' b' : Machine Transcript) (e : Error),
      listing.lines.map Prod.fst = [10, 20] ∧ a.vars.get? "Z" = none ∧
      (b.vars.get? "Z").map Value.toInt = some 7 ∧ e.code = .undefinedVariable ∧
      RunsTo listing a (.error e) a' ∧ RunsTo listing b (.error e) b' ∧ SameBut "Z" a b a' b' ∧
      executedSince a a' = [10, 20] ∧ a'.console.output = " ? x\n?REDO FROM START\n ? 3\n" := by
  let input : Statement :=
    { text := "INPUT N", instruction := .input ⟨6, 7⟩ "N", trim_text := rfl, spells := rfl }
  let print : Statement :=
    { text := "PRINT N - Y"
      instruction := .print (.binary ⟨8, 9⟩ .subtract (.var ⟨6, 7⟩ "N") (.var ⟨10, 11⟩ "Y"))
      trim_text := rfl
      spells := rfl }
  let listing : Listing := ⟨[(10, input), (20, print)], by decide⟩
  let a : Machine Transcript := idle ⟨["x", "3"], ""⟩
  let b : Machine Transcript := a.assign "Z" ⟨7, by decide⟩
  let e : Error := ((Error.of .undefinedVariable).inColumn ⟨10, 11⟩).inLine 20
  have hUnused : listing.Unused "Z" := by
    intro line hLine
    simp only [listing, List.mem_cons, List.not_mem_nil, or_false] at hLine
    rcases hLine with rfl | rfl
    · simp [Instruction.Mentions, input, Instruction.exprs]
    · simp [Instruction.Mentions, print, Instruction.exprs, Expr.Mentions, Expr.readNames,
        Expr.assignedNames]
  have hOthers : ∀ y, y ≠ "Z" → b.vars.get? y = a.vars.get? y := fun y hy =>
    Variables.get?_set_of_ne a.vars _ hy
  have hOutcome :
      ((run 8 listing).run.run a).map (fun o =>
        (errorOf? o.1, executedSince a o.2, o.2.console.output)) =
      some (some e, [10, 20], " ? x\n?REDO FROM START\n ? 3\n") := by
    decide +kernel
  obtain ⟨⟨r, a'⟩, hRun, hSeen⟩ := Option.map_eq_some_iff.mp hOutcome
  obtain ⟨hError, hSeen⟩ := Prod.mk.inj hSeen
  obtain ⟨hExecuted, hOutput⟩ := Prod.mk.inj hSeen
  obtain rfl : r = .error e := errorOf?_eq_some_iff.mp hError
  have hRun : RunsTo listing a (.error e) a' := ⟨8, hRun⟩
  have hConsole : b.console = a.console := rfl
  obtain ⟨_, _, hEnds, hSame⟩ := unused_variable_irrelevant hUnused hConsole hOthers
  obtain ⟨r, b', hRun'⟩ := hEnds.mp ⟨.error e, a', hRun⟩
  obtain ⟨rfl, hSameBut⟩ := hSame _ _ _ _ hRun hRun'
  exact ⟨listing, a, b, a', b', e, rfl, rfl, rfl, rfl, hRun, hRun', hSameBut, hExecuted, hOutput⟩

end Machine
end IntegerBasic
