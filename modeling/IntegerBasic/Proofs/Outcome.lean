import IntegerBasic.Machine

/-!
# Outcomes of computations

Computations that may fail are written in `Except`, and those of a machine in `Action`.  Here
their outcomes are taken apart: what a sequence of two computations did is what the first did and
then what the second did.

**Results.**
* `bind_eq_ok_iff`, `bind_eq_error_iff`: how a sequence succeeds and how it fails.
* `Eval.run_bind_of_ok`, `Eval.run_bind_of_error`: the same for evaluations, with the variables.
* `Action.run_bind_eq_some_iff`: the same for actions, with the state they leave behind.
* `Eval.Steps.bind`, `Action.Steps.bind`: a sequence leads where its parts lead.
* `Action.Extends.bind`: more steps allowed for the parts are more steps allowed for the whole.
* `Action.Fueled.unique`: the outcome does not depend on how many steps are allowed.
* `Action.Total.bind`: a sequence of actions that always have an outcome has one.
-/

namespace IntegerBasic

theorem bind_eq_ok_iff
    {ε α β : Type} {x : Except ε α} {f : α → Except ε β} {b : β} :
    (x >>= f) = .ok b ↔ ∃ a, x = .ok a ∧ f a = .ok b := by
  cases x with
  | error e => simp [bind, Except.bind]
  | ok a => simp [bind, Except.bind]

theorem bind_eq_error_iff
    {ε α β : Type} {x : Except ε α} {f : α → Except ε β} {e : ε} :
    (x >>= f) = .error e ↔ x = .error e ∨ ∃ a, x = .ok a ∧ f a = .error e := by
  cases x with
  | error e => simp [bind, Except.bind]
  | ok a => simp [bind, Except.bind]

/-- Why a computation failed, if it did. -/
def errorOf? {ε α : Type} : Except ε α → Option ε
  | .error e => some e
  | .ok _ => none

theorem errorOf?_eq_some_iff
    {ε α : Type} {x : Except ε α} {e : ε} :
    errorOf? x = some e ↔ x = .error e := by
  cases x <;> simp [errorOf?]

namespace Eval

variable {α β : Type} {x : Eval α} {vars vars' : Variables}

theorem run_bind_of_ok
    {a : α}
    (h : x.run.run vars = (.ok a, vars')) (f : α → Eval β) :
    (x >>= f).run.run vars = (f a).run.run vars' := by
  rw [ExceptT.run_bind, StateT.run_bind, h]
  rfl

theorem run_bind_of_error
    {e : Error}
    (h : x.run.run vars = (.error e, vars')) (f : α → Eval β) :
    (x >>= f).run.run vars = (.error e, vars') := by
  rw [ExceptT.run_bind, StateT.run_bind, h]
  rfl

/-- The evaluation leads only from variables to related ones, also if it fails. -/
def Steps (R : Variables → Variables → Prop) (x : Eval α) : Prop :=
  ∀ v result v', x.run.run v = (result, v') → R v v'

theorem Steps.bind
    {R : Variables → Variables → Prop} {f : α → Eval β}
    (hTrans : ∀ u v w, R u v → R v w → R u w) (hx : Steps R x) (hf : ∀ a, Steps R (f a)) :
    Steps R (x >>= f) := by
  intro v result v'' h
  rcases hFirst : x.run.run v with ⟨_ | a, v'⟩
  · rw [run_bind_of_error hFirst] at h
    cases h
    exact hx v _ _ hFirst
  · rw [run_bind_of_ok hFirst] at h
    exact hTrans _ _ _ (hx v _ _ hFirst) (hf a v' _ _ h)

end Eval

namespace Action

variable {s α β : Type} {x y : Action s α} {m m' m'' : s}

@[simp] theorem run_pure
    (a : α) (m : s) :
    (pure a : Action s α).run.run m = some (.ok a, m) := by
  rfl

theorem run_adapt
    (f : Error → Error) (x : Action s α) (m : s) :
    (x.adapt f).run.run m = (x.run.run m).map fun (r, m') => (r.mapError f, m') := by
  rw [ExceptT.run_adapt, StateT.run_map]
  rfl

theorem run_bind_of_ok
    {a : α}
    (h : x.run.run m = some (.ok a, m')) (f : α → Action s β) :
    (x >>= f).run.run m = (f a).run.run m' := by
  rw [ExceptT.run_bind, StateT.run_bind, h]
  rfl

theorem run_bind_of_error
    {e : Error}
    (h : x.run.run m = some (.error e, m')) (f : α → Action s β) :
    (x >>= f).run.run m = some (.error e, m') := by
  rw [ExceptT.run_bind, StateT.run_bind, h]
  rfl

theorem run_bind_of_none
    (h : x.run.run m = none) (f : α → Action s β) :
    (x >>= f).run.run m = none := by
  rw [ExceptT.run_bind, StateT.run_bind, h]
  rfl

/-- What a sequence did is what its first part did and then, unless that failed, the second. -/
theorem run_bind_eq_some_iff
    {f : α → Action s β} {r : Except Error β} :
    (x >>= f).run.run m = some (r, m'') ↔
      (∃ a m', x.run.run m = some (.ok a, m') ∧ (f a).run.run m' = some (r, m'')) ∨
      (∃ e, x.run.run m = some (.error e, m'') ∧ r = .error e) := by
  cases hx : x.run.run m with
  | none =>
      rw [run_bind_of_none hx]
      simp
  | some outcome =>
      obtain ⟨result, m'⟩ := outcome
      cases result with
      | error e =>
          rw [run_bind_of_error hx]
          constructor
          · intro h
            cases h
            exact Or.inr ⟨e, rfl, rfl⟩
          · rintro (⟨a, m₁, hOk, _⟩ | ⟨e', hError, rfl⟩)
            · cases hOk
            · cases hError
              rfl
      | ok a =>
          rw [run_bind_of_ok hx]
          constructor
          · intro h
            exact Or.inl ⟨a, m', rfl, h⟩
          · rintro (⟨a', m₁, hOk, h⟩ | ⟨e, hError, _⟩)
            · cases hOk
              exact h
            · cases hError

/-- The action leads only from a state to a related one, also if it fails. -/
def Steps (R : s → s → Prop) (x : Action s α) : Prop :=
  ∀ m r m', x.run.run m = some (r, m') → R m m'

theorem Steps.bind
    {R : s → s → Prop} {f : α → Action s β}
    (hTrans : ∀ a b c, R a b → R b c → R a c) (hx : Steps R x) (hf : ∀ a, Steps R (f a)) :
    Steps R (x >>= f) := by
  intro m r m'' hRun
  rw [run_bind_eq_some_iff] at hRun
  rcases hRun with ⟨a, m', hFirst, hSecond⟩ | ⟨e, hFirst, _⟩
  · exact hTrans _ _ _ (hx _ _ _ hFirst) (hf a _ _ _ hSecond)
  · exact hx _ _ _ hFirst

/-- Whatever the first action does, the second does as well. -/
def Extends (x y : Action s α) : Prop :=
  ∀ m outcome, x.run.run m = some outcome → y.run.run m = some outcome

theorem Extends.refl
    (x : Action s α) :
    Extends x x :=
  fun _ _ h => h

theorem exhausted_extends
    (y : Action s α) :
    Extends exhausted y := by
  intro m outcome h
  have hNone : (exhausted : Action s α).run.run m = none := rfl
  rw [hNone] at h
  contradiction

theorem Extends.bind
    {f g : α → Action s β}
    (h : Extends x y) (hf : ∀ a, Extends (f a) (g a)) :
    Extends (x >>= f) (y >>= g) := by
  rintro m ⟨r, m''⟩ hRun
  rw [run_bind_eq_some_iff] at hRun ⊢
  rcases hRun with ⟨a, m', hx, hNext⟩ | ⟨e, hx, hr⟩
  · exact Or.inl ⟨a, m', h m _ hx, hf a m' _ hNext⟩
  · exact Or.inr ⟨e, h m _ hx, hr⟩

/-- Steps only bound the computation: with more of them it does what it did with fewer. -/
def Fueled (x : Nat → Action s α) : Prop :=
  ∀ fuel fuel', fuel ≤ fuel' → Extends (x fuel) (x fuel')

/-- However many steps are allowed, there is one outcome at most. -/
theorem Fueled.unique
    {x : Nat → Action s α} {fuel fuel' : Nat} {outcome outcome' : Except Error α × s}
    (hFueled : Fueled x) (h : (x fuel).run.run m = some outcome)
    (h' : (x fuel').run.run m = some outcome') :
    outcome = outcome' := by
  have hMore := hFueled _ _ (Nat.le_max_left fuel fuel') m outcome h
  have hMore' := hFueled _ _ (Nat.le_max_right fuel fuel') m outcome' h'
  exact Option.some_inj.mp (hMore.symm.trans hMore')

/-- The action always has an outcome. -/
def Total (x : Action s α) : Prop :=
  ∀ m, ∃ r m', x.run.run m = some (r, m')

/-- A sequence has an outcome if its first part has one and its second part always does. -/
theorem exists_run_bind
    {f : α → Action s β}
    (hx : ∃ r m', x.run.run m = some (r, m')) (hf : ∀ a, Total (f a)) :
    ∃ r m', (x >>= f).run.run m = some (r, m') := by
  obtain ⟨_ | a, m₁, hRun⟩ := hx
  · exact ⟨_, m₁, run_bind_of_error hRun f⟩
  · obtain ⟨r, m', hRest⟩ := hf a m₁
    exact ⟨r, m', (run_bind_of_ok hRun f).trans hRest⟩

theorem total_pure
    (a : α) :
    Total (pure a : Action s α) :=
  fun m => ⟨_, m, rfl⟩

theorem Total.bind
    {f : α → Action s β}
    (hx : Total x) (hf : ∀ a, Total (f a)) :
    Total (x >>= f) :=
  fun m => exists_run_bind (hx m) hf

end Action
end IntegerBasic
