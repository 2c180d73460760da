import IntegerBasic.Proofs.RunOutcome

/-!
# Names stay defined

**Argument.**  An expression leads from the variables before to those after by the assignments in it
and by nothing else.  So a reflexive and transitive relation that holds for each of these
assignments holds for the whole expression.  That every defined name stays defined is such a
relation, and it is passed on to statements and runs.

**Results.**
* `Expr.steps_eval`: what the assignments of an expression keep, the expression keeps.
* `grows_of_executes`, `grows_of_runsTo`: statements and runs leave every defined name defined.
-/

namespace IntegerBasic

namespace Expr

/-- An expression leads where its assignments lead. -/
theorem steps_eval
    {R : Variables → Variables → Prop} {e : Expr}
    (hRefl : ∀ v, R v v) (hTrans : ∀ u v w, R u v → R v w → R u w)
    (hAssign : ∀ x ∈ e.assignedNames, ∀ value v, R v (v.set x value)) :
    Eval.Steps R e.eval := by
  have hLift : ∀ outcome : Except Error Value, Eval.Steps R (liftM outcome) := by
    intro outcome v result v' h
    cases h
    exact hRefl v
  induction e with
  | integer c value => exact hLift (.ok value)
  | var c x =>
      intro v result v' h
      cases h
      exact hRefl v
  | negation c e ih => exact (ih hAssign).bind hTrans fun _ => hLift _
  | binary c op l r ihl ihr =>
      rw [assignedNames, List.forall_mem_append] at hAssign
      exact (ihl hAssign.1).bind hTrans fun _ => (ihr hAssign.2).bind hTrans fun _ => hLift _
  | assign c x e ih =>
      rw [assignedNames, List.forall_mem_append] at hAssign
      have hSet : ∀ value, Eval.Steps R (modify fun vars => vars.set x value) := by
        intro value v result v' h
        cases h
        exact hAssign.2 x List.mem_cons_self value v
      exact (ih hAssign.1).bind hTrans fun value => (hSet value).bind hTrans fun _ =>
        hLift (.ok value)

end Expr

namespace Variables

/-- Every name that is defined on the left is defined on the right. -/
def Grows (v w : Variables) : Prop :=
  ∀ x, v.contains x = true → w.contains x = true

theorem Grows.refl
    (v : Variables) :
    Grows v v :=
  fun _ h => h

theorem Grows.trans
    {u v w : Variables}
    (h : Grows u v) (h' : Grows v w) :
    Grows u w :=
  fun x hx => h' x (h x hx)

theorem grows_set
    (v : Variables) (x : Name) (value : Value) :
    Grows v (v.set x value) := by
  intro y hy
  rw [contains, get?_set]
  split
  · rfl
  · exact hy

end Variables

namespace Machine

variable {σ : Type}

open Variables (Grows grows_set)

theorem grows_of_eval
    {e : Expr} {m m' : Machine σ} {r : Except Error Value}
    (h : (eval e).run.run m = some (r, m')) :
    Grows m.vars m'.vars := by
  cases h
  exact Expr.steps_eval .refl (fun _ _ _ => .trans) (fun x _ value v => grows_set v x value)
    m.vars _ _ rfl

variable [Console σ]

theorem effectClosed_grows :
    EffectClosed fun {α} (x : Action (Machine σ) α) =>
      Action.Steps (fun m m' => Grows m.vars m'.vars) x := by
  refine effectClosed_steps (fun m => .refl m.vars) (fun _ _ _ => .trans) ?_ ?_ ?_ ?_
  · intro e m r m' h
    exact grows_of_eval h
  · intro x v m r m' h
    cases h
    exact grows_set m.vars x v
  · intro line m r m' h
    cases h
    exact .refl m.vars
  · intro prompt m r m' h
    cases h
    exact .refl m.vars

variable {listing : Listing} {m m' : Machine σ} {r : Except Error Unit}

/-- A statement leaves every defined name defined. -/
theorem grows_of_executes
    {i : Instruction}
    (h : Executes listing i m r m') :
    Grows m.vars m'.vars := by
  obtain ⟨fuel, hRun⟩ := h
  rw [run_execute_eq_some_iff] at hRun
  rcases hRun with ⟨d, m₁, hEffect, hDepart⟩ | ⟨e, hEffect, _⟩
  · obtain ⟨_, _, _, hMoved⟩ := exists_run_depart listing d m₁
    cases hDepart.symm.trans hMoved
    exact effectClosed_grows.effect fuel i m _ m₁ hEffect
  · exact effectClosed_grows.effect fuel i m _ m' hEffect

/-- A run leaves every defined name defined. -/
theorem grows_of_runsTo
    (h : RunsTo listing m r m') :
    Grows m.vars m'.vars := by
  refine h.invariant (P := fun _ a => Grows m.vars a.vars) (.refl m.vars) ?_ ?_ fun _ hGrows => hGrows
  · intro n i a b hBefore hExecutes
    have hGrows := grows_of_executes hExecutes
    exact hBefore.trans hGrows
  · intro n i a e b hBefore hExecutes
    have hGrows := grows_of_executes hExecutes
    exact hBefore.trans hGrows

end Machine
end IntegerBasic
