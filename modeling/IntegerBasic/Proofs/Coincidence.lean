import IntegerBasic.Proofs.Outcome
import IntegerBasic.Expr.Eval

/-!
# Expressions and the variables they read

An expression is evaluated twice, from two states of the variables that agree on some names.

**Argument.**  `Keeps R x` says that the evaluation `x`, from variables that `R` relates, has the
same value or the same fault on both sides and leaves related variables.  A sequence keeps what its
parts keep, and so an expression keeps an agreement on the names that it reads, by induction on the
tree.

**Results.**
* `AgreeOn.set`: assigning the same value on both sides keeps the agreement.
* `keeps_eval`: so does an expression that reads only names on which the variables agree.
-/

namespace IntegerBasic

namespace Variables

/-- At each name with the property, the variables have the same value or both have none. -/
def AgreeOn (p : Name → Prop) (v w : Variables) : Prop :=
  ∀ x, p x → w.get? x = v.get? x

/-- All names have the same values, and the same names have none. -/
abbrev SameValues (v w : Variables) : Prop :=
  AgreeOn (fun _ => True) v w

section Agreement

variable {p : Name → Prop} {v w : Variables} {x : Name}

theorem AgreeOn.refl
    (p : Name → Prop) (v : Variables) :
    AgreeOn p v v :=
  fun _ _ => rfl

theorem AgreeOn.fetch_eq
    (h : AgreeOn p v w) (hx : p x) :
    w.fetch x = v.fetch x := by
  rw [fetch, fetch, h x hx]

theorem AgreeOn.set
    (h : AgreeOn p v w) (x : Name) (value : Value) :
    AgreeOn p (v.set x value) (w.set x value) := by
  intro y hy
  rw [get?_set, get?_set, h y hy]

end Agreement

end Variables

open Variables (AgreeOn)

namespace Eval

variable {α β : Type} {R : Variables → Variables → Prop}

/-- From related variables, the evaluation comes to the same result and leaves related
variables. -/
def Keeps (R : Variables → Variables → Prop) (x : Eval α) : Prop :=
  ∀ v w result v', R v w → x.run.run v = (result, v') →
    ∃ w', x.run.run w = (result, w') ∧ R v' w'

theorem keeps_liftExcept
    (outcome : Except Error α) :
    Keeps R (liftM outcome : Eval α) := by
  intro v w result v' hRelated h
  cases h
  exact ⟨w, rfl, hRelated⟩

theorem Keeps.bind
    {x : Eval α} {f : α → Eval β}
    (hx : Keeps R x) (hf : ∀ a, Keeps R (f a)) :
    Keeps R (x >>= f) := by
  intro v w result v'' hRelated h
  rcases hFirst : x.run.run v with ⟨first, v'⟩
  obtain ⟨w', hFirst', hRelated'⟩ := hx v w first v' hRelated hFirst
  cases first with
  | error e =>
      rw [run_bind_of_error hFirst] at h
      cases h
      exact ⟨w', run_bind_of_error hFirst' f, hRelated'⟩
  | ok a =>
      rw [run_bind_of_ok hFirst] at h
      rw [run_bind_of_ok hFirst']
      exact hf a v' w' result v'' hRelated' h

theorem keeps_set
    {p : Name → Prop} (x : Name) (value : Value) :
    Keeps (AgreeOn p) (modify fun vars => vars.set x value : Eval PUnit) := by
  intro v w result v' hAgree h
  cases h
  exact ⟨w.set x value, rfl, hAgree.set x value⟩

end Eval

namespace Expr

open Eval (Keeps)

theorem keeps_var
    {p : Name → Prop} {x : Name}
    (hx : p x) (c : Column) :
    Keeps (AgreeOn p) (var c x).eval := by
  intro v w result v' hAgree h
  cases h
  exact ⟨w, by rw [← hAgree.fetch_eq hx]; rfl, hAgree⟩

/-- An expression sees no other variables than those it reads. -/
theorem keeps_eval
    {p : Name → Prop} {e : Expr}
    (hReads : ∀ x ∈ e.readNames, p x) :
    Keeps (AgreeOn p) e.eval := by
  induction e with
  | integer c value => exact Eval.keeps_liftExcept (.ok value)
  | var c x => exact keeps_var (hReads x List.mem_cons_self) c
  | negation c e ih => exact (ih hReads).bind fun _ => Eval.keeps_liftExcept _
  | binary c op l r ihl ihr =>
      rw [readNames, List.forall_mem_append] at hReads
      exact (ihl hReads.1).bind fun _ => (ihr hReads.2).bind fun _ => Eval.keeps_liftExcept _
  | assign c x e ih =>
      exact (ih hReads).bind fun value => (Eval.keeps_set x value).bind fun _ =>
        Eval.keeps_liftExcept (.ok value)

end Expr

end IntegerBasic
