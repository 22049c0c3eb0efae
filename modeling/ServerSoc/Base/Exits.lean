/-
Computations that can end early, and that need not end.

`Ends E Q x` says that `x`, if it ends, ends early with `E` or normally with `Q`.
-/
import Mathlib.Logic.Basic

namespace ServerSoc.Base

/-- `none` is a computation that did not end. -/
abbrev Exits (ε α : Type) := ExceptT ε Option α

/-- A result that is early is in `E`, and any other in `Q`. -/
def EndsIn {ε α : Type} (E : ε → Prop) (Q : α → Prop) : Except ε α → Prop
  | .error e => E e
  | .ok a => Q a

def Ends {ε α : Type} (E : ε → Prop) (Q : α → Prop) (x : Exits ε α) : Prop :=
  ∀ r, x.run = some r → EndsIn E Q r

section

variable {ε α β : Type} {E : ε → Prop} {Q : α → Prop} {R : β → Prop} {x : Exits ε α}

theorem Ends.pure {a : α} (h : Q a) : Ends E Q (Pure.pure a : Exits ε α) := by
  intro r hr
  cases hr
  exact h

theorem Ends.throw {e : ε} (h : E e) : Ends E Q (MonadExcept.throw e : Exits ε α) := by
  intro r hr
  cases hr
  exact h

theorem Ends.bind {f : α → Exits ε β} (hx : Ends E Q x) (hf : ∀ a, Q a → Ends E R (f a)) :
    Ends E R (x >>= f) := by
  intro r hr
  rw [ExceptT.run_bind] at hr
  cases hrun : x.run with
  | none =>
    rw [hrun] at hr
    cases hr
  | some y =>
    rw [hrun] at hr
    have hy := hx y hrun
    cases y with
    | error e =>
      cases hr
      exact hy
    | ok a => exact hf a hy r hr

theorem Ends.ite {c : Prop} [Decidable c] {y : Exits ε α} (hx : c → Ends E Q x)
    (hy : ¬ c → Ends E Q y) : Ends E Q (if c then x else y) := by
  by_cases hc : c
  · rw [if_pos hc]
    exact hx hc
  · rw [if_neg hc]
    exact hy hc

theorem Ends.lift {x : Option α} (h : ∀ a, x = some a → Q a) :
    Ends E Q (ExceptT.lift x : Exits ε α) := by
  intro r hr
  cases x with
  | none => cases hr
  | some a =>
    cases hr
    exact h a rfl

end

end ServerSoc.Base
