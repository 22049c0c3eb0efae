/-
Runs of a labelled transition system.

`step s l` is the state after the action `l`, or `none` where the action cannot happen.
`Reaches step ok s0 s` says that `s` is reached from `s0` by actions that all meet `ok`,
a condition on the action and the state it happens in.
-/
import Mathlib.Data.List.Basic

namespace ServerSoc.Base

variable {S L : Type}

inductive Reaches (step : S → L → Option S) (ok : S → L → Prop) (s0 : S) : S → Prop
  | start : Reaches step ok s0 s0
  | tail {s s' : S} {l : L} : Reaches step ok s0 s → ok s l → step s l = some s' →
      Reaches step ok s0 s'

variable {step : S → L → Option S} {ok : S → L → Prop} {s0 s1 s : S}

/-- What holds at the start and is kept by every allowed action holds in every state
reached. -/
theorem Reaches.invariant {Inv : S → Prop} (h : Reaches step ok s0 s) (h0 : Inv s0)
    (hstep : ∀ s l s', Inv s → ok s l → step s l = some s' → Inv s') : Inv s := by
  induction h with
  | start => exact h0
  | tail _ hok hs ih => exact hstep _ _ _ ih hok hs

theorem Reaches.head {l : L} (hok : ok s0 l) (hs : step s0 l = some s1) (h : Reaches step ok s1 s) :
    Reaches step ok s0 s := by
  induction h with
  | start => exact .tail .start hok hs
  | tail _ hok' hs' ih => exact .tail ih hok' hs'

theorem Reaches.trans (h : Reaches step ok s0 s1) (h' : Reaches step ok s1 s) :
    Reaches step ok s0 s := by
  induction h' with
  | start => exact h
  | tail _ hok hs ih => exact .tail ih hok hs

theorem Reaches.mono {ok' : S → L → Prop} (h : Reaches step ok s0 s)
    (hok : ∀ s l, ok s l → ok' s l) : Reaches step ok' s0 s := by
  induction h with
  | start => exact .start
  | tail _ hl hs ih => exact .tail ih (hok _ _ hl) hs

/-- The run of a list of actions, cut off where one is not allowed. -/
def runList (step : S → L → Option S) (ok : S → L → Prop) [∀ s l, Decidable (ok s l)] :
    S → List L → Option S
  | s, [] => some s
  | s, l :: ls =>
    if ok s l then
      match step s l with
      | none => none
      | some s' => runList step ok s' ls
    else none

theorem reaches_of_runList [∀ s l, Decidable (ok s l)] {s' : S} {ls : List L}
    (h : runList step ok s ls = some s') : Reaches step ok s s' := by
  induction ls generalizing s with
  | nil =>
    rw [runList, Option.some_inj] at h
    rw [← h]
    exact .start
  | cons l ls ih =>
    rw [runList] at h
    split at h
    · rename_i hok
      split at h
      · cases h
      · rename_i s1 hs
        exact .head hok hs (ih h)
    · cases h

end ServerSoc.Base
