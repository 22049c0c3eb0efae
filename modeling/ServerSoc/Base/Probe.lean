/-
Probes of cells, one after the other.

A probe may leave another value in its cell, and the sequence ends when one fails.  `Restores` says
that every probe up to the first that fails leaves its cell as it was.
-/
import Mathlib.Data.List.Nodup
import Mathlib.Logic.Function.Basic

namespace ServerSoc.Base

open Function List

structure Probe (K V : Type) where
  key : K
  fails : V → Bool
  leave : V → V

section

variable {K V : Type} [DecidableEq K] {ps : List (Probe K V)}

/-- `.error` is a sequence that ended early. -/
def runProbes : List (Probe K V) → (K → V) → Except (K → V) (K → V)
  | [], cells => .ok cells
  | p :: ps, cells =>
    let cells' := update cells p.key (p.leave (cells p.key))
    if p.fails (cells p.key) then .error cells' else runProbes ps cells'

def cellsOf : Except (K → V) (K → V) → K → V
  | .ok cells => cells
  | .error cells => cells

def Restores : List (Probe K V) → (K → V) → Prop
  | [], _ => True
  | p :: ps, cells =>
    p.leave (cells p.key) = cells p.key ∧ (p.fails (cells p.key) = false → Restores ps cells)

instance decidableRestores [DecidableEq V] :
    ∀ (ps : List (Probe K V)) (cells : K → V), Decidable (Restores ps cells)
  | [], _ => inferInstanceAs (Decidable True)
  | _ :: ps, cells =>
    have := decidableRestores ps cells
    inferInstanceAs (Decidable (_ ∧ (_ → _)))

theorem runProbes_append (ps qs : List (Probe K V)) (cells : K → V) :
    runProbes (ps ++ qs) cells = (runProbes ps cells).bind (runProbes qs) := by
  induction ps generalizing cells with
  | nil => rfl
  | cons p ps ih =>
    rw [cons_append, runProbes, runProbes]
    split
    · rfl
    · exact ih _

theorem runProbes_cons (p : Probe K V) (ps : List (Probe K V)) (cells : K → V) :
    runProbes (p :: ps) cells = (runProbes [p] cells).bind (runProbes ps) :=
  runProbes_append [p] ps cells

theorem cellsOf_runProbes_of_not_mem {cells : K → V} {k : K}
    (h : k ∉ ps.map Probe.key) : cellsOf (runProbes ps cells) k = cells k := by
  induction ps generalizing cells with
  | nil => rfl
  | cons p ps ih =>
    rw [map_cons, mem_cons, not_or] at h
    rw [runProbes]
    split
    · exact update_of_ne h.1 _ _
    · rw [ih h.2]
      exact update_of_ne h.1 _ _

theorem isOk_runProbes_iff (hnodup : (ps.map Probe.key).Nodup) (cells : K → V) :
    (runProbes ps cells).isOk = true ↔ ∀ p ∈ ps, p.fails (cells p.key) = false := by
  induction ps generalizing cells with
  | nil => simp [runProbes, Except.toBool]
  | cons p ps ih =>
    rw [map_cons, nodup_cons] at hnodup
    have hrest : ∀ q ∈ ps, update cells p.key (p.leave (cells p.key)) q.key = cells q.key := by
      intro q hq
      refine update_of_ne (fun heq => hnodup.1 ?_) _ _
      rw [← heq]
      exact mem_map_of_mem hq
    rw [runProbes]
    by_cases hfail : p.fails (cells p.key) = true
    · simp [hfail, Except.toBool]
    · simp only [hfail, Bool.false_eq_true, if_false, forall_mem_cons]
      rw [ih hnodup.2, true_and]
      refine forall₂_congr fun q hq => ?_
      rw [hrest q hq]

/-- The cells are as before exactly when each probe up to the first failure restores its
own. -/
theorem cellsOf_runProbes_eq_iff (hnodup : (ps.map Probe.key).Nodup)
    (cells : K → V) : cellsOf (runProbes ps cells) = cells ↔ Restores ps cells := by
  induction ps with
  | nil => exact iff_of_true rfl trivial
  | cons p ps ih =>
    rw [map_cons, nodup_cons] at hnodup
    rw [runProbes, Restores]
    by_cases hleave : p.leave (cells p.key) = cells p.key
    · rw [hleave]
      by_cases hfail : p.fails (cells p.key) = true
      · simp [hfail, cellsOf]
      · simp [hfail, ih hnodup.2]
    · refine iff_of_false (fun h => hleave ?_) (fun h => hleave h.1)
      have hcell := congrFun h p.key
      split at hcell
      · rwa [cellsOf, update_self] at hcell
      · rwa [cellsOf_runProbes_of_not_mem hnodup.1, update_self] at hcell

end

end ServerSoc.Base
