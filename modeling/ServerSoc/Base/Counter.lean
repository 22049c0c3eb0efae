/-
A search with a counter that wraps.

The loop counts up from zero below a limit and stops at the first index that fits.  When the
limit does not fit in the counter, the loop leaves only by finding an index.
-/
import Mathlib.Data.List.Basic

namespace ServerSoc.Base

open Nat List

/-- The search with a counter of `w` values from `i` on: the index found, `some none` when the
counter reaches the limit, and `none` when the fuel does not last. -/
def counterSearch (p : Nat → Bool) (w limit : Nat) : Nat → Nat → Option (Option Nat)
  | 0, _ => none
  | fuel + 1, i =>
    if i < limit then
      if p i then some (some i) else counterSearch p w limit fuel ((i + 1) % w)
    else some none

structure IsFirst (p : Nat → Bool) (k : Nat) : Prop where
  holds : p k = true
  before : ∀ j, j < k → p j = false

section

variable {p : Nat → Bool} {w limit k i fuel : Nat}

theorem IsFirst.le (h : IsFirst p k) (hi : p i = true) : k ≤ i := by
  by_contra hlt
  rw [h.before i (by omega)] at hi
  cases hi

theorem IsFirst.unique (h : IsFirst p k) (hi : IsFirst p i) : k = i :=
  Nat.le_antisymm (h.le hi.holds) (hi.le h.holds)

theorem find?_range_eq_some_iff : (range limit).find? p = some k ↔ k < limit ∧ IsFirst p k := by
  simp only [find?_range_eq_some, mem_range, Bool.not_eq_true']
  constructor
  · intro h
    exact ⟨h.2.1, h.1, h.2.2⟩
  · intro h
    exact ⟨h.2.holds, h.1, h.2.before⟩

/-- What the search finds is the first index, whether the counter has wrapped or not. -/
theorem isFirst_of_counterSearch (hw : 0 < w) (hi : i < w) (hbefore : ∀ j, j < i → p j = false)
    (h : counterSearch p w limit fuel i = some (some k)) : k < limit ∧ k < w ∧ IsFirst p k := by
  induction fuel generalizing i with
  | zero => cases h
  | succ fuel ih =>
    rw [counterSearch] at h
    split_ifs at h with hlimit hp
    · cases h
      exact ⟨hlimit, hi, hp, hbefore⟩
    · apply ih (mod_lt _ hw) _ h
      intro j hj
      by_cases hwrap : i + 1 = w
      · rw [hwrap, mod_self] at hj
        exact absurd hj (Nat.not_lt_zero j)
      · rw [mod_eq_of_lt (by omega)] at hj
        rcases Nat.lt_succ_iff_lt_or_eq.mp hj with hlt | rfl
        · exact hbefore j hlt
        · simpa using hp
    · cases h

theorem counterSearch_of_isFirst (hlimit : k < limit) (hw : k < w) (h : IsFirst p k) (n : Nat) :
    n ≤ k → counterSearch p w limit (n + 1) (k - n) = some (some k) := by
  induction n with
  | zero =>
    simp [counterSearch, hlimit, h.holds]
  | succ n ih =>
    intro hn
    have hnot : p (k - (n + 1)) = false := h.before _ (by omega)
    have hnext : (k - (n + 1) + 1) % w = k - n := by
      rw [mod_eq_of_lt (by omega)]
      omega
    rw [counterSearch, if_pos (by omega), hnot, hnext]
    exact ih (by omega)

theorem counterSearch_found_iff (hw : 0 < w) :
    (∃ fuel, counterSearch p w limit fuel 0 = some (some k)) ↔ k < limit ∧ k < w ∧ IsFirst p k := by
  constructor
  · rintro ⟨fuel, h⟩
    exact isFirst_of_counterSearch hw hw (fun j hj => absurd hj (Nat.not_lt_zero j)) h
  · intro h
    have hrun := counterSearch_of_isFirst h.1 h.2.1 h.2.2 k (Nat.le_refl k)
    rw [Nat.sub_self] at hrun
    exact ⟨k + 1, hrun⟩

theorem counterSearch_ne_none (hlimit : w ≤ limit) (hw : 0 < w) (hi : i < w) :
    counterSearch p w limit fuel i ≠ some none := by
  induction fuel generalizing i with
  | zero => simp [counterSearch]
  | succ fuel ih =>
    rw [counterSearch, if_pos (by omega)]
    split
    · simp
    · exact ih (mod_lt _ hw)

end

end ServerSoc.Base
