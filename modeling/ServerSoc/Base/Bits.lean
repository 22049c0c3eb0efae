/-
Bit fields of machine words, and registers that mix control bits with status bits.

A mask with a shift selects a field, as a quotient and a remainder, and fields that do
not overlap add up when they are joined.  A word that is joined from fields gives each
of them back.
-/
import Mathlib.Data.Nat.Bitwise

namespace ServerSoc.Base

open Nat

theorem and_mask (x w k : Nat) : x &&& ((2 ^ w - 1) <<< k) = (x / 2 ^ k % 2 ^ w) <<< k := by
  refine eq_of_testBit_eq fun i => ?_
  simp only [testBit_shiftLeft,
    testBit_mod_two_pow, testBit_div_two_pow]
  by_cases hi : k ≤ i
  · simp [hi, Bool.and_comm]
  · simp [hi]

theorem shiftLeft_or {a b k : Nat} (h : b < 2 ^ k) : a <<< k ||| b = a * 2 ^ k + b := by
  rw [← shiftLeft_add_eq_or_of_lt h, shiftLeft_eq]

theorem and_low (x w : Nat) : x &&& (2 ^ w - 1) = x % 2 ^ w := and_two_pow_sub_one_eq_mod x w

theorem shiftRight_and (x w k : Nat) : (x >>> k) &&& (2 ^ w - 1) = x / 2 ^ k % 2 ^ w := by
  rw [and_low, shiftRight_eq_div_pow]

theorem and_not_low {x k : Nat} (hk : k ≤ 64) (hx : x < 2 ^ 64) :
    x &&& (2 ^ 64 - 2 ^ k) = x / 2 ^ k * 2 ^ k := by
  have hmask : 2 ^ 64 - 2 ^ k = (2 ^ (64 - k) - 1) <<< k := by
    rw [shiftLeft_eq, Nat.sub_mul, ← pow_add, Nat.sub_add_cancel hk, one_mul]
  have hlt : x / 2 ^ k < 2 ^ (64 - k) := by
    rw [Nat.div_lt_iff_lt_mul (Nat.two_pow_pos _), ← pow_add, Nat.sub_add_cancel hk]
    exact hx
  rw [hmask, and_mask, mod_eq_of_lt hlt, shiftLeft_eq]

/-! ## Words joined from fields -/

/-- The `w` bits from bit `k` on. -/
def getField (w k x : Nat) : Nat := (x >>> k) &&& (2 ^ w - 1)

/-- The low `w` bits of `v`, put at bit `k`. -/
def setField (w k v : Nat) : Nat := (v &&& (2 ^ w - 1)) <<< k

theorem getField_eq (w k x : Nat) : getField w k x = x / 2 ^ k % 2 ^ w := shiftRight_and x w k

theorem setField_eq (w k v : Nat) : setField w k v = v % 2 ^ w * 2 ^ k := by
  rw [setField, and_low, shiftLeft_eq]

theorem testBit_getField (w k x i : Nat) :
    (getField w k x).testBit i = (decide (i < w) && x.testBit (k + i)) := by
  rw [getField, testBit_and, testBit_shiftRight, testBit_two_pow_sub_one,
    Bool.and_comm]

theorem testBit_setField (w k v i : Nat) :
    (setField w k v).testBit i = (decide (k ≤ i) && decide (i - k < w) && v.testBit (i - k)) := by
  rw [setField, testBit_shiftLeft, testBit_and, testBit_two_pow_sub_one,
    Bool.and_comm (v.testBit (i - k)), Bool.and_assoc]

theorem getField_congr {w k x y : Nat} (h : ∀ i < w, x.testBit (k + i) = y.testBit (k + i)) :
    getField w k x = getField w k y := by
  refine eq_of_testBit_eq fun i => ?_
  rw [testBit_getField, testBit_getField]
  by_cases hi : i < w
  · rw [h i hi]
  · simp [hi]

@[simp] theorem getField_or (w k x y : Nat) :
    getField w k (x ||| y) = getField w k x ||| getField w k y := by
  refine eq_of_testBit_eq fun i => ?_
  simp only [testBit_getField, testBit_or, Bool.and_or_distrib_left]

@[simp] theorem getField_setField_of_disjoint {w k w' k' : Nat} (h : k + w ≤ k' ∨ k' + w' ≤ k)
    (v : Nat) : getField w k (setField w' k' v) = 0 := by
  refine eq_of_testBit_eq fun i => ?_
  rw [testBit_getField, testBit_setField]
  by_cases hi : i < w
  · rcases h with h | h
    · have hlt : ¬ k' ≤ k + i := by omega
      simp [hlt]
    · have hge : ¬ k + i - k' < w' := by omega
      simp [hge]
  · simp [hi]

@[simp] theorem getField_setField_inside {w i w' k : Nat} (h1 : k ≤ i) (h2 : i + w ≤ k + w')
    (v : Nat) : getField w i (setField w' k v) = getField w (i - k) v := by
  refine eq_of_testBit_eq fun j => ?_
  rw [testBit_getField, testBit_setField, testBit_getField]
  by_cases hj : j < w
  · have hle : k ≤ i + j := by omega
    have hsub : i + j - k = i - k + j := by omega
    have hlt : i - k + j < w' := by omega
    simp [hle, hsub, hlt]
  · simp [hj]

@[simp] theorem getField_zero (w v : Nat) : getField w 0 v = v % 2 ^ w := by
  rw [getField_eq, pow_zero, Nat.div_one]

theorem and_mask_eq_setField (x w k : Nat) :
    x &&& ((2 ^ w - 1) <<< k) = setField w k (x / 2 ^ k) := by
  rw [and_mask, setField, and_low]

theorem and_mask_eq_getField (x w k : Nat) :
    x &&& ((2 ^ w - 1) <<< k) = getField w k x * 2 ^ k := by
  rw [and_mask, getField_eq, shiftLeft_eq]

theorem and_mask_of_aligned {x w k : Nat} (hal : x % 2 ^ k = 0) (hlt : x < 2 ^ (k + w)) :
    x &&& ((2 ^ w - 1) <<< k) = x := by
  rw [and_mask, shiftLeft_eq, mod_eq_of_lt, Nat.div_mul_cancel (dvd_of_mod_eq_zero hal)]
  rwa [Nat.div_lt_iff_lt_mul (Nat.two_pow_pos k), ← pow_add, add_comm w k]

/-! ## Registers with status bits

A write to such a register stores the control bits and clears the status bits at which it
has a one.  Reading the register, changing some bits and writing it back keeps the control
bits, and it clears every status bit that was set, unless the write has zeros there. -/

variable {n : Nat}

/-- The content after a write of `data`, where `status` are the bits that a one clears. -/
def w1cWrite (status old data : BitVec n) : BitVec n :=
  (data &&& ~~~status) ||| (old &&& ~~~data &&& status)

theorem eq_iff_getLsbD {x y : BitVec n} : x = y ↔ ∀ i < n, x.getLsbD i = y.getLsbD i :=
  ⟨fun h _ _ => by rw [h], fun h => BitVec.eq_of_getLsbD_eq h⟩

section

variable {status old bits : BitVec n}

theorem w1cWrite_or_iff (hbits : bits &&& status = 0#n) :
    w1cWrite status old (old ||| bits) = old ||| bits ↔ old &&& status = 0#n := by
  rw [eq_iff_getLsbD, eq_iff_getLsbD]
  grind [w1cWrite, -BitVec.getLsbD_eq_getElem]

theorem w1cWrite_and_not_iff (hbits : bits &&& status = 0#n) :
    w1cWrite status old (old &&& ~~~bits) = old &&& ~~~bits ↔ old &&& status = 0#n := by
  rw [eq_iff_getLsbD, eq_iff_getLsbD]
  grind [w1cWrite, -BitVec.getLsbD_eq_getElem]

theorem w1cWrite_or_status_iff (hbits : bits &&& ~~~status = 0#n) :
    w1cWrite status old (old ||| bits) = old &&& ~~~bits ↔ old &&& status &&& ~~~bits = 0#n := by
  rw [eq_iff_getLsbD, eq_iff_getLsbD]
  grind [w1cWrite, -BitVec.getLsbD_eq_getElem]

theorem w1cWrite_masked (hbits : bits &&& ~~~status = 0#n) :
    w1cWrite status old (old &&& ~~~status ||| bits) = old &&& ~~~bits := by
  rw [eq_iff_getLsbD] at hbits ⊢
  grind [w1cWrite, -BitVec.getLsbD_eq_getElem]

end

end ServerSoc.Base
