/-
Memory with bits that cannot be written.

`mask` has a one for each bit that keeps what is written to it.  A field of such memory
behaves as a register with the field of the mask: `ofNat_load_storeWith`.
-/
import ServerSoc.Base.Bits
import ServerSoc.Memory.Bytes

namespace ServerSoc.Memory

open Base Nat BitVec

def masked (mask : Mem) (x : Nat) (new old : UInt8) : UInt8 :=
  (new &&& mask x) ||| (old &&& ~~~mask x)

def maskedWrite {n : Nat} (mask old data : BitVec n) : BitVec n :=
  (data &&& mask) ||| (old &&& ~~~mask)

theorem testBit_load (m : Mem) (a n j : Nat) :
    (load m a n).testBit j = (decide (j < 8 * n) && (m (a + j / 8)).toBitVec.getLsbD (j % 8)) := by
  induction n generalizing a j with
  | zero => simp [load]
  | succ n ih =>
    have hbyte := UInt8.toNat_lt (m a)
    rw [load, add_comm, testBit_two_pow_mul_add _ hbyte]
    by_cases hj : j < 8
    · have hdiv : j / 8 = 0 := by omega
      rw [if_pos hj, hdiv, mod_eq_of_lt hj, decide_eq_true (by omega)]
      rfl
    · rw [if_neg hj, ih, show a + 1 + (j - 8) / 8 = a + j / 8 by omega,
        show (j - 8) % 8 = j % 8 by omega]
      congr 1
      exact decide_eq_decide.mpr (by omega)

theorem getLsbD_byteOf (v k : Nat) {b : Nat} (hb : b < 8) :
    (byteOf v k).toBitVec.getLsbD b = v.testBit (8 * k + b) := by
  show (byteOf v k).toNat.testBit b = _
  rw [byteOf_toNat, show (256 : Nat) = 2 ^ 8 from rfl, ← pow_mul, testBit_mod_two_pow,
    testBit_div_two_pow, decide_eq_true hb, Bool.true_and, add_comm]

theorem ofNat_load_storeWith (mask m : Mem) (a n v : Nat) :
    BitVec.ofNat 64 (load (storeWith (masked mask) m a n v) a n) =
      maskedWrite (BitVec.ofNat 64 (load mask a n)) (BitVec.ofNat 64 (load m a n))
        (BitVec.ofNat 64 v) := by
  refine eq_of_getLsbD_eq fun j hj => ?_
  simp only [maskedWrite, getLsbD_or, getLsbD_and, getLsbD_not,
    getLsbD_ofNat, testBit_load, hj]
  -- above the field both sides are zero
  by_cases hin : j < 8 * n
  · have hk : a + j / 8 < a + n := by omega
    rw [storeWith_inside (Nat.le_add_right _ _) hk, masked, Nat.add_sub_cancel_left]
    simp only [UInt8.toBitVec_or, UInt8.toBitVec_and, UInt8.toBitVec_not, getLsbD_or,
      getLsbD_and, getLsbD_not, getLsbD_byteOf v _ (mod_lt j (by decide)), hin,
      decide_true, Bool.true_and, div_add_mod, mod_lt j (show 0 < 8 by decide)]
  · simp [hin]

/-! ## Setting and clearing bits of a register -/

section

variable {n : Nat} {mask x bits : BitVec n}

theorem maskedWrite_or : maskedWrite mask x (x ||| bits) = x ||| (bits &&& mask) := by
  rw [eq_iff_getLsbD]
  grind [maskedWrite, -getLsbD_eq_getElem]

theorem maskedWrite_and_not : maskedWrite mask x (x &&& ~~~bits) = x &&& ~~~(bits &&& mask) := by
  rw [eq_iff_getLsbD]
  grind [maskedWrite, -getLsbD_eq_getElem]

theorem maskedWrite_back : maskedWrite mask (x ||| (bits &&& mask)) x = x := by
  rw [eq_iff_getLsbD]
  grind [maskedWrite, -getLsbD_eq_getElem]

theorem or_and_eq_iff : x ||| (bits &&& mask) = x ||| bits ↔ bits &&& ~~~mask &&& ~~~x = 0#n := by
  rw [eq_iff_getLsbD, eq_iff_getLsbD]
  grind [-getLsbD_eq_getElem]

theorem or_and_le : x ||| (bits &&& mask) ≤ x ||| bits := by
  have hsub : x ||| (bits &&& mask) = (x ||| bits) &&& (x ||| mask) := by
    rw [eq_iff_getLsbD]
    grind [-getLsbD_eq_getElem]
  rw [hsub]
  exact and_le_left

theorem or_and_lt_iff : x ||| (bits &&& mask) < x ||| bits ↔ bits &&& ~~~mask &&& ~~~x ≠ 0#n := by
  rw [Ne, ← or_and_eq_iff]
  have hle : x ||| (bits &&& mask) ≤ x ||| bits := or_and_le
  exact ⟨fun h heq => BitVec.lt_irrefl _ (heq ▸ h), fun h => BitVec.lt_of_le_ne hle h⟩

theorem and_not_eq_iff :
    x &&& ~~~(bits &&& mask) = x &&& ~~~bits ↔ bits &&& ~~~mask &&& x = 0#n := by
  rw [eq_iff_getLsbD, eq_iff_getLsbD]
  grind [-getLsbD_eq_getElem]

theorem maskedWrite_or_of_clear (h : bits &&& ~~~mask &&& x = 0#n) :
    maskedWrite mask (x &&& ~~~bits) (x ||| bits) = x ||| (bits &&& mask) := by
  rw [eq_iff_getLsbD] at h ⊢
  grind [maskedWrite, -getLsbD_eq_getElem]

theorem maskedWrite_of_writable (h : bits &&& ~~~mask = 0#n) (data : BitVec n) :
    maskedWrite mask (x ||| bits) data = maskedWrite mask x data := by
  rw [eq_iff_getLsbD] at h ⊢
  grind [maskedWrite, -getLsbD_eq_getElem]

theorem and_not_eq_zero_iff :
    bits &&& ~~~mask = 0#n ↔ bits &&& ~~~mask &&& x = 0#n ∧ bits &&& ~~~mask &&& ~~~x = 0#n := by
  rw [eq_iff_getLsbD, eq_iff_getLsbD, eq_iff_getLsbD, ← forall₂_and]
  grind [-getLsbD_eq_getElem]

end

end ServerSoc.Memory
