/-
The queues and tables of an SMMU in the memory that is allocated for them (smmu_v3.c).

`align_to_size` moves also an aligned address to the next multiple.  All structures are allocated
twice but the event queue, which never lies in its memory.  The rest fit when the numbers of IDR1
do not overflow and the register or descriptor has the bits of the address (`fits_iff`).
-/
import Mathlib.Algebra.Order.GroupWithZero.Basic
import ServerSoc.Smmu.Contexts
import ServerSoc.Smmu.Init

namespace ServerSoc.Smmu

open Base Nat

inductive Structure where
  | cmdq
  | evntq
  | strtab
  | level2
  | cdtab (s1cdmax : Nat)
  | leaf
  deriving DecidableEq, Repr

namespace Structure

def copies : Structure → Nat
  | evntq => 1
  | _ => 2

/-- The lowest address bit of the register or descriptor that leads to the structure. -/
def addrBit : Structure → Nat
  | cmdq | evntq => 5
  | leaf => 12
  | _ => 6

variable (p : Probed)

def size : Structure → Nat
  | cmdq => cmdqSize p.cmdqLog2nent
  | evntq => evntqSize p.evntqLog2nent
  | strtab => (p.smmuDev 0).strtabSize
  | level2 => level2Size
  | cdtab s1cdmax => (p.smmuDev 0).cdtabSize s1cdmax
  | leaf => leafSize

def intValue : Structure → Nat
  | cmdq => ((1 <<< p.cmdqLog2nent) * cmdqDwordsPerEnt) <<< 3
  | evntq => ((1 <<< p.evntqLog2nent) * evntqDwordsPerEnt) <<< 3
  | strtab =>
    if p.stLevel2lvl then 1 <<< (p.sidBits - strtabSplit)
    else (1 <<< p.sidBits) * (strtabSteDwords <<< 3)
  | level2 => level2Size
  | cdtab s1cdmax => 1 <<< s1cdmax
  | leaf => leafSize

def programmed (x : Structure) (a : Nat) : Nat :=
  alignToSize a (x.size p) &&& ((2 ^ (52 - x.addrBit) - 1) <<< x.addrBit)

/-- Nothing overflows, and the structure is aligned and inside its allocation at `a`. -/
structure Fits (x : Structure) (a : Nat) : Prop where
  int : x.intValue p < 2 ^ 31
  bytes : x.copies * x.size p < 2 ^ 32
  aligned : x.programmed p a % x.size p = 0
  lower : a ≤ x.programmed p a
  upper : x.programmed p a + x.size p ≤ a + x.copies * x.size p

def intLog2 : Structure → Nat
  | cmdq => p.cmdqLog2nent + 4
  | evntq => p.evntqLog2nent + 5
  | strtab => if p.stLevel2lvl then p.sidBits - 8 else p.sidBits + 6
  | level2 => 14
  | cdtab s1cdmax => s1cdmax
  | leaf => 16

def log2 : Structure → Nat
  | cmdq => max 5 (p.cmdqLog2nent + 4)
  | evntq => max 6 (p.evntqLog2nent + 5)
  | strtab => if p.stLevel2lvl then p.sidBits - 8 + 3 else p.sidBits + 6
  | level2 => 14
  | cdtab s1cdmax => if (p.smmuDev 0).cdTwoLevel s1cdmax then s1cdmax - 10 + 3 else s1cdmax + 6
  | leaf => 16

def next (x : Structure) (a : Nat) : Nat := (a / 2 ^ x.log2 p + 1) * 2 ^ x.log2 p

variable {p} {hw : SmmuHw} {x : Structure} {a : Nat}

theorem intValue_eq (p : Probed) (x : Structure) : x.intValue p = 2 ^ x.intLog2 p := by
  cases x with
  | cmdq | evntq =>
    rw [intValue, intLog2, one_shiftLeft, shiftLeft_eq, Nat.pow_add, Nat.mul_assoc]
    rfl
  | strtab =>
    rw [intValue, intLog2, apply_ite (2 ^ ·), one_shiftLeft, one_shiftLeft, Nat.pow_add]
    rfl
  | level2 | leaf => rfl
  | cdtab s1cdmax => exact one_shiftLeft s1cdmax

theorem sidBits_le (hp : smmuProbe hw = some p) : p.sidBits ≤ 32 := by
  unfold smmuProbe at hp
  split_ifs at hp
  all_goals
    cases hp
    dsimp only [maxSid] at *
    omega

theorem max_mod_eq {n k : Nat} (h : n + k < 31) :
    max (2 ^ (k + 1)) (2 ^ n * 2 ^ k % 2 ^ 32) = 2 ^ max (k + 1) (n + k) := by
  have hlt : 2 ^ (n + k) < 2 ^ 32 := Nat.pow_lt_pow_right (by decide) (by omega)
  rw [← Nat.pow_add, mod_eq_of_lt hlt]
  exact (pow_right_mono₀ (by decide)).map_max.symm

theorem size_eq (hp : smmuProbe hw = some p) (hi : x.intLog2 p < 31) : x.size p = 2 ^ x.log2 p := by
  cases x with
  | cmdq =>
    rw [size, cmdqSize, shiftLeft_eq, one_shiftLeft, Nat.mul_assoc]
    exact max_mod_eq hi
  | evntq =>
    rw [size, evntqSize, shiftLeft_eq, one_shiftLeft, Nat.mul_assoc]
    exact max_mod_eq hi
  | strtab =>
    refine strtabSize_eq ?_
    have hbits := sidBits_le hp
    rw [intLog2] at hi
    show (if p.stLevel2lvl then p.sidBits - 8 + 3 else p.sidBits + 6) < 32
    split_ifs at hi ⊢ <;> omega
  | level2 | leaf => rfl
  | cdtab s1cdmax => exact cdtabSize_pow _ s1cdmax

/-- The multiples of `s` with the room for a structure of this size in twice the size. -/
theorem inside_iff {s b : Nat} (hs : 0 < s) :
    b % s = 0 ∧ a ≤ b ∧ b + s ≤ a + 2 * s ↔ b = (a / s + 1) * s ∨ b = a ∧ a % s = 0 := by
  have hdiv := div_add_mod' a s
  have hmod := mod_lt a hs
  rw [Nat.add_mul, Nat.one_mul]
  constructor
  · intro ⟨hal, hle, hend⟩
    have hb := Nat.div_mul_cancel (dvd_of_mod_eq_zero hal)
    have hlow : a / s ≤ b / s := Nat.div_le_div_right hle
    have hhigh : b / s ≤ (a + s) / s := Nat.div_le_div_right (by omega)
    rw [add_div_right a hs] at hhigh
    obtain h | h : b / s = a / s ∨ b / s = a / s + 1 := by omega
    · rw [h] at hb
      exact .inr ⟨by omega, by omega⟩
    · rw [h, Nat.add_mul, Nat.one_mul] at hb
      exact .inl hb.symm
  · rintro (rfl | ⟨rfl, hal⟩)
    · refine ⟨?_, by omega, by omega⟩
      rw [add_mod_right, mul_mod_left]
    · exact ⟨hal, le_rfl, by omega⟩

theorem not_fits_evntq (hp : smmuProbe hw = some p) : ¬ evntq.Fits p a := by
  intro h
  have hint := h.int
  rw [intValue_eq, Nat.pow_lt_pow_iff_right (by decide)] at hint
  have hsize := size_eq hp hint
  have hpos := Nat.two_pow_pos (evntq.log2 p)
  have hbytes : 1 * evntq.size p < 2 ^ 32 := h.bytes
  have hend : evntq.programmed p a + evntq.size p ≤ a + 1 * evntq.size p := h.upper
  have hb : evntq.programmed p a = a := Nat.le_antisymm (by omega) h.lower
  have hal := Nat.div_mul_cancel (dvd_of_mod_eq_zero (hb ▸ h.aligned))
  obtain ⟨q, hq⟩ : 2 ^ 6 ∣ 2 ^ evntq.log2 p := Nat.pow_dvd_pow 2 (Nat.le_max_left _ _)
  have hlog : evntq.log2 p ≤ 64 := Nat.max_le.mpr ⟨by decide, hint.le.trans (by decide)⟩
  -- the register has the whole of the next multiple, which is not `a`
  rw [programmed, addrBit, and_mask, shiftLeft_eq] at hb
  rw [hsize] at hb hal hbytes
  rw [alignToSize_eq hlog (by omega), Nat.add_mul, Nat.one_mul, hal] at hb
  omega

theorem split_pow {k : Nat} (hk : k < 31) : 2 ^ (52 - k) * 2 ^ k = 2 ^ 52 := by
  rw [← Nat.pow_add, Nat.sub_add_cancel (by omega)]

theorem masked_lt {b : Nat} (hb : b < 31) (y : Nat) :
    y &&& ((2 ^ (52 - b) - 1) <<< b) < 2 ^ 52 := by
  rw [and_mask, shiftLeft_eq, ← split_pow hb]
  exact Nat.mul_lt_mul_of_pos_right (mod_lt _ (Nat.two_pow_pos _)) (Nat.two_pow_pos b)

/-- Which of the two multiples the register holds, `n` being the log2 of the size and `b` the
lowest address bit. -/
theorem masked_iff {n b : Nat} (hn : n < 31) (hb : b < 31) (ha : a < 2 ^ 52) :
    (alignToSize a (2 ^ n) &&& ((2 ^ (52 - b) - 1) <<< b) = (a / 2 ^ n + 1) * 2 ^ n ∨
      alignToSize a (2 ^ n) &&& ((2 ^ (52 - b) - 1) <<< b) = a ∧ a % 2 ^ n = 0) ↔
    (2 ^ b ∣ (a / 2 ^ n + 1) * 2 ^ n ∧ (a / 2 ^ n + 1) * 2 ^ n < 2 ^ 52) ∨
      (n < b ∧ 2 ^ b ∣ a) := by
  have hlt : 2 ^ n < 2 ^ 31 := Nat.pow_lt_pow_right (by decide) hn
  have hpos := Nat.two_pow_pos n
  have hdiv := div_add_mod' a (2 ^ n)
  have hsum := Nat.add_mul (a / 2 ^ n) 1 (2 ^ n)
  have hmask := masked_lt hb (alignToSize a (2 ^ n))
  rw [alignToSize_eq (by omega) (by omega), and_mask, shiftLeft_eq] at *
  generalize hnext : (a / 2 ^ n + 1) * 2 ^ n = next at *
  have hkept (hd : 2 ^ b ∣ next) (hl : next < 2 ^ 52) :
      next / 2 ^ b % 2 ^ (52 - b) * 2 ^ b = next := by
    rw [mod_eq_of_lt (by rwa [Nat.div_lt_iff_lt_mul (Nat.two_pow_pos b), split_pow hb]),
      Nat.div_mul_cancel hd]
  constructor
  · rintro (h | ⟨h, hal⟩)
    · exact .inl ⟨h ▸ Nat.dvd_mul_left _ _, by omega⟩
    · refine .inr ⟨?_, h ▸ Nat.dvd_mul_left _ _⟩
      by_contra hnb
      have hd : 2 ^ b ∣ next := hnext ▸ (Nat.pow_dvd_pow 2 (by omega)).mul_left _
      have hq : a / 2 ^ n < 2 ^ (52 - n) := by
        rwa [Nat.div_lt_iff_lt_mul hpos, split_pow hn]
      have hle : next ≤ 2 ^ 52 := by
        rw [← hnext, ← split_pow hn]
        exact Nat.mul_le_mul_right _ hq
      -- the mask leaves 0 of the end of the address space
      rcases hle.lt_or_eq with hl | hl
      · have heq := hkept hd hl
        omega
      · rw [hl, ← split_pow hb, Nat.mul_div_cancel _ (Nat.two_pow_pos b), mod_self] at h
        omega
  · rintro (⟨hd, hl⟩ | ⟨hnb, hd⟩)
    · exact .inl (hkept hd hl)
    · have hal := mod_eq_zero_of_dvd ((Nat.pow_dvd_pow 2 hnb.le).trans hd)
      have hsmall : 2 ^ n / 2 ^ b = 0 := div_eq_of_lt (Nat.pow_lt_pow_right (by decide) hnb)
      refine .inr ⟨?_, hal⟩
      rw [show next = a + 2 ^ n by omega, Nat.add_div_of_dvd_right hd, hsmall, Nat.add_zero,
        mod_eq_of_lt (by rwa [Nat.div_lt_iff_lt_mul (Nat.two_pow_pos b), split_pow hb]),
        Nat.div_mul_cancel hd]

/-- The structures other than the event queue fit exactly if their numbers do not overflow
and the register has the bits of the next multiple of the size.  Where it drops bits of the
address of a small table, it may still lead to the start of the allocation. -/
theorem fits_iff (hp : smmuProbe hw = some p) : x.Fits p a ↔ x ≠ evntq ∧ x.intLog2 p < 31 ∧
    x.log2 p < 31 ∧ a < 2 ^ 52 ∧ ((2 ^ x.addrBit ∣ x.next p a ∧ x.next p a < 2 ^ 52) ∨
      (x.log2 p < x.addrBit ∧ 2 ^ x.addrBit ∣ a)) := by
  have hint : x.intValue p < 2 ^ 31 ↔ x.intLog2 p < 31 := by
    rw [intValue_eq, Nat.pow_lt_pow_iff_right (by decide)]
  by_cases hx : x = evntq
  · exact ⟨fun h => absurd (hx ▸ h) (not_fits_evntq hp), fun h => absurd hx h.1⟩
  by_cases hi : x.intLog2 p < 31
  · have hc : x.copies = 2 := by
      cases x <;> first | rfl | exact absurd rfl hx
    have hsize := size_eq hp hi
    have hbytes : 2 * x.size p < 2 ^ 32 ↔ x.log2 p < 31 := by
      rw [hsize, ← Nat.pow_succ', Nat.pow_lt_pow_iff_right (by decide), succ_lt_succ_iff]
    have hbit : x.addrBit < 31 := by cases x <;> simp [addrBit]
    have hroom := inside_iff (a := a) (b := x.programmed p a) (hsize ▸ Nat.two_pow_pos _)
    constructor
    · intro ⟨h1, h2, h3, h4, h5⟩
      rw [hc] at h2 h5
      have hlt := h4.trans_lt (masked_lt hbit _)
      have hin := hroom.mp ⟨h3, h4, h5⟩
      rw [programmed, hsize, masked_iff (hbytes.mp h2) hbit hlt] at hin
      exact ⟨hx, hi, hbytes.mp h2, hlt, hin⟩
    · intro ⟨_, _, h2, hlt, hin⟩
      rw [next, ← masked_iff h2 hbit hlt, ← hsize] at hin
      obtain ⟨h3, h4, h5⟩ := hroom.mpr hin
      exact ⟨hint.mpr hi, hc ▸ hbytes.mpr h2, h3, h4, hc ▸ h5⟩
  · exact ⟨fun h => absurd (hint.mp h.int) hi, fun h => absurd h.2.1 hi⟩

theorem cmdq_fits : ∃ p, smmuProbe stuckSmmu = some p ∧ cmdq.Fits p 0x10000 :=
  ⟨_, rfl, (@fits_iff _ stuckSmmu _ _ rfl).mpr
    ⟨by decide, by decide, by decide, by decide, .inl (by decide)⟩⟩

/-- The event queue begins where its allocation ends. -/
theorem evntq_outside : ∃ p, smmuProbe stuckSmmu = some p ∧ evntq.size p = 0x2000 ∧
    evntq.programmed p 0x10000 = 0x12000 ∧ ¬ evntq.Fits p 0x10000 :=
  ⟨_, rfl, by decide, by decide, @not_fits_evntq _ stuckSmmu _ rfl⟩

end Structure

end ServerSoc.Smmu
