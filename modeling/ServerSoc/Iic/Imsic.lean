/-
The interrupt files of the IMSIC (val/sys_arch_src/aia/aia.c) on a hart with 64-bit registers.

A register of the pending or the enabled bits holds 64 identities, and the registers are two
numbers apart.  The bits to set or clear are collected in a variable of 32 bits.
-/
import Mathlib.Logic.Function.Basic
import Mathlib.Data.List.Range
import ServerSoc.Base.Bits

namespace ServerSoc.Iic

open BitVec Function List Nat

def xlen : Nat := 64
def imsicEipxBits : Nat := 32
def imsicEip0 : Nat := 0x80
def imsicEie0 : Nat := 0xc0

abbrev Regs := Nat → BitVec 64

def bit (i : Nat) : BitVec 32 := (1#64 <<< i).setWidth 32

def isel (id : Nat) (pend : Bool) : Nat :=
  id / xlen * (xlen / imsicEipxBits) + if pend then imsicEip0 else imsicEie0

def imsicCsrUpdate (regs : Regs) (isel : Nat) (ireg : BitVec 32) (val : Bool) : Regs :=
  update regs isel (if val then regs isel ||| ireg.setWidth 64
    else regs isel &&& ~~~(ireg.setWidth 64))

def valIicImsicEixUpdate (pend val : Bool) (regs : Regs) (id : Nat) : Regs :=
  imsicCsrUpdate regs (isel id pend) (bit (id % xlen)) val

def valIicImsicEixRead (id : Nat) (pend : Bool) (regs : Regs) : BitVec 64 := regs (isel id pend)

/-- The inner loop, with the number of turns that are left up to the end of the register. -/
def collect (lastId : Nat) : Nat → Nat → BitVec 32 → BitVec 32 × Nat
  | 0, id, ireg => (ireg, id)
  | turns + 1, id, ireg =>
    if id < lastId then collect lastId turns (id + 1) (ireg ||| bit (xlen - (turns + 1)))
    else (ireg, id)

def arrayLoop (lastId : Nat) (pend val : Bool) : Nat → Nat → Regs → Regs
  | 0, _, regs => regs
  | fuel + 1, id, regs =>
    if id < lastId then
      let r := collect lastId (xlen - id % xlen) id 0#32
      arrayLoop lastId pend val fuel r.2 (imsicCsrUpdate regs (isel id pend) r.1 val)
    else regs

/-- Every round of the outer loop takes at least one identity. -/
def valIicImsicEixArrayUpdate (baseId numId : Nat) (pend val : Bool) (regs : Regs) : Regs :=
  arrayLoop ((baseId + numId) % 2 ^ 32) pend val numId baseId regs

section

variable (pend val : Bool) (lastId : Nat)

theorem imsicCsrUpdate_or (regs : Regs) (s : Nat) (x y : BitVec 32) :
    imsicCsrUpdate regs s (x ||| y) val = imsicCsrUpdate (imsicCsrUpdate regs s x val) s y val := by
  simp only [imsicCsrUpdate]
  grind

theorem collect_spec (regs : Regs) (first : Nat) {turns id : Nat} (ireg : BitVec 32)
    (hturns : turns ≤ xlen) (hid : id + turns = xlen * (first / xlen + 1)) :
    (collect lastId turns id ireg).2 = id + min turns (lastId - id) ∧
      imsicCsrUpdate regs (isel first pend) (collect lastId turns id ireg).1 val =
        (range' id (min turns (lastId - id))).foldl (valIicImsicEixUpdate pend val)
          (imsicCsrUpdate regs (isel first pend) ireg val) := by
  induction turns generalizing id ireg with
  | zero => simp [collect]
  | succ turns ih =>
    rw [collect]
    split_ifs with hlt
    · simp only [xlen] at hturns hid
      have hreg : isel id pend = isel first pend := by
        rw [isel, isel, show id / xlen = first / xlen by simp only [xlen]; omega]
      have hbit : id % xlen = xlen - (turns + 1) := by
        simp only [xlen]
        omega
      obtain ⟨hnext, hfold⟩ := ih (ireg ||| bit (xlen - (turns + 1))) (by rw [xlen]; omega)
        (show id + 1 + turns = xlen * (first / xlen + 1) by simp only [xlen]; omega)
      have hmin : min (turns + 1) (lastId - id) = min turns (lastId - (id + 1)) + 1 := by omega
      rw [hfold, hmin, range'_succ, foldl_cons, valIicImsicEixUpdate, hreg, hbit,
        imsicCsrUpdate_or]
      exact ⟨by omega, rfl⟩
    · simp [show lastId - id = 0 by omega]

theorem arrayLoop_eq {fuel id : Nat} (regs : Regs) (hfuel : lastId - id ≤ fuel) :
    arrayLoop lastId pend val fuel id regs =
      (range' id (lastId - id)).foldl (valIicImsicEixUpdate pend val) regs := by
  induction fuel generalizing id regs with
  | zero => simp [arrayLoop, show lastId - id = 0 by omega]
  | succ fuel ih =>
    rw [arrayLoop]
    split_ifs with hlt
    · have hturns : 0 < xlen - id % xlen := Nat.sub_pos_of_lt (mod_lt id (by decide))
      obtain ⟨hnext, hfold⟩ := collect_spec pend val lastId regs id 0#32 (sub_le xlen (id % xlen))
        (show id + (xlen - id % xlen) = xlen * (id / xlen + 1) by simp only [xlen]; omega)
      dsimp only
      have hzero : imsicCsrUpdate regs (isel id pend) 0#32 val = regs := by
        simp only [imsicCsrUpdate, BitVec.setWidth_zero, BitVec.or_zero, BitVec.not_zero,
          BitVec.and_allOnes, ite_self, update_eq_self]
      rw [hnext, hfold, ih _ (by omega), ← foldl_append, range'_append_1]
      congr 2
      omega
    · simp [show lastId - id = 0 by omega]

theorem getLsbD_update (regs : Regs) (id s : Nat) {i : Nat} (hi : i < xlen) :
    (valIicImsicEixUpdate pend val regs id s).getLsbD i =
      if s = isel id pend ∧ i = id % xlen ∧ i < 32 then val else (regs s).getLsbD i := by
  have hbit : ((bit (id % xlen)).setWidth 64).getLsbD i = decide (i = id % xlen ∧ i < 32) := by
    simp only [bit] at *
    grind
  rw [valIicImsicEixUpdate, imsicCsrUpdate, update_apply]
  split
  · cases val <;> simp_all [xlen] <;> grind
  · simp_all

end

/-- What the functions are to do with identity `id`, and with `n` identities from `base` on. -/
structure Contract (pend val : Bool) (id base n : Nat) : Prop where
  only : ∀ regs s i, i < xlen → (valIicImsicEixUpdate pend val regs id s).getLsbD i =
    if s = isel id pend ∧ i = id % xlen then val else (regs s).getLsbD i
  array : ∀ regs, valIicImsicEixArrayUpdate base n pend val regs =
    (range' base n).foldl (valIicImsicEixUpdate pend val) regs
  read : ∀ regs, (valIicImsicEixRead id pend (valIicImsicEixUpdate pend val regs id)).getLsbD
    (id % xlen) = val

/-- Only the identities in the lower half of a register can be updated. -/
theorem imsic_contract_iff (pend val : Bool) (id base n : Nat) (h : base + n ≤ 2048) :
    Contract pend val id base n ↔ id % xlen < 32 := by
  have hmod := mod_lt id (show 0 < xlen by decide)
  constructor
  · intro hc
    by_contra hhigh
    have hkept (regs : Regs) : (regs (isel id pend)).getLsbD (id % xlen) = val := by
      rw [← hc.read regs, valIicImsicEixRead, getLsbD_update _ _ _ _ _ hmod,
        if_neg (fun h => hhigh h.2.2)]
    cases val with
    | true => exact absurd (hkept fun _ => 0#64) (by simp)
    | false =>
      have hone := hkept fun _ => BitVec.allOnes 64
      rw [BitVec.getLsbD_allOnes, decide_eq_true (show id % xlen < 64 from hmod)] at hone
      cases hone
  · intro hlow
    refine ⟨fun regs s i hi => ?_, fun regs => ?_, fun regs => ?_⟩
    · rw [getLsbD_update _ _ _ _ _ hi]
      grind
    · rw [valIicImsicEixArrayUpdate, mod_eq_of_lt (by omega), arrayLoop_eq _ _ _ _ (by omega),
        Nat.add_sub_cancel_left]
    · rw [valIicImsicEixRead, getLsbD_update _ _ _ _ _ hmod]
      simp [hlow]

theorem imsic_contract_five : Contract true true 5 60 8 :=
  (imsic_contract_iff true true 5 60 8 (by decide)).mpr (by decide)

/-- The pending bit of identity 40 is not set. -/
theorem imsic_misses_forty :
    ¬ Contract true true 40 40 1 ∧
      valIicImsicEixRead 40 true (valIicImsicEixUpdate true true (fun _ => 0) 40) = 0 := by
  refine ⟨fun h => ?_, by decide⟩
  have hread := h.read fun _ => 0
  revert hread
  decide

end ServerSoc.Iic
