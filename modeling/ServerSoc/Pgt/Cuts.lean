/-
When the counters cut a range.

From counters that are all zero, ranges with the same offset in a block of level 2 on both sides
need tables of level 3 only at their end.  Of other ranges a full block of level 1 leaves the
counter of level 2 at 1, and the next block of level 1 is cut by one block of level 2.
-/
import ServerSoc.Pgt.Plan

namespace ServerSoc.Pgt

open Base Nat

structure Zero (info : AcsPgt) : Prop where
  l1 : info.l1Index = 0
  l2 : info.l2Index = 0
  l3 : info.l3Index = 0

variable {g : Granule} {n a cnt out : Nat} {info : AcsPgt}

section

variable {k : Nat}

theorem Zero.increment (h : Zero info) (hn : n ≠ 0) :
    incrementPgtIndex info (3 - n) g.fan = info := by
  have hfan := g.two_le_fan
  match n, hn with
  | 1, _ => exact if_neg (by rw [h.l2]; omega)
  | 2, _ => exact if_neg (by rw [h.l1]; omega)
  | n + 3, _ =>
    rw [show 3 - (n + 3) = 0 by omega]
    rfl

theorem Zero.offset (h : Zero info) (g : Granule) (n : Nat) :
    getPgtIndex info (3 - n) * g.unit n = 0 := by
  match n with
  | 0 =>
    show info.l3Index * _ = 0
    rw [h.l3, zero_mul]
  | 1 =>
    show info.l2Index * _ = 0
    rw [h.l2, zero_mul]
  | 2 =>
    show info.l1Index * _ = 0
    rw [h.l1, zero_mul]
  | n + 3 => exact mul_zero _

theorem Zero.subCount (h : Zero info) (g : Granule) (n cnt : Nat) :
    subCount g n cnt info = min cnt (g.fan ^ (n + 1)) := by
  rw [Pgt.subCount, h.offset, Nat.sub_zero]

theorem planSteps_succ_info (k : Nat) :
    (planSteps g n a cnt out (k + 1) info).2 = (planEntry g n (a + k * g.fan ^ n)
      (cnt - k * g.fan ^ n) (out + k * g.fan ^ n) (planSteps g n a cnt out k info).2).2 := rfl

theorem planSteps_aligned_info (hn : n ≠ 0) (hz : Zero info) (ha : g.fan ^ n ∣ a)
    (ho : g.fan ∣ out) (hk : k * g.fan ^ n ≤ cnt) : (planSteps g n a cnt out k info).2 = info := by
  induction n generalizing a cnt out k with
  | zero => exact absurd rfl hn
  | succ n ih =>
    induction k with
    | zero => rfl
    | succ k ihk =>
      rw [succ_mul] at hk
      rw [planSteps_succ_info, ihk (by omega)]
      have ha' : g.fan ^ (n + 1) ∣ a + k * g.fan ^ (n + 1) := Nat.dvd_add ha (Nat.dvd_mul_left _ _)
      have ho' : g.fan ∣ out + k * g.fan ^ (n + 1) :=
        Nat.dvd_add ho (Nat.dvd_mul_left_of_dvd (Nat.dvd_mul_left _ _) _)
      by_cases hblock : g.fan ^ (n + 1) ∣ out + k * g.fan ^ (n + 1)
      · rw [planEntry_block ⟨ha', hblock, by omega⟩]
        exact hz.increment (succ_ne_zero n)
      · rw [planEntry_table (fun h => hblock h.2.1), hz.increment (succ_ne_zero n), hz.subCount,
          Nat.min_eq_right (by omega)]
        have hn' : n ≠ 0 := by
          rintro rfl
          rw [pow_one] at hblock ho'
          exact hblock ho'
        refine ih hn' (Nat.dvd_trans (Nat.pow_dvd_pow _ (le_succ n)) ha') ho' ?_
        calc blocks (g.fan ^ n) (g.fan ^ (n + 1)) * g.fan ^ n ≤ g.fan * g.fan ^ n :=
              Nat.mul_le_mul_right _ (blocks_le (g.fan_pow_pos n) (by rw [pow_succ, mul_comm]))
          _ = g.fan ^ (n + 1) := by rw [pow_succ, mul_comm]

theorem add_mul_fan_mod (g : Granule) (n a k : Nat) :
    (a + k * g.fan ^ (n + 1)) % g.fan = a % g.fan := by
  rw [pow_succ, ← mul_assoc, add_mul_mod_self_right]

section

variable (hz : Zero info) (hcong : a % g.fan = out % g.fan)
include hz hcong

theorem planSteps_info_of_aligned
    (hst : Straight g (n + 1) a cnt) (hk : k < blocks (g.fan ^ (n + 1)) cnt) :
    (planSteps g (n + 1) a cnt out k info).2 = info := by
  rcases Nat.eq_zero_or_pos k with rfl | hpos
  · rfl
  · have ha := hst.dvd_of_blocks hpos hk
    have hkc := (lt_blocks_iff (g.fan_pow_pos (n + 1))).mp hk
    have hfa : g.fan ∣ a := Nat.dvd_trans (Nat.dvd_mul_left _ _) ha
    have ho : g.fan ∣ out := by
      rw [dvd_iff_mod_eq_zero, ← hcong]
      exact mod_eq_zero_of_dvd hfa
    exact planSteps_aligned_info (succ_ne_zero n) hz ha ho hkc.le

theorem uncut_aligned (hst : Straight g n a cnt) : Uncut g n a cnt out info := by
  induction n generalizing a cnt out with
  | zero => trivial
  | succ n ih =>
    intro _
    refine ⟨.inl (hz.offset g n), fun k hk => ?_⟩
    rw [hz.increment (succ_ne_zero n)]
    have hst' : Straight g n a (Pgt.subCount g n cnt info) := hst.lower.mono (min_le_left _ _)
    cases n with
    | zero => trivial
    | succ n =>
      rw [planSteps_info_of_aligned hz hcong hst' hk]
      refine ih ?_ (hst'.step hk)
      rw [add_mul_fan_mod, add_mul_fan_mod, hcong]

theorem uncutTable_aligned (hst : Straight g n a cnt) : UncutTable g n a cnt out info := by
  intro k hk
  cases n with
  | zero => trivial
  | succ n =>
    rw [planSteps_info_of_aligned hz hcong hst hk]
    apply uncut_aligned hz _ (hst.step hk)
    rw [add_mul_fan_mod, add_mul_fan_mod, hcong]

end

end

section

variable (hne : a % g.fan ≠ out % g.fan)
include hne

theorem not_block : ¬ IsBlock g (n + 1) a cnt out := by
  rintro ⟨ha, ho, -⟩
  have hfan : g.fan ∣ g.fan ^ (n + 1) := Nat.dvd_mul_left _ _
  refine hne ?_
  rw [mod_eq_zero_of_dvd (Nat.dvd_trans hfan ha), mod_eq_zero_of_dvd (Nat.dvd_trans hfan ho)]

theorem planEntry_one_full (h3 : info.l3Index = 0)
    (hcnt : g.fan ≤ cnt) :
    (planEntry g 1 a cnt out info).2 =
      { incrementPgtIndex info 2 g.fan with
        l3Index := 0
        l2Index := (incrementPgtIndex info 2 g.fan).l2Index + 1 } := by
  have hinc : (incrementPgtIndex info 2 g.fan).l3Index = 0 := by
    rw [incrementPgtIndex]
    split <;> exact h3
  have hsub : Pgt.subCount g 0 cnt info = g.fan := by
    show min cnt (g.fan ^ (0 + 1) - info.l3Index * 1) = g.fan
    rw [h3, Nat.sub_zero, pow_one, Nat.min_eq_right hcnt]
  rw [planEntry_table (not_block hne), hsub]
  rw [planTable_zero_info (by rw [hinc]; exact g.fan_pos) (by rw [hinc, zero_add]), hinc,
    zero_add, if_pos rfl]

variable {k : Nat}

theorem planSteps_one_full (hz : Zero info) (hk : k < g.fan) (hcnt : k * g.fan ^ 1 ≤ cnt) :
    (planSteps g 1 a cnt out k info).2 = { info with l2Index := k } := by
  induction k with
  | zero =>
    show info = { info with l2Index := 0 }
    rw [← hz.l2]
  | succ k ih =>
    rw [succ_mul, pow_one] at hcnt
    have hinc : incrementPgtIndex { info with l2Index := k } 2 g.fan = { info with l2Index := k } :=
      if_neg (by show k ≠ _; omega)
    have hne' : (a + k * g.fan ^ (0 + 1)) % g.fan ≠ (out + k * g.fan ^ (0 + 1)) % g.fan := by
      rwa [add_mul_fan_mod, add_mul_fan_mod]
    rw [planSteps_succ_info, ih (by omega) (by rw [pow_one]; omega),
      planEntry_one_full hne' (by exact hz.l3) (by rw [pow_one]; omega), hinc]
    rw [← hz.l3]

theorem planTable_one_full (hz : Zero info) :
    (planTable g 1 a (g.fan ^ 2) out info).2 = { info with l2Index := 1, l1Index := 1 } := by
  have hfan := g.two_le_fan
  have hblocks : blocks (g.fan ^ 1) (g.fan ^ 2) = (g.fan - 1) + 1 := by
    rw [blocks, pow_one, Nat.pow_two, Nat.sub_add_cancel g.fan_pos,
      show g.fan * g.fan + g.fan - 1 = g.fan * g.fan + (g.fan - 1) by omega,
      mul_add_div g.fan_pos, div_eq_of_lt (by omega), add_zero]
  have hmul : (g.fan - 1) * g.fan ^ 1 + g.fan = g.fan ^ 2 := by
    rw [pow_one, Nat.pow_two, ← succ_mul, succ_eq_add_one, Nat.sub_add_cancel g.fan_pos]
  have hinc : incrementPgtIndex { info with l2Index := g.fan - 1 } 2 g.fan =
      { info with l2Index := 0, l1Index := info.l1Index + 1 } :=
    if_pos rfl
  have hne' : (a + (g.fan - 1) * g.fan ^ (0 + 1)) % g.fan ≠
      (out + (g.fan - 1) * g.fan ^ (0 + 1)) % g.fan := by
    rwa [add_mul_fan_mod, add_mul_fan_mod]
  rw [planTable, hblocks, planSteps_succ_info, planSteps_one_full hne hz (by omega) (by omega),
    planEntry_one_full hne' (by exact hz.l3) (by omega), hinc, hz.l1]
  show { info with l1Index := 1, l2Index := 1, l3Index := 0 } =
    { info with l2Index := 1, l1Index := 1 }
  rw [← hz.l3]

theorem planSteps_one_l3 (h3 : info.l3Index = 0) (hcnt : k * g.fan ^ 1 ≤ cnt) :
    (planSteps g 1 a cnt out k info).2.l3Index = 0 := by
  induction k with
  | zero => exact h3
  | succ k ih =>
    rw [succ_mul] at hcnt
    have hne' : (a + k * g.fan ^ (0 + 1)) % g.fan ≠ (out + k * g.fan ^ (0 + 1)) % g.fan := by
      rwa [add_mul_fan_mod, add_mul_fan_mod]
    rw [planSteps_succ_info, planEntry_one_full hne' (ih (by omega))
      (by rw [pow_one] at hcnt ⊢; omega)]

theorem uncutTable_one (h3 : info.l3Index = 0) : UncutTable g 1 a cnt out info := by
  intro k hk _
  have hkc := (lt_blocks_iff (g.fan_pow_pos 1)).mp hk
  have hl3 : getPgtIndex (planSteps g 1 a cnt out k info).2 (3 - 0) = 0 :=
    planSteps_one_l3 hne h3 hkc.le
  refine ⟨.inl ?_, fun _ _ => trivial⟩
  rw [hl3, zero_mul]

theorem uncut_two (h3 : info.l3Index = 0)
    (hcut : info.l2Index = 0 ∨ cnt ≤ g.fan ^ 2 - info.l2Index * g.fan) :
    Uncut g 2 a cnt out info := by
  intro _
  constructor
  · rcases hcut with h2 | hle
    · left
      show info.l2Index * _ = 0
      rw [h2, zero_mul]
    · exact .inr hle
  · have hinc : (incrementPgtIndex info 1 g.fan).l3Index = 0 := by
      rw [incrementPgtIndex]
      split <;> exact h3
    exact uncutTable_one hne hinc

theorem planSteps_two_info (hz : Zero info) (hcnt : g.fan ^ 2 ≤ cnt) :
    (planSteps g 2 a cnt out 1 info).2 = { info with l2Index := 1, l1Index := 1 } := by
  have hsub : Pgt.subCount g 1 cnt info = g.fan ^ 2 := by
    rw [hz.subCount, Nat.min_eq_right hcnt]
  have hentry : (planEntry g 2 a cnt out info).2 = { info with l2Index := 1, l1Index := 1 } := by
    rw [planEntry_table (not_block hne), hsub, hz.increment (succ_ne_zero 1)]
    exact planTable_one_full hne hz
  rw [planSteps_succ_info, zero_mul]
  exact hentry

theorem uncutTable_two (hz : Zero info)
    (hcnt : cnt ≤ 2 * g.fan ^ 2 - g.fan) : UncutTable g 2 a cnt out info := by
  intro k hk
  have hkc := (lt_blocks_iff (g.fan_pow_pos 2)).mp hk
  have hne' : (a + k * g.fan ^ (1 + 1)) % g.fan ≠ (out + k * g.fan ^ (1 + 1)) % g.fan := by
    rwa [add_mul_fan_mod, add_mul_fan_mod]
  have hk2 : k < 2 := by
    by_contra hge
    have hmul : 2 * g.fan ^ 2 ≤ k * g.fan ^ 2 := Nat.mul_le_mul_right _ (by omega)
    omega
  match k, hk2 with
  | 0, _ => exact uncut_two hne' hz.l3 (.inl hz.l2)
  | 1, _ =>
    rw [planSteps_two_info hne hz (by omega)]
    have h3 : ({ info with l2Index := 1, l1Index := 1 } : AcsPgt).l3Index = 0 := hz.l3
    apply uncut_two hne' h3
    right
    show cnt - 1 * g.fan ^ 2 ≤ g.fan ^ 2 - 1 * g.fan
    omega

end

/-- Ranges with different offsets are not cut before the second block of level 1 is nearly full. -/
theorem uncutTable_misaligned (hn : n ≤ 3) (hne : a % g.fan ≠ out % g.fan) (hz : Zero info)
    (hcnt : n ≤ 1 ∨ cnt ≤ 2 * g.fan ^ 2 - g.fan) : UncutTable g n a cnt out info := by
  match n, hn with
  | 0, _ => exact fun _ _ => trivial
  | 1, _ => exact uncutTable_one hne hz.l3
  | 2, _ => exact uncutTable_two hne hz (hcnt.resolve_left (by decide))
  | 3, _ =>
    have hcnt := hcnt.resolve_left (by decide)
    have hle : 2 * g.fan ^ 2 ≤ g.fan ^ 3 := by
      rw [mul_comm]
      exact Nat.mul_le_mul_left _ g.two_le_fan
    intro k hk
    have hkc := (lt_blocks_iff (g.fan_pow_pos 3)).mp hk
    have hk0 : k = 0 := by
      by_contra hpos
      have hmul : g.fan ^ 3 ≤ k * g.fan ^ 3 := Nat.le_mul_of_pos_left _ (Nat.pos_of_ne_zero hpos)
      omega
    rw [hk0, zero_mul, Nat.sub_zero]
    intro _
    refine ⟨.inl (hz.offset g 2), ?_⟩
    have hsub : Pgt.subCount g 2 cnt (planSteps g 3 a cnt out 0 info).2 = cnt := by
      show Pgt.subCount g 2 cnt info = cnt
      rw [hz.subCount, Nat.min_eq_left (show cnt ≤ g.fan ^ 3 by omega)]
    rw [hsub]
    exact uncutTable_two hne hz hcnt

end ServerSoc.Pgt
