/-
One region in a new table.

On the first call of the program the table maps the addresses of the region, and no other, if three
things hold: the region starts at a block or stays inside one at every level, the counters do not
cut it, and its output addresses have 52 bits.  Each of the three is needed (`lt_leaf_blockEnd`,
`gap_planTable_two`).
-/
import ServerSoc.Pgt.Cuts
import ServerSoc.Pgt.Frame

namespace ServerSoc.Pgt

open Base Radix Nat Option

/-! ## Leaves -/

variable {g : Granule} {n a cnt out : Nat} {info : AcsPgt}

section

variable {j x : Nat} {l : Nat × Nat}

theorem planTable_cases (g : Granule) (n a cnt out : Nat) (info : AcsPgt) (i : Nat) :
    (planTable g n a cnt out info).1 i = .empty ∨ ∃ k < blocks (g.fan ^ n) cnt,
      i = (a / g.fan ^ n + k) % g.fan ∧ (planTable g n a cnt out info).1 i =
        (planLoop g n a cnt out k (planSteps g n a cnt out k info).2).1 :=
  sweep_cases _ _

/-- The leaf takes `x` to a page of the range at `out`. -/
def LeafIn (g : Granule) (x out cnt : Nat) (l : Nat × Nat) : Prop :=
  g.fan ^ l.2 ∣ l.1 ∧ out ≤ l.1 + x % g.fan ^ l.2 ∧ l.1 + x % g.fan ^ l.2 < out + cnt

theorem LeafIn.of_entries {i : Nat} (hentry : ∀ {a cnt out info}, 0 < cnt →
      leafAt g.fan x n (planEntry g n a cnt out info).1 = some l → LeafIn g x out cnt l)
    (h : leafAt g.fan x n ((planTable g n a cnt out info).1 i) = some l) :
    LeafIn g x out cnt l := by
  rcases planTable_cases g n a cnt out info i with hempty | ⟨k, hk, -, heq⟩
  · rw [hempty] at h
    cases h
  · rw [lt_blocks_iff (g.fan_pow_pos n)] at hk
    rw [heq] at h
    obtain ⟨hdvd, hlo, hhi⟩ := hentry (Nat.sub_pos_of_lt hk) h
    exact ⟨hdvd, by omega, by omega⟩

theorem leaf_planEntry (hcnt : 0 < cnt)
    (h : leafAt g.fan x n (planEntry g n a cnt out info).1 = some l) : LeafIn g x out cnt l := by
  induction n generalizing a cnt out info with
  | zero =>
    cases h
    rw [LeafIn, pow_zero]
    exact ⟨Nat.one_dvd _, by omega, by omega⟩
  | succ n ih =>
    by_cases hblock : IsBlock g (n + 1) a cnt out
    · rw [planEntry_block hblock] at h
      cases h
      have hlt := (mod_lt x (g.fan_pow_pos (n + 1))).trans_le hblock.2.2
      exact ⟨hblock.2.1, Nat.le_add_right _ _, Nat.add_lt_add_left hlt _⟩
    · rw [planEntry_table hblock] at h
      obtain ⟨hdvd, hlo, hhi⟩ := LeafIn.of_entries ih h
      exact ⟨hdvd, hlo, hhi.trans_le (Nat.add_le_add_left (min_le_left _ _) _)⟩

theorem leaf_planTable {i : Nat}
    (h : leafAt g.fan x n ((planTable g n a cnt out info).1 i) = some l) : LeafIn g x out cnt l :=
  .of_entries leaf_planEntry h

def blockEnd (g : Granule) (j a : Nat) : Nat := (a / g.fan ^ j + 1) * g.fan ^ j

theorem blockEnd_sub_lt (hd : ¬ g.fan ^ j ∣ a) :
    a < blockEnd g j a ∧ blockEnd g j a - a < g.fan ^ j := by
  have hlt := mod_lt a (g.fan_pow_pos j)
  have hdiv := div_add_mod' a (g.fan ^ j)
  rw [blockEnd, add_mul]
  omega

/-- A range that starts inside a block never gets to the start of the next one: where the loop
takes the entry of that page, it is a whole block further. -/
theorem lt_leaf_blockEnd (hj : j ≤ n) (hd : ¬ g.fan ^ j ∣ a)
    (h :
      leafAt g.fan (blockEnd g j a)
        n ((planTable g n a cnt out info).1 (blockEnd g j a / g.fan ^ n % g.fan)) = some l) :
    out + (blockEnd g j a - a) < l.1 + blockEnd g j a % g.fan ^ l.2 := by
  have hend := (blockEnd_sub_lt hd).2
  have hpow := Nat.pow_le_pow_right g.fan_pos hj
  induction n generalizing cnt info with
  | zero =>
    obtain rfl : j = 0 := le_zero.mp hj
    exact absurd (Nat.one_dvd a) hd
  | succ n ih =>
    rcases planTable_cases g (n + 1) a cnt out info (blockEnd g j a / g.fan ^ (n + 1) % g.fan) with
      hempty | ⟨k, hk, hindex, heq⟩
    · rw [hempty] at h
      cases h
    · rw [heq] at h
      cases k with
      | zero =>
        rcases Nat.lt_or_eq_of_le hj with hlt | rfl
        · -- the page is in the first entry, which is a table
          have hnot : ¬ g.fan ^ (n + 1) ∣ a :=
            fun hdvd => hd (Nat.dvd_trans (Nat.pow_dvd_pow _ hj) hdvd)
          simp only [planLoop, zero_mul, add_zero] at h
          rw [planEntry_table (fun hb => hnot hb.1)] at h
          exact ih (by omega) h (Nat.pow_le_pow_right g.fan_pos (by omega))
        · rw [blockEnd, Nat.mul_div_cancel _ (g.fan_pow_pos _)] at hindex
          cases add_mod_inj g.two_le_fan g.fan_pos hindex
      | succ k =>
        rw [lt_blocks_iff (g.fan_pow_pos _)] at hk
        obtain ⟨-, hlo, -⟩ := leaf_planEntry (Nat.sub_pos_of_lt hk) h
        rw [succ_mul] at hlo
        omega

theorem planTable_hit (hfit : cnt ≤ g.fan ^ (n + 1)) {k : Nat} (hk : k < blocks (g.fan ^ n) cnt) :
    (planTable g n a cnt out info).1 ((a / g.fan ^ n + k) % g.fan) =
      (planLoop g n a cnt out k (planSteps g n a cnt out k info).2).1 := by
  refine sweep_hit (blocks_le (g.fan_pow_pos n) ?_) hk
  rw [mul_comm]
  exact hfit

theorem planTable_first (hfit : cnt ≤ g.fan ^ (n + 1)) (hcnt : 0 < cnt) :
    (planTable g n a cnt out info).1 (a / g.fan ^ n % g.fan) =
      (planEntry g n a cnt out info).1 := by
  have hpos : 0 < blocks (g.fan ^ n) cnt := by
    rw [lt_blocks_iff (g.fan_pow_pos n), zero_mul]
    exact hcnt
  have hhit : (planTable g n a cnt out info).1 ((a / g.fan ^ n + 0) % g.fan) =
      (planLoop g n a cnt out 0 (planSteps g n a cnt out 0 info).2).1 := planTable_hit hfit hpos
  rw [planLoop, zero_mul] at hhit
  exact hhit

end

/-! ## A gap in the region -/

theorem gap_planTable_two (hne : a % g.fan ≠ out % g.fan) (hz : Zero info) (ha : g.fan ^ 2 ∣ a)
    (hcnt : 2 * g.fan ^ 2 - g.fan < cnt) (hfit : cnt ≤ g.fan ^ 3) :
    leafAt g.fan (a + (2 * g.fan ^ 2 - g.fan)) 2 ((planTable g 2 a cnt out info).1
      ((a + (2 * g.fan ^ 2 - g.fan)) / g.fan ^ 2 % g.fan)) = none := by
  have hsq : g.fan ≤ g.fan ^ 2 := by
    rw [Nat.pow_two]
    exact Nat.le_mul_of_pos_left _ g.fan_pos
  have hfan := g.fan_pos
  have hpage : a + (2 * g.fan ^ 2 - g.fan) = a + 1 * g.fan ^ 2 + (g.fan ^ 2 - g.fan) := by omega
  have ha' : g.fan ^ 2 ∣ a + 1 * g.fan ^ 2 := Nat.dvd_add ha (Nat.dvd_mul_left _ _)
  have hdiv : (a + (2 * g.fan ^ 2 - g.fan)) / g.fan ^ 2 = (a + 1 * g.fan ^ 2) / g.fan ^ 2 := by
    rw [hpage, Nat.add_div_of_dvd_right ha',
      div_eq_of_lt (show g.fan ^ 2 - g.fan < g.fan ^ 2 by omega), add_zero]
  have hk : 1 < blocks (g.fan ^ 2) cnt := by
    rw [lt_blocks_iff (g.fan_pow_pos 2)]
    omega
  have hne' : (a + 1 * g.fan ^ (1 + 1)) % g.fan ≠ (out + 1 * g.fan ^ (1 + 1)) % g.fan := by
    rwa [add_mul_fan_mod, add_mul_fan_mod]
  -- the counter of level 2 is 1 and takes one block of level 2 off the table
  have hsub : subCount g 1 (cnt - 1 * g.fan ^ 2) { info with l2Index := 1, l1Index := 1 } =
      g.fan ^ 2 - g.fan := by
    show min (cnt - 1 * g.fan ^ 2) (g.fan ^ 2 - 1 * g.fan) = _
    omega
  have hindex : (a + (2 * g.fan ^ 2 - g.fan)) / g.fan ^ 2 % g.fan =
      (a / g.fan ^ 2 + 1) % g.fan := by
    rw [hdiv, add_mul_div_right _ _ (g.fan_pow_pos 2)]
  rw [hindex, planTable_hit hfit hk, planLoop, planSteps_two_info hne hz (by omega),
    planEntry_table (not_block hne'), hsub]
  have hst : Straight g 1 (a + 1 * g.fan ^ 2) (g.fan ^ 2 - g.fan) :=
    straight_of_dvd (Nat.dvd_trans (Nat.pow_dvd_pow _ (by decide)) ha')
  exact (within_plan hst (inBlock_of_dvd ha' (sub_le _ _)) hdiv).leafAt_none
    (fun hin => absurd hin.2 (by omega))

theorem gap_planTable (hn : n = 2 ∨ n = 3) (hst : Straight g n a cnt)
    (hne : a % g.fan ≠ out % g.fan) (hz : Zero info) (hcnt : 2 * g.fan ^ 2 - g.fan < cnt)
    (hfit : cnt ≤ g.fan ^ (n + 1)) :
    leafAt g.fan (a + (2 * g.fan ^ 2 - g.fan)) n ((planTable g n a cnt out info).1
      ((a + (2 * g.fan ^ 2 - g.fan)) / g.fan ^ n % g.fan)) = none := by
  have hsq : 2 * g.fan ≤ g.fan ^ 2 := by
    rw [Nat.pow_two]
    exact Nat.mul_le_mul_right _ g.two_le_fan
  have hfan := g.fan_pos
  have ha : g.fan ^ 2 ∣ a := by
    rcases hst 2 (by decide) (by omega) with hd | hin
    · exact hd
    · have hle : cnt ≤ g.fan ^ 2 := (Nat.le_add_left _ _).trans hin
      omega
  rcases hn with rfl | rfl
  · exact gap_planTable_two hne hz ha hcnt hfit
  · have hcube : 2 * g.fan ^ 2 ≤ g.fan ^ 3 := by
      rw [mul_comm]
      exact Nat.mul_le_mul_left _ g.two_le_fan
    -- the page is in the first entry of level 0
    have hdiv : (a + (2 * g.fan ^ 2 - g.fan)) / g.fan ^ 3 = a / g.fan ^ 3 := by
      rcases hst.start with hd | hin
      · rw [Nat.add_div_of_dvd_right hd, div_eq_of_lt
          (show 2 * g.fan ^ 2 - g.fan < g.fan ^ 3 by omega), add_zero]
      · exact hin.div_eq (g.fan_pow_pos 3) (by omega) (by omega)
    rw [hdiv, planTable_first hfit (by omega), planEntry_table (not_block hne), hz.subCount]
    exact gap_planTable_two hne hz ha (show 2 * g.fan ^ 2 - g.fan < min cnt (g.fan ^ 3) by omega)
      (min_le_right _ _)

/-! ## Words -/

/-- The bits of a leaf descriptor that are neither attributes nor its type. -/
def addressBits : Nat := (2 ^ 40 - 1) <<< 12

def outputAddress (g : Granule) (va : Nat) (l : Nat × Nat) : Nat :=
  (l.1 &&& addressBits) / (g.fan ^ l.2 * g.pageSize) * (g.fan ^ l.2 * g.pageSize) +
    va % (g.fan ^ l.2 * g.pageSize)

variable {o : Nat}

section

variable {attributes : Nat}

section

variable (hn : n ≤ 3) (hdvd : g.fan ^ n ∣ o) (hlt : o * g.pageSize < 2 ^ 52)
include hn hdvd hlt

theorem leafDesc_eq :
    leafDesc g attributes n o = (if n = 0 then 3 else 1) ||| o * g.pageSize ||| attributes := by
  have hbits : n * g.bits + g.log2 ≤ 64 := by
    have hlog := g.log2_le
    have hb : g.bits ≤ 13 := by cases g <;> decide
    have hmul := Nat.mul_le_mul hn hb
    omega
  have hlt64 : o * g.pageSize < 2 ^ 64 := hlt.trans (by decide)
  have hmul : 2 ^ (n * g.bits + g.log2) ∣ o * g.pageSize := by
    rw [g.fan_pow]
    exact Nat.mul_dvd_mul_right hdvd _
  rw [leafDesc, ← g.fan_pow, and_not_low hbits hlt64, Nat.div_mul_cancel hmul]

theorem leafDesc_attributes (hattr : pgtDescAttributes attributes = attributes) :
    pgtDescAttributes (leafDesc g attributes n o) = attributes := by
  have htype : (if n = 0 then 3 else 1) &&& pgtDescAttributesMask = 0 := by
    split <;> decide
  have hps : 2 ^ 12 ∣ o * g.pageSize := by
    apply Nat.dvd_mul_left_of_dvd
    cases g <;> decide
  obtain ⟨c, hc⟩ := hps
  have haddr : o * g.pageSize &&& pgtDescAttributesMask = 0 := by
    rw [pgtDescAttributesMask, and_or_distrib_left, and_mask, and_mask,
      div_eq_of_lt hlt, hc]
    have hlow : 2 ^ 12 * c / 2 ^ 2 % 2 ^ 10 = 0 := by omega
    rw [hlow]
    rfl
  rw [pgtDescAttributes] at hattr ⊢
  rw [leafDesc_eq hn hdvd hlt, and_or_distrib_right, and_or_distrib_right, htype, haddr,
    hattr, zero_or, zero_or]

theorem leafDesc_address (hattr : pgtDescAttributes attributes = attributes) :
    leafDesc g attributes n o &&& addressBits = o * g.pageSize := by
  have htype : (if n = 0 then 3 else 1) &&& addressBits = 0 := by
    split <;> decide
  have hattr0 : attributes &&& addressBits = 0 := by
    rw [← hattr, pgtDescAttributes, Nat.and_assoc,
      show pgtDescAttributesMask &&& addressBits = 0 by decide, and_zero]
  have hps : 2 ^ 12 ∣ o * g.pageSize := by
    apply Nat.dvd_mul_left_of_dvd
    cases g <;> decide
  have haddr : o * g.pageSize &&& addressBits = o * g.pageSize := by
    rw [addressBits, and_mask, mod_eq_of_lt, shiftLeft_eq, Nat.div_mul_cancel hps]
    rw [Nat.div_lt_iff_lt_mul (by decide)]
    exact hlt
  rw [leafDesc_eq hn hdvd hlt, and_or_distrib_right, and_or_distrib_right, htype, haddr,
    hattr0, zero_or, or_zero]

end

theorem outputAddress_lt (va : Nat) {l : Nat × Nat} (hl : l.2 * g.bits + g.log2 ≤ 52) :
    outputAddress g va l < 2 ^ 52 := by
  have hB : 0 < 2 ^ (l.2 * g.bits + g.log2) := Nat.two_pow_pos _
  have hX : l.1 &&& addressBits < 2 ^ 52 := and_le_right.trans_lt (by decide)
  have hsplit : 2 ^ 52 = 2 ^ (52 - (l.2 * g.bits + g.log2)) * 2 ^ (l.2 * g.bits + g.log2) := by
    rw [← pow_add, Nat.sub_add_cancel hl]
  rw [outputAddress, ← g.fan_pow]
  generalize 2 ^ (l.2 * g.bits + g.log2) = B at hB hsplit
  have hq : (l.1 &&& addressBits) / B < 2 ^ (52 - (l.2 * g.bits + g.log2)) := by
    rw [Nat.div_lt_iff_lt_mul hB, ← hsplit]
    exact hX
  have hmod := mod_lt va hB
  have hle := Nat.mul_le_mul_right B hq
  rw [succ_mul] at hle
  omega

end

/-! ## The first call -/

/-- The walk finds the addresses of the region, with their output addresses and attributes. -/
def MapsRegion (g : Granule) (ias : Nat) (r : MemoryRegion) (mem : Nat → Nat) (base : Nat) : Prop :=
  ∀ va, InRegion r va → ∃ l, hwWalk g mem (topHeight g ias) base va = some l ∧
    outputAddress g va l = r.physicalAddress + (va - r.virtualAddress) ∧
    pgtDescAttributes l.1 = r.attributes

structure MapsExactly (g : Granule) (ias : Nat) (r : MemoryRegion) (mem : Nat → Nat) (base : Nat) :
    Prop where
  inside : MapsRegion g ias r mem base
  outside : ∀ va < 2 ^ ias, ¬ InRegion r va → hwWalk g mem (topHeight g ias) base va = none

structure BuildsExactly (g : Granule) (ias : Nat) (r : MemoryRegion) : Prop where
  straight : Straight g (topHeight g ias) (firstPage g r) (pageCount g r)
  uncut : topHeight g ias ≤ 1 ∨ firstPage g r % g.fan = outPage g r % g.fan ∨
    pageCount g r ≤ 2 * g.fan ^ 2 - g.fan
  output : r.physicalAddress + r.length ≤ 2 ^ 52

section

variable {ias oas : Nat} {r : MemoryRegion} {va : Nat}

theorem zero_zero : Zero AcsPgt.zero := ⟨rfl, rfl, rfl⟩

def planLeaf (g : Granule) (ias : Nat) (r : MemoryRegion) (va : Nat) : Option (Nat × Nat) :=
  leafAt g.fan (va / g.pageSize) (topHeight g ias) ((regionPlan g ias r AcsPgt.zero).1
    (va / g.pageSize / g.fan ^ topHeight g ias % g.fan))

theorem RegionOk.va_lt (hr : RegionOk g ias oas r) (hin : InRegion r va) : va < 2 ^ ias :=
  hin.2.trans_le hr.inside

theorem BuildsExactly.planLeaf_map (hb : BuildsExactly g ias r) (hr : RegionOk g ias oas r)
    (hf : Format g ias) (hva : va < 2 ^ ias) :
    (planLeaf g ias r va).map (fun l => l.1 + va / g.pageSize % g.fan ^ l.2) =
      target (firstPage g r) (pageCount g r) (outPage g r) (va / g.pageSize) := by
  have huncut : UncutTable g (topHeight g ias) (firstPage g r) (pageCount g r) (outPage g r)
      AcsPgt.zero := by
    by_cases hcong : firstPage g r % g.fan = outPage g r % g.fan
    · exact uncutTable_aligned zero_zero hcong hb.straight
    · apply uncutTable_misaligned hf.topHeight_spec.1 hcong zero_zero
      rcases hb.uncut with h | h | h
      · exact .inl h
      · exact absurd h hcong
      · exact .inr h
  rw [planLeaf, ← find_eq]
  exact lookup_planTable_of_uncut hb.straight (hr.inBlock_top hf) huncut (hr.div_top hf hva)

section

variable (hr : RegionOk g ias oas r)
include hr

theorem outputAddress_leafDesc (hn : n ≤ 3) (hdvd : g.fan ^ n ∣ o)
    (hlt : o * g.pageSize < 2 ^ 52) (va : Nat) :
    outputAddress g va (leafDesc g r.attributes n o, n) =
      (o + va / g.pageSize % g.fan ^ n) * g.pageSize + va % g.pageSize := by
  have hmul : g.fan ^ n * g.pageSize ∣ o * g.pageSize := Nat.mul_dvd_mul_right hdvd _
  rw [outputAddress, leafDesc_address hn hdvd hlt hr.attributes, Nat.div_mul_cancel hmul,
    mul_comm (g.fan ^ n), mod_mul, add_mul, mul_comm g.pageSize]
  omega

theorem RegionOk.leaf_lt
    (hout : r.physicalAddress + r.length ≤ 2 ^ 52) (ho : o < outPage g r + pageCount g r) :
    o * g.pageSize < 2 ^ 52 := by
  rw [← hr.physical_eq, ← hr.length_eq, ← add_mul] at hout
  exact (Nat.mul_lt_mul_of_pos_right ho g.pageSize_pos).trans_le hout

theorem RegionOk.output_iff (hin : InRegion r va) (v : Nat) :
    v * g.pageSize + va % g.pageSize = r.physicalAddress + (va - r.virtualAddress) ↔
      v = outPage g r + (va / g.pageSize - firstPage g r) := by
  have hle : firstPage g r * g.pageSize ≤ va / g.pageSize * g.pageSize :=
    Nat.mul_le_mul_right _ ((hr.inRange_iff va).mpr hin).1
  have hdiv := div_add_mod' va g.pageSize
  have hval : (outPage g r + (va / g.pageSize - firstPage g r)) * g.pageSize =
      outPage g r * g.pageSize + (va / g.pageSize * g.pageSize - firstPage g r * g.pageSize) := by
    rw [add_mul, Nat.sub_mul]
  rw [← hr.virtual_eq, ← hr.physical_eq]
  constructor
  · intro h
    apply eq_of_mul_eq_mul_right g.pageSize_pos
    omega
  · rintro rfl
    omega

end

variable {mem : Nat → Nat} {base : Nat}

def Made (g : Granule) (ias : Nat) (r : MemoryRegion) (va : Nat) (l : Nat × Nat) : Prop :=
  ∃ info o, leafAt g.fan (va / g.pageSize) (topHeight g ias) ((regionPlan g ias r info).1
      (va / g.pageSize / g.fan ^ topHeight g ias % g.fan)) = some (o, l.2) ∧
    l.1 = leafDesc g r.attributes l.2 o

section

variable (hr : RegionOk g ias oas r) (hf : Format g ias)
include hr hf

section

variable (hm : MapsRegion g ias r mem base)
  (hmade : ∀ va l, hwWalk g mem (topHeight g ias) base va = some l → Made g ias r va l)
include hm hmade

theorem MapsRegion.output : r.physicalAddress + r.length ≤ 2 ^ 52 := by
  have hpos := hr.lengthPos
  obtain ⟨⟨w, m⟩, hl, hout, -⟩ := hm (r.virtualAddress + r.length - 1) ⟨by omega, by omega⟩
  obtain ⟨info, o, hleaf, -⟩ := hmade _ _ hl
  have hle : m ≤ topHeight g ias := leafAt_height_le hleaf
  have hmul := Nat.mul_le_mul_right g.bits hle
  have hbits := hf.topHeight_spec.2.1
  have hias := hf.le
  have hlt := outputAddress_lt (r.virtualAddress + r.length - 1) (l := (w, m))
    (show m * g.bits + g.log2 ≤ 52 by omega)
  omega

/-- Without the first condition the page behind the end of a block is not mapped, or to a page
further on. -/
theorem MapsRegion.straight : Straight g (topHeight g ias) (firstPage g r) (pageCount g r) := by
  intro j h1 hj
  by_contra hbad
  rw [not_or] at hbad
  obtain ⟨hd, hbeyond⟩ := hbad
  obtain ⟨hlow, -⟩ := blockEnd_sub_lt hd
  generalize hend : blockEnd g j (firstPage g r) = e at hlow
  have hin : InRegion r (e * g.pageSize) := by
    rw [← hr.inRange_iff, Nat.mul_div_cancel _ g.pageSize_pos]
    have hdiv := div_add_mod' (firstPage g r) (g.fan ^ j)
    rw [InBlock] at hbeyond
    rw [blockEnd, add_mul] at hend
    exact ⟨hlow.le, by omega⟩
  obtain ⟨⟨w, m⟩, hl, hout, -⟩ := hm _ hin
  obtain ⟨info, o, hleaf, hw⟩ := hmade _ _ hl
  obtain rfl : w = leafDesc g r.attributes m o := hw
  obtain ⟨hdvd, -, hless⟩ := leaf_planTable hleaf
  have hn := (leafAt_height_le hleaf).trans hf.topHeight_spec.1
  have hlt := hr.leaf_lt (hm.output hr hf hmade) ((Nat.le_add_right _ _).trans_lt hless)
  rw [outputAddress_leafDesc hr hn hdvd hlt, hr.output_iff hin] at hout
  rw [Nat.mul_div_cancel _ g.pageSize_pos] at hleaf hout
  subst hend
  have hbig := lt_leaf_blockEnd hj hd hleaf
  exact absurd hout (Nat.ne_of_gt hbig)

end

section

variable (hwalk : ∀ va, hwWalk g mem (topHeight g ias) base va =
  (planLeaf g ias r va).map fun l => (leafDesc g r.attributes l.2 l.1, l.2))
include hwalk

theorem BuildsExactly.mapsExactly (hb : BuildsExactly g ias r) : MapsExactly g ias r mem base := by
  constructor
  · intro va hin
    have hrange := (hr.inRange_iff va).mpr hin
    obtain ⟨l, hl, hpage⟩ := map_eq_some_iff.mp
      ((hb.planLeaf_map hr hf (hr.va_lt hin)).trans (if_pos hrange))
    obtain ⟨hdvd, -, hless⟩ := leaf_planTable hl
    have hn := (leafAt_height_le hl).trans hf.topHeight_spec.1
    have hlt := hr.leaf_lt hb.output ((Nat.le_add_right _ _).trans_lt hless)
    refine ⟨(leafDesc g r.attributes l.2 l.1, l.2), ?_, ?_, ?_⟩
    · rw [hwalk, hl, map_some]
    · rw [outputAddress_leafDesc hr hn hdvd hlt, hr.output_iff hin]
      exact hpage
    · exact leafDesc_attributes hn hdvd hlt hr.attributes
  · intro va hva hout
    have hrange : ¬ InRange (firstPage g r) (pageCount g r) (va / g.pageSize) :=
      fun hin => hout ((hr.inRange_iff va).mp hin)
    have hnone := map_eq_none_iff.mp ((hb.planLeaf_map hr hf hva).trans (if_neg hrange))
    rw [hwalk, hnone]
    rfl

variable (hm : MapsRegion g ias r mem base)
include hm

theorem MapsRegion.uncut (hst : Straight g (topHeight g ias) (firstPage g r) (pageCount g r)) :
    topHeight g ias ≤ 1 ∨ firstPage g r % g.fan = outPage g r % g.fan ∨
      pageCount g r ≤ 2 * g.fan ^ 2 - g.fan := by
  by_contra hbad
  rw [not_or, not_or] at hbad
  obtain ⟨hn, hne, hcnt⟩ := hbad
  have hn3 := hf.topHeight_spec.1
  have hgap := gap_planTable (by omega) hst hne
    zero_zero (Nat.lt_of_not_le hcnt) ((Nat.le_add_left _ _).trans (hr.inBlock_top hf))
  have hin : InRegion r ((firstPage g r + (2 * g.fan ^ 2 - g.fan)) * g.pageSize) := by
    rw [← hr.inRange_iff, Nat.mul_div_cancel _ g.pageSize_pos]
    exact ⟨Nat.le_add_right _ _, by omega⟩
  obtain ⟨l, hl, -⟩ := hm _ hin
  have hnone : planLeaf g ias r ((firstPage g r + (2 * g.fan ^ 2 - g.fan)) * g.pageSize) =
      none := by
    rw [planLeaf, Nat.mul_div_cancel _ g.pageSize_pos]
    exact hgap
  rw [hwalk, hnone] at hl
  cases hl

theorem MapsRegion.buildsExactly : BuildsExactly g ias r := by
  have hmade : ∀ va l, hwWalk g mem (topHeight g ias) base va = some l → Made g ias r va l := by
    intro va l hl
    rw [hwalk] at hl
    obtain ⟨l', hl', rfl⟩ := map_eq_some_iff.mp hl
    exact ⟨AcsPgt.zero, l'.1, hl', rfl⟩
  have hst := hm.straight hr hf hmade
  exact ⟨hst, hm.uncut hr hf hwalk hst, hm.output hr hf hmade⟩

end

end

theorem Pages.format (P : Pages g ias) (hias : ias ≤ 48) {k p : Nat} (hp : P.alloc k = some p) :
    Format g ias := by
  refine ⟨?_, hias⟩
  have hle := le_of_dvd (P.pos k p hp) (P.aligned k p hp)
  exact (Nat.pow_lt_pow_iff_right (by decide)).mp (hle.trans_lt (P.below k p hp))

section

variable {P : Pages g ias} {s s' : State} {desc : PgtDescriptor} {fuel : Nat}

theorem Pages.format_of_create (P : Pages g ias) (hias : ias ≤ 48) {regions : List MemoryRegion}
    (hcall : valPgtCreate g.pageSize P.alloc fuel regions ⟨0, ias, oas⟩ s = some (0, desc, s')) :
    Format g ias := by
  cases hp : P.alloc s.allocated with
  | none => cases hcall.symm.trans (valPgtCreate_no_page hp fuel regions ias oas)
  | some p => exact P.format hias hp

theorem Tables.hwWalk_create {h : Heap (List Nat)} {trees : Nat → Nat → Radix}
    (ht : Tables P s h [] trees) (hf : Format g ias) (hr : RegionOk g ias oas r)
    (hfuel : (topHeight g ias + 1) * (g.fan + 1) ≤ fuel)
    (hcall : valPgtCreate g.pageSize P.alloc fuel [r] ⟨0, ias, oas⟩ s = some (0, desc, s'))
    (va : Nat) :
    hwWalk g s'.mem (topHeight g ias) desc.pgtBase va =
      (leafAt g.fan (va / g.pageSize) (topHeight g ias)
        ((regionPlan g ias r (initValues s).info).1
          (va / g.pageSize / g.fan ^ topHeight g ias % g.fan))).map
        fun l => (leafDesc g r.attributes l.2 l.1, l.2) := by
  cases hp : P.alloc s.allocated with
  | none => cases hcall.symm.trans (valPgtCreate_no_page hp fuel [r] ias oas)
  | some p =>
    obtain ⟨rfl, h', ht', -⟩ := (ht.create hf hr hfuel hp).success hcall
    have heq := (ht'.enc 0 p rfl).hwWalk_eq ht'.owned.allocated hf.lt.le hf.le va
    rw [ht'.owned.mem] at heq
    exact heq.trans (leafAt_overlay_empty _ _ _ _ _)

end

/-- The first call of a program, for a new table and one region: the table maps the region and
nothing else exactly when the region is straight, not cut and inside 52 bits. -/
theorem valPgtCreate_exact_iff (P : Pages g ias) (hias : ias ≤ 48) (hr : RegionOk g ias oas r)
    {fuel : Nat} (hfuel : (topHeight g ias + 1) * (g.fan + 1) ≤ fuel) {desc : PgtDescriptor}
    {s' : State}
    (hcall : valPgtCreate g.pageSize P.alloc fuel [r] ⟨0, ias, oas⟩ (firstState mem) =
      some (0, desc, s')) :
    MapsExactly g ias r s'.mem desc.pgtBase ↔ BuildsExactly g ias r := by
  have hf := P.format_of_create hias hcall
  have hwalk := (tables_start P mem).hwWalk_create hf hr hfuel hcall
  constructor
  · intro hm
    exact hm.inside.buildsExactly hr hf hwalk
  · intro hb
    exact hb.mapsExactly hr hf hwalk

end

def blockAndPage : MemoryRegion := ⟨0x400000, 0, 0x201000, 0⟩

theorem valPgtCreate_exact_blockAndPage :
    BuildsExactly .k4 22 blockAndPage ∧ MapsExactly .k4 22 blockAndPage
      (afterCall blockAndPage 0 (firstState fun _ => 0)).mem 0x10000 := by
  have hr : RegionOk .k4 22 32 blockAndPage := by constructor <;> decide
  have hb : BuildsExactly .k4 22 blockAndPage := by
    constructor
    · exact straight_of_dvd (Nat.dvd_zero _)
    · exact .inl le_rfl
    · decide
  have hcall : smallCall blockAndPage 0 (firstState fun _ => 0) = some (0, ⟨0x10000, 22, 32⟩, _) :=
    smallCall_eq (by decide +kernel)
  exact ⟨hb, (valPgtCreate_exact_iff smallPages (by decide) hr (by decide) hcall).mpr hb⟩

/-- The region over the end of a block: its second page is not mapped, and address 0 is. -/
theorem valPgtCreate_inexact_crossing :
    RegionOk .k4 22 32 crossing ∧
      smallCall crossing 0 (firstState fun _ => 0) =
        some (0, ⟨0x10000, 22, 32⟩, afterCall crossing 0 (firstState fun _ => 0)) ∧
      (InRegion crossing 0x200000 ∧
        hwWalk .k4 (afterCall crossing 0 (firstState fun _ => 0)).mem 1 0x10000 0x200000 = none) ∧
      ¬ InRegion crossing 0 ∧
      hwWalk .k4 (afterCall crossing 0 (firstState fun _ => 0)).mem 1 0x10000 0 =
        some (0x201003, 0) := by
  refine ⟨by constructor <;> decide, smallCall_eq (by decide +kernel), ⟨?_, ?_⟩, ?_, ?_⟩
  · unfold InRegion
    decide
  · decide +kernel
  · unfold InRegion
    decide
  · decide +kernel

end ServerSoc.Pgt
