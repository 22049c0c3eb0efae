/-
What a call leaves alone.

A region that starts at a block or stays inside one at every level only has entries for its
own pages.  A block that was there is replaced by a table when the region has a part of it,
and the other pages of the block are lost.
-/
import ServerSoc.Pgt.Call

namespace ServerSoc.Pgt

open Base Radix Nat

/-! ## The plan of a region -/

def InRange (a cnt x : Nat) : Prop := a ≤ x ∧ x < a + cnt

variable {g : Granule}

section

variable {n a cnt out x : Nat} {info : AcsPgt}

theorem within_planTable (hfit : InBlock (g.fan ^ (n + 1)) a cnt)
    (hentry : ∀ k < blocks (g.fan ^ n) cnt, x / g.fan ^ n = (a + k * g.fan ^ n) / g.fan ^ n →
      Within g.fan x (InRange (a + k * g.fan ^ n) (cnt - k * g.fan ^ n)) n
        (planLoop g n a cnt out k (planSteps g n a cnt out k info).2).1)
    (hx : x / g.fan ^ (n + 1) = a / g.fan ^ (n + 1)) :
    Within g.fan x (InRange a cnt)
      n ((planTable g n a cnt out info).1 (x / g.fan ^ n % g.fan)) := by
  have hb := g.fan_pow_pos n
  rw [planTable_at hfit hx]
  split_ifs with hin
  · have hk : x / g.fan ^ n - a / g.fan ^ n < blocks (g.fan ^ n) cnt := by omega
    have hkc := (lt_blocks_iff hb).mp hk
    refine (hentry _ hk ?_).mono fun y hy => ⟨?_, ?_⟩
    · rw [add_mul_div_right _ _ hb, Nat.add_sub_cancel' hin.1]
    · exact (Nat.le_add_right _ _).trans hy.1
    · have hlt := hy.2
      omega
  · trivial

theorem within_planEntry_table (hcnt : 0 < cnt) (hx : x / g.fan ^ (n + 1) = a / g.fan ^ (n + 1))
    (hblock : ¬ IsBlock g (n + 1) a cnt out)
    (hsub : Within g.fan x (InRange a (subCount g n cnt info)) n
      ((planTable g n a (subCount g n cnt info) out (incrementPgtIndex info (3 - (n + 1)) g.fan)).1
        (x / g.fan ^ n % g.fan))) :
    Within g.fan x (InRange a cnt) (n + 1) (planEntry g (n + 1) a cnt out info).1 := by
  rw [planEntry_table hblock]
  refine ⟨⟨a, ⟨le_rfl, by omega⟩, hx.symm⟩, hsub.mono (fun y hy => ?_)⟩
  exact ⟨hy.1, hy.2.trans_le (Nat.add_le_add_left (min_le_left _ _) a)⟩

theorem within_planEntry (hst : Straight g n a cnt) (hcnt : 0 < cnt)
    (hx : x / g.fan ^ n = a / g.fan ^ n) :
    Within g.fan x (InRange a cnt) n (planEntry g n a cnt out info).1 := by
  induction n generalizing a cnt out info with
  | zero =>
    rw [pow_zero, Nat.div_one, Nat.div_one] at hx
    rw [hx]
    exact ⟨le_rfl, by omega⟩
  | succ n ih =>
    by_cases hblock : IsBlock g (n + 1) a cnt out
    · rw [planEntry_block hblock]
      have hdiv := div_add_mod x (g.fan ^ (n + 1))
      have hmod := mod_lt x (g.fan_pow_pos (n + 1))
      rw [hx, Nat.mul_div_cancel' hblock.1] at hdiv
      generalize x % g.fan ^ (n + 1) = r at hdiv hmod
      constructor <;> omega
    · have hle : subCount g n cnt info ≤ cnt := min_le_left _ _
      have hfit : InBlock (g.fan ^ (n + 1)) a (subCount g n cnt info) := by
        rcases hst.start with hd | hin
        · exact inBlock_of_dvd hd ((min_le_right _ _).trans (sub_le _ _))
        · exact hin.mono hle
      refine within_planEntry_table hcnt hx hblock (within_planTable hfit (fun k hk hxk => ?_) hx)
      have hkc := (lt_blocks_iff (g.fan_pow_pos n)).mp hk
      exact ih ((hst.lower.mono hle).step hk) (by omega) hxk

theorem within_plan (hst : Straight g n a cnt) (hfit : InBlock (g.fan ^ (n + 1)) a cnt)
    (hx : x / g.fan ^ (n + 1) = a / g.fan ^ (n + 1)) :
    Within g.fan x (InRange a cnt)
      n ((planTable g n a cnt out info).1 (x / g.fan ^ n % g.fan)) := by
  refine within_planTable hfit (fun k hk hxk => ?_) hx
  have hkc := (lt_blocks_iff (g.fan_pow_pos n)).mp hk
  exact within_planEntry (hst.step hk) (by omega) hxk

/-- Only entries of the range are written: it is straight, or the part of it that the counters leave
stays inside one entry, and so on below. -/
def StaysInside (g : Granule) (a : Nat) : Nat → Nat → AcsPgt → Prop
  | 0, _, _ => True
  | n + 1, cnt, info =>
    Straight g (n + 1) a cnt ∨
      cnt ≤ g.fan ^ (n + 1) ∧ InBlock (g.fan ^ (n + 1)) a (subCount g n cnt info) ∧
        StaysInside g a n (subCount g n cnt info) (incrementPgtIndex info (3 - (n + 1)) g.fan)

theorem StaysInside.within (h : StaysInside g a n cnt info)
    (hfit : InBlock (g.fan ^ (n + 1)) a cnt) (hx : x / g.fan ^ (n + 1) = a / g.fan ^ (n + 1)) :
    Within g.fan x (InRange a cnt)
      n ((planTable g n a cnt out info).1 (x / g.fan ^ n % g.fan)) := by
  induction n generalizing cnt info with
  | zero => exact within_plan (straight_of_dvd (Nat.one_dvd a)) hfit hx
  | succ n ih =>
    rcases h with hst | ⟨hle, hsub, h⟩
    · exact within_plan hst hfit hx
    · refine within_planTable hfit (fun k hk hxk => ?_) hx
      have hpos := g.fan_pow_pos (n + 1)
      obtain rfl : k = 0 := Nat.lt_one_iff.mp (hk.trans_le (blocks_le hpos (by omega)))
      have hcnt := (lt_blocks_iff hpos).mp hk
      simp only [planLoop, zero_mul] at hcnt hxk ⊢
      by_cases hd : g.fan ^ (n + 1) ∣ a
      · exact within_planEntry (straight_of_dvd hd) hcnt hxk
      · exact within_planEntry_table hcnt hxk (fun hblock => hd hblock.1) (ih h hsub hxk)

end

/-! ## A call -/

def InRegion (r : MemoryRegion) (va : Nat) : Prop :=
  r.virtualAddress ≤ va ∧ va < r.virtualAddress + r.length

def LeafApart (g : Granule) (mem : Nat → Nat) (n base : Nat) (r : MemoryRegion) (va : Nat) : Prop :=
  ∀ w m, hwWalk g mem n base va = some (w, m) →
    ∀ va', InRegion r va' → va' / g.pageSize / g.fan ^ m ≠ va / g.pageSize / g.fan ^ m

section

variable {ias oas va : Nat} {r : MemoryRegion}

theorem RegionOk.inRange_iff (hr : RegionOk g ias oas r) (va : Nat) :
    InRange (firstPage g r) (pageCount g r) (va / g.pageSize) ↔ InRegion r va := by
  have hps := g.pageSize_pos
  rw [InRange, InRegion, ← hr.virtual_eq, ← hr.length_eq, ← add_mul,
    Nat.le_div_iff_mul_le hps, Nat.div_lt_iff_lt_mul hps]

theorem Format.page_lt (hf : Format g ias) {x : Nat}
    (hx : x < 2 ^ (ias - (topHeight g ias * g.bits + g.log2)) * g.fan ^ topHeight g ias) :
    x < g.fan ^ (topHeight g ias + 1) := by
  have hle := Nat.mul_le_mul_right (g.fan ^ topHeight g ias) hf.entries_le
  rw [pow_succ, mul_comm (g.fan ^ topHeight g ias)]
  exact hx.trans_le hle

theorem Format.va_page_lt (hf : Format g ias) (hva : va < 2 ^ ias) :
    va / g.pageSize < g.fan ^ (topHeight g ias + 1) := by
  apply hf.page_lt
  rw [Nat.div_lt_iff_lt_mul g.pageSize_pos, ← hf.pages_eq]
  exact hva

theorem RegionOk.inBlock_top (hr : RegionOk g ias oas r) (hf : Format g ias) :
    InBlock (g.fan ^ (topHeight g ias + 1)) (firstPage g r) (pageCount g r) := by
  have hin := hr.inside_pages hf
  have hpos := hr.count_pos
  have hlast := hf.page_lt (x := firstPage g r + pageCount g r - 1) (by omega)
  rw [InBlock, mod_eq_of_lt (by omega)]
  omega

theorem RegionOk.div_top (hr : RegionOk g ias oas r) (hf : Format g ias) (hva : va < 2 ^ ias) :
    va / g.pageSize / g.fan ^ (topHeight g ias + 1) =
      firstPage g r / g.fan ^ (topHeight g ias + 1) := by
  have hin := hr.inside_pages hf
  have hpos := hr.count_pos
  rw [div_eq_of_lt (hf.va_page_lt hva), div_eq_of_lt (hf.page_lt (by omega))]

variable {P : Pages g ias} {s s' : State} {bases : List Nat} {base fuel : Nat}
  {desc : PgtDescriptor}

/-- In a run of the program, a call that updates a table for a region leaves the translation of
the addresses outside the region alone, if the region starts at a block or stays inside one at
every level, as far as the counters let it be filled.  The other pages of a block that the region
has a part of are the exception. -/
theorem valPgtCreate_frame (hf : Format g ias) (hs : Reachable P oas s bases)
    (hbase : base ∈ bases) (hr : RegionOk g ias oas r)
    (hfuel : (topHeight g ias + 1) * (g.fan + 1) ≤ fuel)
    (hcall : valPgtCreate g.pageSize P.alloc fuel [r] ⟨base, ias, oas⟩ s = some (0, desc, s'))
    (hst : StaysInside g (firstPage g r) (topHeight g ias) (pageCount g r) (initValues s).info)
    (va : Nat) (hva : va < 2 ^ ias) (hout : ¬ InRegion r va)
    (hapart : LeafApart g s.mem (topHeight g ias) base r va) :
    hwWalk g s'.mem (topHeight g ias) base va = hwWalk g s.mem (topHeight g ias) base va := by
  obtain ⟨h, trees, ht⟩ := hs.tables hf
  obtain ⟨i, hi⟩ := List.mem_iff_getElem?.mp hbase
  obtain ⟨-, h', ht', -⟩ := (ht.update hf hr hfuel hi).success hcall
  have hold := (ht.enc i base hi).hwWalk_eq ht.owned.allocated hf.lt.le hf.le va
  have hnew := (ht'.enc i base hi).hwWalk_eq ht'.owned.allocated hf.lt.le hf.le va
  rw [ht.owned.mem] at hold
  rw [ht'.owned.mem, Function.update_self] at hnew
  rw [hold, hnew]
  have hwithin : Within g.fan (va / g.pageSize) (InRange (firstPage g r) (pageCount g r))
      (topHeight g ias) ((regionPlan g ias r (initValues s).info).1
        (va / g.pageSize / g.fan ^ topHeight g ias % g.fan)) :=
    hst.within (hr.inBlock_top hf) (hr.div_top hf hva)
  apply hwithin.leafAt_overlay
  · rwa [hr.inRange_iff]
  · intro l hl y hy
    -- the first address of the page is in the region
    have hy' : InRegion r (y * g.pageSize) := by
      rw [← hr.inRange_iff, Nat.mul_div_cancel _ g.pageSize_pos]
      exact hy
    have hne := hapart l.1 l.2 (hold.trans hl) _ hy'
    rwa [Nat.mul_div_cancel _ g.pageSize_pos] at hne

end

/-! ## Two calls -/

def smallPages : Pages .k4 22 where
  alloc k := if k < 16 then some (0x10000 + 0x1000 * k) else none
  aligned := by
    intro k p h
    obtain ⟨-, heq⟩ := Option.ite_none_right_eq_some.mp h
    cases heq
    exact Nat.dvd_add (by decide) (Nat.dvd_mul_right _ _)
  pos := by
    intro k p h
    obtain ⟨-, heq⟩ := Option.ite_none_right_eq_some.mp h
    cases heq
    omega
  below := by
    intro k p h
    obtain ⟨hk, heq⟩ := Option.ite_none_right_eq_some.mp h
    cases heq
    omega
  inj := by
    intro j k p hj hk
    obtain ⟨-, hp⟩ := Option.ite_none_right_eq_some.mp hj
    obtain ⟨-, hp'⟩ := Option.ite_none_right_eq_some.mp hk
    have heq := Option.some.inj (hp.trans hp'.symm)
    omega

def smallCall (r : MemoryRegion) (base : Nat) (s : State) : Option (Nat × PgtDescriptor × State) :=
  valPgtCreate Granule.k4.pageSize smallPages.alloc 1026 [r] ⟨base, 22, 32⟩ s

def afterCall (r : MemoryRegion) (base : Nat) (s : State) : State :=
  (smallCall r base s).elim s fun res => res.2.2

theorem smallCall_eq {r : MemoryRegion} {base : Nat} {s : State} {desc : PgtDescriptor}
    (h : (smallCall r base s).map (fun res => (res.1, res.2.1)) = some (0, desc)) :
    smallCall r base s = some (0, desc, afterCall r base s) := by
  unfold afterCall
  cases hres : smallCall r base s with
  | none =>
    rw [hres] at h
    cases h
  | some res =>
    obtain ⟨status, desc', s'⟩ := res
    rw [hres] at h
    cases h
    rfl

/-- The first page, the page behind it, and a region over the end of a block of 2M. -/
def pageZero : MemoryRegion := ⟨0x100000, 0, 0x1000, 0⟩
def pageOne : MemoryRegion := ⟨0x300000, 0x1000, 0x1000, 0⟩
def crossing : MemoryRegion := ⟨0x200000, 0x1ff000, 0x2000, 0⟩

def smallTable : State := afterCall pageZero 0 (firstState fun _ => 0)

theorem regionOk_pageZero : RegionOk .k4 22 32 pageZero := by
  constructor <;> decide

theorem reachable_smallTable : Reachable smallPages 32 smallTable [0x10000] :=
  .create pageZero (.start fun _ => 0) regionOk_pageZero (by decide)
    (show smallCall pageZero 0 (firstState fun _ => 0) =
      some (0, ⟨0x10000, 22, 32⟩, smallTable) from smallCall_eq (by decide +kernel))

theorem valPgtCreate_frame_pageOne :
    hwWalk .k4 smallTable.mem 1 0x10000 0 = some (0x100003, 0) ∧
      hwWalk .k4 (afterCall pageOne 0x10000 smallTable).mem 1 0x10000 0 = some (0x100003, 0) := by
  have hwalk : hwWalk .k4 smallTable.mem 1 0x10000 0 = some (0x100003, 0) := by decide +kernel
  have hcall : smallCall pageOne 0x10000 smallTable =
      some (0, ⟨0x10000, 22, 32⟩, afterCall pageOne 0x10000 smallTable) :=
    smallCall_eq (by decide +kernel)
  have hapart : LeafApart .k4 smallTable.mem (topHeight .k4 22) 0x10000 pageOne 0 := by
    intro w m hleaf va' hin
    cases hwalk.symm.trans hleaf
    have hpage : 1 ≤ va' / Granule.k4.pageSize :=
      (Nat.le_div_iff_mul_le Granule.k4.pageSize_pos).mpr hin.1
    rw [pow_zero, Nat.zero_div]
    omega
  have hframe := valPgtCreate_frame ⟨by decide, by decide⟩ reachable_smallTable
    (List.mem_singleton_self _) (by constructor <;> decide) (by decide) hcall
    (.inr ⟨by decide, by decide +kernel, trivial⟩) 0 (by decide) (by unfold InRegion; decide) hapart
  exact ⟨hwalk, hframe.trans hwalk⟩

/-- The region over the end of the block takes the first page of the table from its mapping. -/
theorem valPgtCreate_changes_outside :
    Reachable smallPages 32 smallTable [0x10000] ∧ RegionOk .k4 22 32 crossing ∧
      smallCall crossing 0x10000 smallTable =
        some (0, ⟨0x10000, 22, 32⟩, afterCall crossing 0x10000 smallTable) ∧
      ¬ InRegion crossing 0 ∧
      hwWalk .k4 smallTable.mem 1 0x10000 0 = some (0x100003, 0) ∧
      hwWalk .k4 (afterCall crossing 0x10000 smallTable).mem 1 0x10000 0 = some (0x201003, 0) := by
  refine ⟨reachable_smallTable, by constructor <;> decide, smallCall_eq (by decide +kernel),
    ?_, ?_, ?_⟩
  · unfold InRegion
    decide
  · decide +kernel
  · decide +kernel

end ServerSoc.Pgt
