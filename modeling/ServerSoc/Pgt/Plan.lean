/-
What the loops of `fill_translation_table` put into a table, counted in pages.

`planTable g n a cnt out info` is the table at height `n` (level `3 - n`) for the `cnt` pages from
`a` on, which go to the pages from `out` on, as a radix tree with the source's index counters.
-/
import ServerSoc.Base.Radix
import ServerSoc.Pgt.Create

namespace ServerSoc.Pgt

open Base Nat Radix

/-! ## Granules -/

inductive Granule where
  | k4 | k16 | k64
  deriving DecidableEq, Repr

def Granule.log2 : Granule → Nat
  | .k4 => 12
  | .k16 => 14
  | .k64 => 16

def Granule.bits : Granule → Nat
  | .k4 => 9
  | .k16 => 11
  | .k64 => 13

def Granule.pageSize (g : Granule) : Nat := 2 ^ g.log2

def Granule.fan (g : Granule) : Nat := 2 ^ g.bits

/-- The pages for which an index counts at height `n`.  At height 2 the 32-bit product
of the source is 0 for the larger granules. -/
def Granule.unit (g : Granule) : Nat → Nat
  | 0 => 1
  | 1 => g.fan
  | 2 => if g = .k4 then g.fan ^ 2 else 0
  | _ => 0

section

variable (g : Granule)
include g

theorem Granule.two_le_fan : 2 ≤ g.fan := by
  cases g <;> decide

theorem Granule.fan_pos : 0 < g.fan := Nat.lt_of_lt_of_le (by decide) g.two_le_fan

theorem Granule.fan_pow_pos (n : Nat) : 0 < g.fan ^ n := Nat.pow_pos g.fan_pos

theorem getEntriesPerLevel_pageSize : getEntriesPerLevel g.pageSize = g.fan := by
  cases g <;> decide

theorem getBlockSize_pageSize {n : Nat} (hn : n ≤ 2) :
    getBlockSize g.pageSize (3 - n) = g.unit n * g.pageSize := by
  match n with
  | 0 => cases g <;> decide
  | 1 => cases g <;> decide
  | 2 => cases g <;> decide
  | n + 3 => omega

end

/-! ## The plan -/

def blocks (b cnt : Nat) : Nat := (cnt + b - 1) / b

theorem lt_blocks_iff {b cnt k : Nat} (hb : 0 < b) : k < blocks b cnt ↔ k * b < cnt := by
  rw [blocks, lt_iff_add_one_le, Nat.le_div_iff_mul_le hb, add_mul]
  omega

/-- The rest of a range fills an entry of height `n` as a block. -/
abbrev IsBlock (g : Granule) (n a cnt out : Nat) : Prop :=
  g.fan ^ n ∣ a ∧ g.fan ^ n ∣ out ∧ g.fan ^ n ≤ cnt

def planEntry (g : Granule) : Nat → Nat → Nat → Nat → AcsPgt → Radix × AcsPgt
  | 0, _, _, out, info => (.leaf out, incrementPgtIndex info 3 g.fan)
  | n + 1, a, cnt, out, info =>
    if IsBlock g (n + 1) a cnt out then
      (.leaf out, incrementPgtIndex info (3 - (n + 1)) g.fan)
    else
      let cnt := min cnt (g.fan ^ (n + 1) - getPgtIndex info (3 - n) * g.unit n)
      let r := sweep g.fan
        (fun k => planEntry g n (a + k * g.fan ^ n) (cnt - k * g.fan ^ n) (out + k * g.fan ^ n))
        (a / g.fan ^ n) (blocks (g.fan ^ n) cnt) (incrementPgtIndex info (3 - (n + 1)) g.fan)
      (.node r.1, r.2)

def planLoop (g : Granule) (n a cnt out : Nat) (k : Nat) (info : AcsPgt) : Radix × AcsPgt :=
  planEntry g n (a + k * g.fan ^ n) (cnt - k * g.fan ^ n) (out + k * g.fan ^ n) info

def planSteps (g : Granule) (n a cnt out k : Nat) (info : AcsPgt) : (Nat → Radix) × AcsPgt :=
  sweep g.fan (planLoop g n a cnt out) (a / g.fan ^ n) k info

def planTable (g : Granule) (n a cnt out : Nat) (info : AcsPgt) : (Nat → Radix) × AcsPgt :=
  planSteps g n a cnt out (blocks (g.fan ^ n) cnt) info

variable {g : Granule} {n a cnt out : Nat} {info : AcsPgt}

theorem planEntry_block (h : IsBlock g (n + 1) a cnt out) :
    planEntry g (n + 1) a cnt out info = (.leaf out, incrementPgtIndex info (3 - (n + 1)) g.fan) :=
  if_pos h

theorem planEntry_leaf (ha : g.fan ^ n ∣ a) (ho : g.fan ^ n ∣ out) (hc : g.fan ^ n ∣ cnt)
    (hpos : 0 < cnt) : (planEntry g n a cnt out info).1 = .leaf out := by
  cases n with
  | zero => rfl
  | succ n => rw [planEntry_block ⟨ha, ho, le_of_dvd hpos hc⟩]

def subCount (g : Granule) (n cnt : Nat) (info : AcsPgt) : Nat :=
  min cnt (g.fan ^ (n + 1) - getPgtIndex info (3 - n) * g.unit n)

theorem planEntry_table (h : ¬ IsBlock g (n + 1) a cnt out) :
    planEntry g (n + 1) a cnt out info =
      (.node (planTable g n a (subCount g n cnt info) out
        (incrementPgtIndex info (3 - (n + 1)) g.fan)).1,
      (planTable g n a (subCount g n cnt info) out
        (incrementPgtIndex info (3 - (n + 1)) g.fan)).2) :=
  if_neg h

/-! ## Counters -/

structure Low (g : Granule) (info : AcsPgt) : Prop where
  l3 : info.l3Index < g.fan
  l2 : info.l2Index < g.fan

def L1Low (g : Granule) (info : AcsPgt) : Prop := g.unit 2 = 0 ∨ info.l1Index < g.fan

theorem low_zero (g : Granule) : Low g AcsPgt.zero := ⟨g.fan_pos, g.fan_pos⟩

theorem Low.increment (h : Low g info) (hn : n ≠ 0) :
    Low g (incrementPgtIndex info (3 - n) g.fan) := by
  match n, hn with
  | 1, _ =>
    rw [incrementPgtIndex]
    split
    · exact ⟨h.l3, g.fan_pos⟩
    · exact h
  | 2, _ =>
    rw [incrementPgtIndex]
    split
    · exact ⟨h.l3, h.l2⟩
    · exact h
  | n + 3, _ =>
    rw [show 3 - (n + 3) = 0 by omega]
    exact h

theorem offset_lt (hn : n ≤ 2) (h : Low g info) (h1 : n = 2 → L1Low g info) :
    getPgtIndex info (3 - n) * g.unit n < g.fan ^ (n + 1) := by
  match n, hn with
  | 0, _ =>
    rw [show g.unit 0 = 1 from rfl, mul_one, pow_one]
    exact h.l3
  | 1, _ =>
    rw [pow_succ, pow_one]
    exact Nat.mul_lt_mul_of_pos_right h.l2 g.fan_pos
  | 2, _ =>
    rcases h1 rfl with h0 | hlt
    · rw [h0]
      exact g.fan_pow_pos 3
    · have hunit : g.unit 2 ≤ g.fan ^ 2 := by cases g <;> decide
      calc info.l1Index * g.unit 2 ≤ info.l1Index * g.fan ^ 2 := Nat.mul_le_mul_left _ hunit
        _ < g.fan * g.fan ^ 2 := Nat.mul_lt_mul_of_pos_right hlt (g.fan_pow_pos 2)
        _ = g.fan ^ 3 := by rw [mul_comm, ← pow_succ]

theorem planTable_zero_info (h3 : info.l3Index < g.fan) (hcnt : info.l3Index + cnt ≤ g.fan) :
    (planTable g 0 a cnt out info).2 =
      if info.l3Index + cnt = g.fan then { info with l3Index := 0, l2Index := info.l2Index + 1 }
      else { info with l3Index := info.l3Index + cnt } := by
  have hblocks : blocks (g.fan ^ 0) cnt = cnt := by
    rw [blocks, pow_zero]
    omega
  rw [planTable, hblocks]
  refine sweep_invariant (P := fun k i => i = if info.l3Index + k = g.fan then
      { info with l3Index := 0, l2Index := info.l2Index + 1 }
      else { info with l3Index := info.l3Index + k }) ?_ ?_
  · rw [add_zero, if_neg (by omega)]
  · intro k hk i hi
    rw [hi, if_neg (by omega)]
    show incrementPgtIndex { info with l3Index := info.l3Index + k } 3 g.fan = _
    rw [incrementPgtIndex]
    by_cases hfull : info.l3Index + k = g.fan - 1
    · rw [if_pos hfull, if_pos (by omega)]
    · rw [if_neg hfull, if_neg (by omega)]
      rfl

/-- An entry of level 2 counts at most once for its level, and for level 1 only when the
counter of level 2 was at its end. -/
theorem planEntry_one_info (h : Low g info) (a cnt out : Nat) :
    (planEntry g 1 a cnt out info).2.l3Index < g.fan ∧
      (planEntry g 1 a cnt out info).2.l2Index ≤
        (if info.l2Index = g.fan - 1 then 0 else info.l2Index) + 1 ∧
      (planEntry g 1 a cnt out info).2.l1Index =
        if info.l2Index = g.fan - 1 then info.l1Index + 1 else info.l1Index := by
  have hinc : (incrementPgtIndex info 2 g.fan).l3Index = info.l3Index ∧
      (incrementPgtIndex info 2 g.fan).l2Index =
        (if info.l2Index = g.fan - 1 then 0 else info.l2Index) ∧
      (incrementPgtIndex info 2 g.fan).l1Index =
        if info.l2Index = g.fan - 1 then info.l1Index + 1 else info.l1Index := by
    rw [incrementPgtIndex]
    split <;> exact ⟨rfl, rfl, rfl⟩
  obtain ⟨hi3, hi2, hi1⟩ := hinc
  have hl3 := h.l3
  by_cases hblock : IsBlock g (0 + 1) a cnt out
  · rw [planEntry_block hblock]
    exact ⟨hi3.symm ▸ h.l3, by rw [hi2]; omega, hi1⟩
  · have hsub : info.l3Index + subCount g 0 cnt info ≤ g.fan := by
      rw [subCount, pow_one, show g.unit 0 = 1 from rfl, mul_one]
      show info.l3Index + min cnt (g.fan - info.l3Index) ≤ g.fan
      omega
    rw [planEntry_table hblock]
    rw [planTable_zero_info (by rw [hi3]; exact h.l3) (by rw [hi3]; exact hsub), hi3]
    split
    · exact ⟨g.fan_pos, by rw [hi2], hi1⟩
    · exact ⟨by show info.l3Index + _ < _; omega, by rw [hi2]; omega, hi1⟩

theorem Low.entry (hn : n ≠ 0) (h : Low g info) : Low g (planEntry g n a cnt out info).2 := by
  induction n generalizing a cnt out info with
  | zero => exact absurd rfl hn
  | succ n ih =>
    cases n with
    | zero =>
      obtain ⟨h3, h2, -⟩ := planEntry_one_info h a cnt out
      have hfan := g.two_le_fan
      have hl2 := h.l2
      refine ⟨h3, h2.trans_lt ?_⟩
      split <;> omega
    | succ n =>
      by_cases hblock : IsBlock g (n + 1 + 1) a cnt out
      · rw [planEntry_block hblock]
        exact h.increment (succ_ne_zero _)
      · rw [planEntry_table hblock]
        exact sweep_invariant (P := fun _ i => Low g i) (h.increment (succ_ne_zero _))
          (fun k _ i hi => ih (succ_ne_zero n) hi)

theorem Low.steps (hn : n ≠ 0) (h : Low g info) (k : Nat) :
    Low g (planSteps g n a cnt out k info).2 :=
  sweep_invariant (P := fun _ i => Low g i) h fun _ _ _ hi => hi.entry hn

theorem planTable_one_l1 (h : Low g info) (hcnt : info.l2Index * g.fan + cnt ≤ g.fan ^ 2) :
    (planTable g 1 a cnt out info).2.l1Index ≤ info.l1Index + 1 := by
  have hblocks : info.l2Index + blocks (g.fan ^ 1) cnt ≤ g.fan := by
    by_contra hlt
    have hl2 := h.l2
    have hk : (g.fan - info.l2Index) * g.fan ^ 1 < cnt :=
      (lt_blocks_iff (g.fan_pow_pos 1)).mp (by omega)
    rw [pow_one, Nat.sub_mul] at hk
    rw [Nat.pow_two] at hcnt
    omega
  have hsteps : ∀ k < blocks (g.fan ^ 1) cnt,
      Low g (planSteps g 1 a cnt out k info).2 ∧
        (planSteps g 1 a cnt out k info).2.l2Index ≤ info.l2Index + k ∧
        (planSteps g 1 a cnt out k info).2.l1Index = info.l1Index := by
    intro k hk
    induction k with
    | zero => exact ⟨h, le_rfl, rfl⟩
    | succ k ih =>
      obtain ⟨hlow, h2, h1⟩ := ih (by omega)
      obtain ⟨-, h2', h1'⟩ := planEntry_one_info hlow (a + k * g.fan ^ 1) (cnt - k * g.fan ^ 1)
        (out + k * g.fan ^ 1)
      have hne : (planSteps g 1 a cnt out k info).2.l2Index ≠ g.fan - 1 := by omega
      rw [if_neg hne] at h2' h1'
      refine ⟨h.steps one_ne_zero _, ?_, ?_⟩
      · show (planEntry g 1 _ _ _ (planSteps g 1 a cnt out k info).2).2.l2Index ≤ _
        omega
      · show (planEntry g 1 _ _ _ (planSteps g 1 a cnt out k info).2).2.l1Index = _
        omega
  rw [planTable]
  cases hN : blocks (g.fan ^ 1) cnt with
  | zero => exact le_succ _
  | succ N =>
    obtain ⟨hlow, -, h1⟩ := hsteps N (by omega)
    obtain ⟨-, -, h1'⟩ := planEntry_one_info hlow (a + N * g.fan ^ 1) (cnt - N * g.fan ^ 1)
      (out + N * g.fan ^ 1)
    show (planEntry g 1 _ _ _ (planSteps g 1 a cnt out N info).2).2.l1Index ≤ _
    rw [h1']
    split <;> omega

theorem L1Low.entry (h : Low g info) (h1 : L1Low g info) :
    L1Low g (planEntry g 2 a cnt out info).2 := by
  rcases h1 with h0 | hlt
  · exact .inl h0
  · right
    have hfan := g.two_le_fan
    have hinc : (incrementPgtIndex info 1 g.fan).l1Index + 1 < g.fan ∧
        (incrementPgtIndex info 1 g.fan).l2Index = info.l2Index := by
      rw [incrementPgtIndex]
      split
      · exact ⟨by show 0 + 1 < g.fan; omega, rfl⟩
      · exact ⟨by omega, rfl⟩
    by_cases hblock : IsBlock g (1 + 1) a cnt out
    · rw [planEntry_block hblock]
      exact lt_of_succ_lt hinc.1
    · rw [planEntry_table hblock]
      refine (planTable_one_l1 (h.increment (by decide)) ?_).trans_lt hinc.1
      have hoff : info.l2Index * g.fan < g.fan ^ 2 := offset_lt (n := 1) (by decide) h (by omega)
      rw [hinc.2]
      show info.l2Index * g.fan + min cnt (g.fan ^ 2 - info.l2Index * g.fan) ≤ g.fan ^ 2
      omega

theorem L1Low.entry_three (h : Low g info) (h1 : L1Low g info) :
    L1Low g (planEntry g 3 a cnt out info).2 := by
  by_cases hblock : IsBlock g (2 + 1) a cnt out
  · rw [planEntry_block hblock]
    exact h1
  · rw [planEntry_table hblock]
    refine (sweep_invariant (P := fun _ i => Low g i ∧ L1Low g i) ⟨h, h1⟩ (fun k _ i hi => ?_)).2
    exact ⟨hi.1.entry (by decide), hi.2.entry hi.1⟩

structure Counters (g : Granule) (n : Nat) (info : AcsPgt) : Prop where
  low : n ≠ 0 → Low g info
  l1Low : n = 3 → L1Low g info

theorem Counters.steps (hc : Counters g n info) (k : Nat) :
    Counters g n (planSteps g n a cnt out k info).2 where
  low hn := (hc.low hn).steps hn k
  l1Low := by
    rintro rfl
    refine (sweep_invariant (P := fun _ i => Low g i ∧ L1Low g i)
      ⟨hc.low (by decide), hc.l1Low rfl⟩ (fun k _ i hi => ?_)).2
    exact ⟨hi.1.entry (by decide), hi.2.entry_three hi.1⟩

/-! # Which pages the plan of a table maps

The plan is exact when the range starts at a block or stays inside one at every height
(`Straight`) and no counter cuts the range of a table below (`Uncut`). -/

/-! ## Ranges and blocks -/

def InBlock (b a cnt : Nat) : Prop := a % b + cnt ≤ b

instance (b a cnt : Nat) : Decidable (InBlock b a cnt) := inferInstanceAs (Decidable (_ ≤ _))

def Straight (g : Granule) (n a cnt : Nat) : Prop :=
  ∀ j, 1 ≤ j → j ≤ n → g.fan ^ j ∣ a ∨ InBlock (g.fan ^ j) a cnt

variable {g : Granule} {n a cnt x : Nat}

section

variable {b cnt' k : Nat}

theorem InBlock.mono (h : InBlock b a cnt) (hle : cnt' ≤ cnt) : InBlock b a cnt' := by
  rw [InBlock] at h ⊢
  omega

theorem inBlock_of_dvd (h : b ∣ a) (hle : cnt ≤ b) : InBlock b a cnt := by
  rw [InBlock, mod_eq_zero_of_dvd h, zero_add]
  exact hle

theorem InBlock.div_eq (h : InBlock b a cnt) (hb : 0 < b) (h1 : a ≤ x) (h2 : x < a + cnt) :
    x / b = a / b := by
  rw [InBlock] at h
  have hdiv := div_add_mod a b
  rw [Nat.div_eq_iff hb, mul_comm]
  omega

theorem Straight.mono (h : Straight g n a cnt) (hle : cnt' ≤ cnt) : Straight g n a cnt' :=
  fun j h1 hn => (h j h1 hn).imp_right fun hb => hb.mono hle

theorem straight_of_dvd (h : g.fan ^ n ∣ a) : Straight g n a cnt :=
  fun _ _ hn => .inl (Nat.dvd_trans (Nat.pow_dvd_pow _ hn) h)

theorem Straight.lower (h : Straight g (n + 1) a cnt) : Straight g n a cnt :=
  fun j h1 hn => h j h1 (by omega)

section

variable (h : Straight g n a cnt)
include h

theorem Straight.start : g.fan ^ n ∣ a ∨ InBlock (g.fan ^ n) a cnt := by
  cases n with
  | zero => exact .inl (Nat.one_dvd a)
  | succ n => exact h (n + 1) (by omega) le_rfl

theorem Straight.dvd_of_blocks (hk : 0 < k) (hlt : k < blocks (g.fan ^ n) cnt) : g.fan ^ n ∣ a := by
  rw [lt_blocks_iff (g.fan_pow_pos n)] at hlt
  have hle : g.fan ^ n ≤ k * g.fan ^ n := Nat.le_mul_of_pos_left _ hk
  rcases h.start with hd | hb
  · exact hd
  · rw [InBlock] at hb
    omega

theorem Straight.div_lt (h1 : a ≤ x) (h2 : x < a + cnt) :
    x / g.fan ^ n < a / g.fan ^ n + blocks (g.fan ^ n) cnt := by
  have hb := g.fan_pow_pos n
  have hlt : x / g.fan ^ n - a / g.fan ^ n < blocks (g.fan ^ n) cnt := by
    rw [lt_blocks_iff hb]
    rcases h.start with ⟨q, hq⟩ | hin
    · have hqa : a / g.fan ^ n = q := by rw [hq, Nat.mul_div_cancel_left _ hb]
      have hdiv := div_mul_le_self x (g.fan ^ n)
      rw [hqa, Nat.sub_mul, mul_comm q]
      omega
    · rw [hin.div_eq hb h1 h2, Nat.sub_self]
      omega
  omega

theorem Straight.step (hk : k < blocks (g.fan ^ n) cnt) :
    Straight g n (a + k * g.fan ^ n) (cnt - k * g.fan ^ n) := by
  rcases Nat.eq_zero_or_pos k with rfl | hpos
  · rw [zero_mul]
    exact h
  · exact straight_of_dvd (Nat.dvd_add (h.dvd_of_blocks hpos hk) (Nat.dvd_mul_left _ _))

end

theorem blocks_le (hb : 0 < b) {m : Nat} (h : cnt ≤ m * b) : blocks b cnt ≤ m := by
  by_contra hlt
  have hk := (lt_blocks_iff hb).mp (Nat.lt_of_not_le hlt)
  omega

end

/-! ## Exact plans -/

def Uncut (g : Granule) : Nat → Nat → Nat → Nat → AcsPgt → Prop
  | 0, _, _, _, _ => True
  | n + 1, a, cnt, out, info =>
    ¬ IsBlock g (n + 1) a cnt out →
      (getPgtIndex info (3 - n) * g.unit n = 0 ∨
        cnt ≤ g.fan ^ (n + 1) - getPgtIndex info (3 - n) * g.unit n) ∧
      ∀ k < blocks (g.fan ^ n) (subCount g n cnt info),
        Uncut g n (a + k * g.fan ^ n) (subCount g n cnt info - k * g.fan ^ n) (out + k * g.fan ^ n)
          (planSteps g n a (subCount g n cnt info) out k
            (incrementPgtIndex info (3 - (n + 1)) g.fan)).2

def UncutTable (g : Granule) (n a cnt out : Nat) (info : AcsPgt) : Prop :=
  ∀ k < blocks (g.fan ^ n) cnt, Uncut g n (a + k * g.fan ^ n) (cnt - k * g.fan ^ n)
    (out + k * g.fan ^ n) (planSteps g n a cnt out k info).2

def target (a cnt out x : Nat) : Option Nat :=
  if a ≤ x ∧ x < a + cnt then some (out + (x - a)) else none

def EntryExact (g : Granule) (n a cnt out : Nat) (info : AcsPgt) : Prop :=
  ∀ x, x / g.fan ^ n = a / g.fan ^ n →
    find g.fan x n (planEntry g n a cnt out info).1 = target a cnt out x

section

variable {out : Nat} {info : AcsPgt}

theorem planTable_at (hfit : InBlock (g.fan ^ (n + 1)) a cnt)
    (hx : x / g.fan ^ (n + 1) = a / g.fan ^ (n + 1)) :
    (planTable g n a cnt out info).1 (x / g.fan ^ n % g.fan) =
      if a / g.fan ^ n ≤ x / g.fan ^ n ∧ x / g.fan ^ n < a / g.fan ^ n + blocks (g.fan ^ n) cnt then
        (planLoop g n a cnt out (x / g.fan ^ n - a / g.fan ^ n)
          (planSteps g n a cnt out (x / g.fan ^ n - a / g.fan ^ n) info).2).1
      else .empty := by
  have hb := g.fan_pow_pos n
  have hsucc : ∀ y, y / g.fan ^ n / g.fan = y / g.fan ^ (n + 1) := by
    intro y
    rw [Nat.div_div_eq_div_mul, ← pow_succ]
  refine sweep_at g.fan_pos (fun k hk => ?_) (by rw [hsucc, hsucc, hx])
  have hkc := (lt_blocks_iff hb).mp hk
  rw [← add_mul_div_right a k hb, hsucc, hsucc]
  exact hfit.div_eq (g.fan_pow_pos _) (by omega) (by omega)

theorem lookup_planTable (hst : Straight g n a cnt) (hfit : InBlock (g.fan ^ (n + 1)) a cnt)
    (hentry : ∀ k < blocks (g.fan ^ n) cnt, EntryExact g n (a + k * g.fan ^ n)
      (cnt - k * g.fan ^ n) (out + k * g.fan ^ n) (planSteps g n a cnt out k info).2)
    (hx : x / g.fan ^ (n + 1) = a / g.fan ^ (n + 1)) :
    lookup g.fan n (planTable g n a cnt out info).1 x = target a cnt out x := by
  have hb := g.fan_pow_pos n
  rw [lookup, planTable_at hfit hx]
  by_cases hin : a / g.fan ^ n ≤ x / g.fan ^ n ∧
    x / g.fan ^ n < a / g.fan ^ n + blocks (g.fan ^ n) cnt
  · rw [if_pos hin]
    generalize hk : x / g.fan ^ n - a / g.fan ^ n = k
    have hkN : k < blocks (g.fan ^ n) cnt := by omega
    have hval : find g.fan x n (planLoop g n a cnt out k (planSteps g n a cnt out k info).2).1 =
        target (a + k * g.fan ^ n) (cnt - k * g.fan ^ n) (out + k * g.fan ^ n) x :=
      hentry k hkN x (by rw [add_mul_div_right a k hb]; omega)
    refine hval.trans ?_
    rw [target, target]
    have hlo : a + k * g.fan ^ n ≤ x ↔ a ≤ x := by
      rcases Nat.eq_zero_or_pos k with h0 | hpos
      · rw [h0, zero_mul, add_zero]
      · -- past the first entry the block starts at the address
        obtain ⟨q, hq⟩ := hst.dvd_of_blocks hpos hkN
        have hdivx := div_mul_le_self x (g.fan ^ n)
        have hqa : a / g.fan ^ n = q := by rw [hq, Nat.mul_div_cancel_left _ hb]
        have hxq : x / g.fan ^ n = q + k := by omega
        rw [hxq, add_mul, mul_comm q] at hdivx
        omega
    by_cases hc : a ≤ x ∧ x < a + cnt
    · rw [if_pos hc, if_pos ⟨hlo.mpr hc.1, by omega⟩]
      congr 1
      omega
    · rw [if_neg hc, if_neg]
      intro hin'
      exact hc ⟨hlo.mp hin'.1, by omega⟩
  · rw [if_neg hin, target, if_neg]
    · rfl
    · intro hc
      exact hin ⟨Nat.div_le_div_right hc.1, hst.div_lt hc.1 hc.2⟩

theorem target_subCount (hst : g.fan ^ (n + 1) ∣ a ∨ InBlock (g.fan ^ (n + 1)) a cnt)
    (huncut : getPgtIndex info (3 - n) * g.unit n = 0 ∨
      cnt ≤ g.fan ^ (n + 1) - getPgtIndex info (3 - n) * g.unit n)
    (hx : x / g.fan ^ (n + 1) = a / g.fan ^ (n + 1)) :
    target a (subCount g n cnt info) out x = target a cnt out x := by
  have hb := g.fan_pow_pos (n + 1)
  have hiff : x < a + subCount g n cnt info ↔ x < a + cnt := by
    rw [subCount]
    rcases huncut with h0 | hle
    · rw [h0, Nat.sub_zero]
      have hxlt := lt_div_mul_add hb (a := x)
      rcases hst with ⟨q, hq⟩ | hin
      · rw [hx, hq, Nat.mul_div_cancel_left _ hb, mul_comm] at hxlt
        omega
      · have hle : cnt ≤ g.fan ^ (n + 1) := (Nat.le_add_left _ _).trans hin
        rw [Nat.min_eq_left hle]
    · rw [Nat.min_eq_left hle]
  rw [target, target]
  simp [hiff]

theorem entryExact (hst : Straight g n a cnt) (hcnt : 0 < cnt) (huncut : Uncut g n a cnt out info) :
    EntryExact g n a cnt out info := by
  induction n generalizing a cnt out info with
  | zero =>
    intro x hx
    rw [pow_zero, Nat.div_one, Nat.div_one] at hx
    rw [target, if_pos (by omega), hx, Nat.sub_self]
    show some (out + a % g.fan ^ 0) = some (out + 0)
    rw [pow_zero, mod_one]
  | succ n ih =>
    intro x hx
    have hb := g.fan_pow_pos (n + 1)
    by_cases hblock : IsBlock g (n + 1) a cnt out
    · rw [planEntry_block hblock]
      show some (out + x % g.fan ^ (n + 1)) = _
      have hdiv := div_add_mod x (g.fan ^ (n + 1))
      have hmod := mod_lt x hb
      rw [hx, Nat.mul_div_cancel' hblock.1] at hdiv
      generalize x % g.fan ^ (n + 1) = r at hdiv hmod ⊢
      rw [target, if_pos (by omega)]
      congr 1
      omega
    · obtain ⟨hcut, hbelow⟩ := huncut hblock
      rw [planEntry_table hblock, ← target_subCount hst.start hcut hx]
      show lookup g.fan n _ x = _
      have hle : subCount g n cnt info ≤ cnt := min_le_left _ _
      have hst' := hst.lower.mono hle
      refine lookup_planTable hst' ?_ (fun k hk => ih (hst'.step hk) ?_ (hbelow k hk)) hx
      · rcases hst.start with hd | hin
        · exact inBlock_of_dvd hd ((min_le_right _ _).trans (sub_le _ _))
        · exact hin.mono hle
      · have hkc := (lt_blocks_iff (g.fan_pow_pos n)).mp hk
        omega

theorem lookup_planTable_of_uncut (hst : Straight g n a cnt)
    (hfit : InBlock (g.fan ^ (n + 1)) a cnt) (huncut : UncutTable g n a cnt out info)
    (hx : x / g.fan ^ (n + 1) = a / g.fan ^ (n + 1)) :
    lookup g.fan n (planTable g n a cnt out info).1 x = target a cnt out x := by
  refine lookup_planTable hst hfit (fun k hk => entryExact (hst.step hk) ?_ (huncut k hk)) hx
  have hkc := (lt_blocks_iff (g.fan_pow_pos n)).mp hk
  omega

end

end ServerSoc.Pgt
