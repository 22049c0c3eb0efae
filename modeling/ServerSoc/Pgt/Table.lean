/-
Page tables in memory.

`hwWalk` is what the hardware finds for an address.  `Enc` says that the words in memory are a
radix tree, whose leaves are block and page descriptors.  Each table has a page of its own, which
belongs to the path to it, so that a write below one entry leaves the other entries alone.
-/
import ServerSoc.Base.Heap
import ServerSoc.Pgt.Plan

namespace ServerSoc.Pgt

open Base List Nat Radix

/-! ## The walk of the hardware -/

def Granule.index (g : Granule) (n va : Nat) : Nat :=
  va >>> (n * g.bits + g.log2) &&& 2 ^ g.bits - 1

def Granule.tableAddress (g : Granule) (w : Nat) : Nat := w &&& ((2 ^ (48 - g.log2) - 1) <<< g.log2)

def hwWalk (g : Granule) (mem : Nat → Nat) : Nat → Nat → Nat → Option (Nat × Nat)
  | 0, base, va =>
    let w := mem (base + 8 * g.index 0 va)
    if isPgtEntryPage w then some (w, 0) else none
  | n + 1, base, va =>
    let w := mem (base + 8 * g.index (n + 1) va)
    if isPgtEntryBlock w then some (w, n + 1)
    else if isPgtEntryTable w then hwWalk g mem n (g.tableAddress w) va
    else none

/-! ## Encoding -/

def tableDesc (g : Granule) (base : Nat) : Nat :=
  pgtEntryTableMask ||| pgtEntryValidMask ||| base &&& (2 ^ 64 - g.pageSize)

structure Pages (g : Granule) (ias : Nat) where
  alloc : Nat → Option Nat
  aligned : ∀ k p, alloc k = some p → g.pageSize ∣ p
  pos : ∀ k p, alloc k = some p → 0 < p
  below : ∀ k p, alloc k = some p → p < 2 ^ ias
  inj : ∀ j k p, alloc j = some p → alloc k = some p → j = k

/-- The word `w` is an entry at height `n`, at the end of `path`. -/
def Enc (g : Granule) (h : Heap (List Nat)) : Nat → List Nat → Radix → Nat → Prop
  | _, _, .empty, w => w = 0
  | n, _, .leaf v, w => w = v ∧ v % 4 = if n = 0 then 3 else 1
  | 0, _, .node _, _ => False
  | n + 1, path, .node table, w =>
    ∃ base, w = tableDesc g base ∧ g.pageSize ∣ base ∧ h.Owns path base g.fan ∧
      ∀ i < g.fan, Enc g h n (i :: path) (table i) (h.mem (base + 8 * i))

structure EncTable (g : Granule) (h : Heap (List Nat)) (n : Nat) (path : List Nat)
    (table : Nat → Radix) (base : Nat) : Prop where
  aligned : g.pageSize ∣ base
  owns : h.Owns path base g.fan
  entry : ∀ i < g.fan, Enc g h n (i :: path) (table i) (h.mem (base + 8 * i))

def Allocated {g : Granule} {ias : Nat} (P : Pages g ias) (h : Heap (List Nat)) (k : Nat) : Prop :=
  ∀ a, h.own a ≠ none → ∃ j < k, ∃ p, P.alloc j = some p ∧ p ≤ a ∧ a < p + g.pageSize

variable {g : Granule} {ias base w : Nat}

section

variable {x b : Nat}

theorem Granule.pageSize_eq (g : Granule) : g.pageSize = 8 * g.fan := by
  cases g <;> decide

theorem Granule.pageSize_pos (g : Granule) : 0 < g.pageSize := Nat.two_pow_pos _

theorem Granule.four_dvd (g : Granule) : 4 ∣ g.pageSize := by
  cases g <;> decide

theorem Granule.log2_le (g : Granule) : g.log2 ≤ 16 := by
  cases g <;> decide

theorem Granule.fan_pow (g : Granule) (n : Nat) :
    2 ^ (n * g.bits + g.log2) = g.fan ^ n * g.pageSize := by
  rw [pow_add, mul_comm n, pow_mul, Granule.fan, Granule.pageSize]

theorem page_unique {b' : Nat} (hb : g.pageSize ∣ b) (hb' : g.pageSize ∣ b')
    (h : b ≤ x ∧ x < b + g.pageSize) (h' : b' ≤ x ∧ x < b' + g.pageSize) : b = b' := by
  obtain ⟨c, rfl⟩ := hb
  obtain ⟨d, rfl⟩ := hb'
  rw [← mul_succ] at h h'
  have hlt := Nat.lt_of_mul_lt_mul_left (h.1.trans_lt h'.2)
  have hlt' := Nat.lt_of_mul_lt_mul_left (h'.1.trans_lt h.2)
  congr 1
  omega

theorem Granule.index_eq (g : Granule) (n va : Nat) :
    g.index n va = va / g.pageSize / g.fan ^ n % g.fan := by
  rw [Granule.index, shiftRight_and, g.fan_pow, mul_comm, ← Nat.div_div_eq_div_mul]
  rfl

theorem and_three (w : Nat) : w &&& pgtEntryTypeMask = w % 4 := and_low w 2

theorem isPgtEntryPage_iff : isPgtEntryPage w = true ↔ w % 4 = 3 := by
  rw [isPgtEntryPage, and_three]
  exact beq_iff_eq

theorem isPgtEntryTable_iff : isPgtEntryTable w = true ↔ w % 4 = 3 := by
  rw [isPgtEntryTable, and_three]
  exact beq_iff_eq

theorem isPgtEntryBlock_iff : isPgtEntryBlock w = true ↔ w % 4 = 1 := by
  rw [isPgtEntryBlock, and_three]
  exact beq_iff_eq

section

variable (hb : g.pageSize ∣ base)
include hb

theorem tableDesc_eq (hlt : base < 2 ^ 64) : tableDesc g base = base + 3 := by
  have h4 := Nat.dvd_trans g.four_dvd hb
  rw [tableDesc, show base &&& (2 ^ 64 - g.pageSize) = base / g.pageSize * g.pageSize from
      and_not_low (g.log2_le.trans (by decide)) hlt, Nat.div_mul_cancel hb, Nat.or_comm]
  obtain ⟨c, rfl⟩ := h4
  have hor := shiftLeft_or (a := c) (b := 3) (k := 2) (by decide)
  rw [shiftLeft_eq, mul_comm] at hor
  exact hor

theorem tableDesc_mod (hlt : base < 2 ^ 64) : tableDesc g base % 4 = 3 := by
  rw [tableDesc_eq hb hlt]
  have h4 := Nat.dvd_trans g.four_dvd hb
  omega

theorem tableDesc_and (hlt : base < 2 ^ b) (hlog : g.log2 ≤ b)
    (hmax : b ≤ 48) : tableDesc g base &&& ((2 ^ (b - g.log2) - 1) <<< g.log2) = base := by
  have hlt64 : base < 2 ^ 64 :=
    hlt.trans_le (Nat.pow_le_pow_right (by decide) (hmax.trans (by decide)))
  have hps : 3 < g.pageSize := by cases g <;> decide
  obtain ⟨c, rfl⟩ := hb
  have hc : c < 2 ^ (b - g.log2) := by
    have hpow : 2 ^ b = g.pageSize * 2 ^ (b - g.log2) := by
      rw [Granule.pageSize, ← pow_add, Nat.add_sub_cancel' hlog]
    rw [hpow] at hlt
    exact Nat.lt_of_mul_lt_mul_left hlt
  rw [tableDesc_eq (Nat.dvd_mul_right _ _) hlt64, and_mask,
    show 2 ^ g.log2 = g.pageSize from rfl, mul_add_div g.pageSize_pos, div_eq_of_lt hps,
    add_zero, mod_eq_of_lt hc, shiftLeft_eq, mul_comm]
  rfl

end

end

section

variable {n k : Nat} {h h' : Heap (List Nat)} {path : List Nat} {t : Radix} {table : Nat → Radix}
  {P : Pages g ias}

@[simp] theorem enc_empty : Enc g h n path .empty w ↔ w = 0 := by
  cases n <;> rfl

@[simp] theorem enc_leaf {v : Nat} :
    Enc g h n path (.leaf v) w ↔ w = v ∧ v % 4 = if n = 0 then 3 else 1 := by
  cases n <;> rfl

theorem Allocated.page (ha : Allocated P h k) (howns : h.Owns path base g.fan)
    (hb : g.pageSize ∣ base) : ∃ j < k, P.alloc j = some base := by
  have hown := howns 0 g.fan_pos
  obtain ⟨j, hj, p, hp, h1, h2⟩ := ha (base + 8 * 0) (by rw [hown]; nofun)
  have heq := page_unique hb (P.aligned j p hp)
    ⟨le_rfl, Nat.lt_add_of_pos_right g.pageSize_pos⟩ ⟨h1, h2⟩
  exact ⟨j, hj, heq ▸ hp⟩

theorem EncTable.table_lt (he : EncTable g h n path table base) (ha : Allocated P h k) :
    0 < base ∧ base < 2 ^ ias := by
  obtain ⟨j, -, hj⟩ := ha.page he.owns he.aligned
  exact ⟨P.pos j base hj, P.below j base hj⟩

/-- A word that points to the table at `base`, for the hardware and for the mask of the code. -/
structure PointsTo (g : Granule) (ias w base : Nat) : Prop where
  block : isPgtEntryBlock w = false
  table : isPgtEntryTable w = true
  address : g.tableAddress w = base
  mask : w &&& ((2 ^ (ias - g.log2) - 1) <<< g.log2) = base

theorem PointsTo.ne_zero (h : PointsTo g ias w base) : w ≠ 0 := by
  intro h0
  have htable := isPgtEntryTable_iff.mp h.table
  rw [h0] at htable
  cases htable

theorem Enc.pointsTo (he : Enc g h (n + 1) path (.node table) w) (ha : Allocated P h k)
    (hlog : g.log2 ≤ ias) (hias : ias ≤ 48) :
    ∃ base, EncTable g h n path table base ∧ PointsTo g ias w base := by
  obtain ⟨base, rfl, haligned, howns, hbelow⟩ := he
  have he' : EncTable g h n path table base := ⟨haligned, howns, hbelow⟩
  have hlt := (he'.table_lt ha).2
  have hlt48 := hlt.trans_le (Nat.pow_le_pow_right (by decide) hias)
  have hmod := tableDesc_mod haligned (hlt48.trans_le (by decide))
  refine ⟨base, he', ?_, isPgtEntryTable_iff.mpr hmod, ?_, tableDesc_and haligned hlt hlog hias⟩
  · rw [← Bool.not_eq_true, isPgtEntryBlock_iff, hmod]
    decide
  · exact tableDesc_and haligned hlt48 (g.log2_le.trans (by decide)) le_rfl

theorem EncTable.hwWalk_eq (he : EncTable g h n path table base) (ha : Allocated P h k)
    (hlog : g.log2 ≤ ias) (hias : ias ≤ 48) (va : Nat) :
    hwWalk g h.mem n base va =
      leafAt g.fan (va / g.pageSize) n (table (va / g.pageSize / g.fan ^ n % g.fan)) := by
  induction n generalizing path table base with
  | zero =>
    have hentry := he.entry _ (mod_lt (va / g.pageSize / g.fan ^ 0) g.fan_pos)
    rw [hwWalk, g.index_eq]
    generalize h.mem _ = w at hentry ⊢
    cases htree : table (va / g.pageSize / g.fan ^ 0 % g.fan) with
    | empty =>
      rw [htree] at hentry
      obtain rfl : w = 0 := hentry
      rfl
    | leaf v =>
      rw [htree] at hentry
      obtain ⟨rfl, hv⟩ := hentry
      rw [if_pos (isPgtEntryPage_iff.mpr hv)]
      rfl
    | node table' =>
      rw [htree] at hentry
      exact hentry.elim
  | succ n ih =>
    have hentry := he.entry _ (mod_lt (va / g.pageSize / g.fan ^ (n + 1)) g.fan_pos)
    rw [hwWalk, g.index_eq]
    generalize h.mem (base + 8 * (va / g.pageSize / g.fan ^ (n + 1) % g.fan)) = w at hentry ⊢
    cases htree : table (va / g.pageSize / g.fan ^ (n + 1) % g.fan) with
    | empty =>
      rw [htree] at hentry
      obtain rfl : w = 0 := hentry
      rfl
    | leaf v =>
      rw [htree] at hentry
      obtain ⟨rfl, hv⟩ := hentry
      rw [if_pos (isPgtEntryBlock_iff.mpr hv)]
      rfl
    | node table' =>
      rw [htree] at hentry
      obtain ⟨base', he', hpoints⟩ := hentry.pointsTo ha hlog hias
      rw [hpoints.block, hpoints.table, hpoints.address]
      exact ih he'

theorem EncTable.entry_cases (he : EncTable g h (n + 1) path table base) (ha : Allocated P h k)
    (hlog : g.log2 ≤ ias) (hias : ias ≤ 48) {i : Nat} (hi : i < g.fan) :
    (h.mem (base + 8 * i) = 0 ∨ isPgtEntryBlock (h.mem (base + 8 * i)) = true) ∧
        (table i).isNode = false ∨
      ∃ table' base', table i = .node table' ∧ EncTable g h n (i :: path) table' base' ∧
        PointsTo g ias (h.mem (base + 8 * i)) base' := by
  have hentry := he.entry i hi
  cases htree : table i with
  | empty =>
    rw [htree] at hentry
    exact .inl ⟨.inl hentry, rfl⟩
  | leaf v =>
    rw [htree] at hentry
    obtain ⟨hw, hv⟩ := hentry
    rw [hw]
    exact .inl ⟨.inr (isPgtEntryBlock_iff.mpr hv), rfl⟩
  | node table' =>
    rw [htree] at hentry
    obtain ⟨base', hrest⟩ := hentry.pointsTo ha hlog hias
    exact .inr ⟨table', base', rfl, hrest⟩

theorem head_unique {i j : Nat} {path' : List Nat} (hi : i :: path <:+ path')
    (hj : j :: path <:+ path') : i = j :=
  (cons.inj ((suffix_of_suffix_length_le hi hj le_rfl).eq_of_length rfl)).1

def BelowPath (h : Heap (List Nat)) (path : List Nat) (a : Nat) : Prop :=
  ∃ path', h.own a = some path' ∧ path <:+ path'

theorem Enc.frame {W : Nat → Prop} (he : Enc g h n path t w) (hf : Heap.Frame W h h')
    (hW : ∀ a, BelowPath h path a → ¬ W a) : Enc g h' n path t w := by
  induction t generalizing n path w with
  | empty => exact enc_empty.mpr (enc_empty.mp he)
  | leaf v => exact enc_leaf.mpr (enc_leaf.mp he)
  | node table ih =>
    cases n with
    | zero => exact he.elim
    | succ n =>
      obtain ⟨base, hw, haligned, howns, hbelow⟩ := he
      refine ⟨base, hw, haligned, howns.frame hf, fun i hi => ?_⟩
      rw [howns.mem_eq hf hi (hW _ ⟨path, howns i hi, List.suffix_refl path⟩)]
      refine ih i (hbelow i hi) fun a ha => ?_
      obtain ⟨path', hown, hsuffix⟩ := ha
      exact hW a ⟨path', hown, (List.suffix_cons i path).trans hsuffix⟩

end

/-! # What the loops of `fill_translation_table` allocate and free

If the allocator stops a call among the first tables it opens (`openTable`), every page of the call
is freed, and if it stops it later, a table that was completed stays. -/

/-! ## Pages that were given -/

structure Given (alloc : Nat → Option Nat) (s s' : State) : Prop where
  le : s.allocated ≤ s'.allocated
  pages : ∀ k, s.allocated ≤ k → k < s'.allocated → alloc k ≠ none
  freed : s.freed <+: s'.freed

variable {s s' : State}

section

variable {alloc : Nat → Option Nat} {s'' : State}

theorem Given.of_eq (hcount : s'.allocated = s.allocated) (hfreed : s'.freed = s.freed) :
    Given alloc s s' := by
  refine ⟨hcount.symm.le, ?_, ?_⟩
  · omega
  · rw [hfreed]

theorem Given.trans (h : Given alloc s s') (h' : Given alloc s' s'') : Given alloc s s'' := by
  refine ⟨h.le.trans h'.le, ?_, h.freed.trans h'.freed⟩
  intro k h1 h2
  by_cases hk : k < s'.allocated
  · exact h.pages k h1 hk
  · exact h'.pages k (not_lt.mp hk) h2

theorem Given.free (h : Given alloc s s') (p : Nat) : Given alloc s (s'.free p) :=
  ⟨h.le, h.pages, h.freed.trans (prefix_append _ _)⟩

theorem Given.page {p : Nat} (hp : alloc s.allocated = some p)
    (hcount : s'.allocated = s.allocated + 1) (hfreed : s'.freed = s.freed) : Given alloc s s' := by
  refine ⟨by omega, ?_, ?_⟩
  · intro k h1 h2
    have hk : k = s.allocated := by omega
    rw [hk, hp]
    nofun
  · rw [hfreed]

end

/-! ## The first tables -/

def firstPos (f : Nat → Nat) : Nat → Nat
  | 0 => 0
  | n + 1 => if firstPos f n = 0 then f n else firstPos f n

/-- How many tables an entry of height `n` opens, each inside the one before, until one of them
is complete. -/
def openEntry (g : Granule) : Nat → Nat → Nat → Nat → AcsPgt → Nat
  | 0, _, _, _, _ => 0
  | n + 1, a, cnt, out, info =>
    if IsBlock g (n + 1) a cnt out then 0
    else
      let cnt := subCount g n cnt info
      let info := incrementPgtIndex info (3 - (n + 1)) g.fan
      1 + firstPos (fun k => openEntry g n (a + k * g.fan ^ n) (cnt - k * g.fan ^ n)
        (out + k * g.fan ^ n) (planSteps g n a cnt out k info).2) (blocks (g.fan ^ n) cnt)

def openSteps (g : Granule) (n a cnt out k : Nat) (info : AcsPgt) : Nat :=
  firstPos (fun k => openEntry g n (a + k * g.fan ^ n) (cnt - k * g.fan ^ n) (out + k * g.fan ^ n)
    (planSteps g n a cnt out k info).2) k

def openTable (g : Granule) (n a cnt out : Nat) (info : AcsPgt) : Nat :=
  openSteps g n a cnt out (blocks (g.fan ^ n) cnt) info

/-- The tables that are opened first are among the `k` tables that are made. -/
structure Opens (c k : Nat) : Prop where
  le : c ≤ k
  zero : c = 0 → k = 0

variable {g : Granule} {n a cnt out : Nat}

section

variable {k : Nat} {info : AcsPgt}

theorem firstPos_of_ne {f : Nat → Nat} {m : Nat} (h : firstPos f m ≠ 0) (hle : m ≤ n) :
    firstPos f n = firstPos f m := by
  induction n, hle using le_induction with
  | base => rfl
  | succ n _ ih => rw [firstPos, ih, if_neg h]

theorem openEntry_table
    (h : ¬ IsBlock g (n + 1) a cnt out) :
    openEntry g (n + 1) a cnt out info = 1 + openTable g n a (subCount g n cnt info) out
      (incrementPgtIndex info (3 - (n + 1)) g.fan) :=
  if_neg h

theorem planSteps_miss (hfit : blocks (g.fan ^ n) cnt ≤ g.fan) (hk : k < blocks (g.fan ^ n) cnt) :
    (planSteps g n a cnt out k info).1 ((a / g.fan ^ n + k) % g.fan) = .empty := by
  refine sweep_miss fun j hj heq => ?_
  have hjk := add_mod_inj (by omega) (by omega) heq
  omega

theorem opens_steps (hfit : blocks (g.fan ^ n) cnt ≤ g.fan) (hentry : ∀ a cnt out info,
      Opens (openEntry g n a cnt out info) (fresh g.fan .empty (planEntry g n a cnt out info).1))
    (hk : k ≤ blocks (g.fan ^ n) cnt) :
    Opens (openSteps g n a cnt out k info)
      (tableFresh g.fan (fun _ => .empty) (planSteps g n a cnt out k info).1) := by
  induction k with
  | zero => exact ⟨Nat.zero_le _, fun _ => tableFresh_empty _ _⟩
  | succ k ih =>
    have hsteps := ih (le_of_succ_le hk)
    have hlast := hentry (a + k * g.fan ^ n) (cnt - k * g.fan ^ n) (out + k * g.fan ^ n)
      (planSteps g n a cnt out k info).2
    have hstep : (planSteps g n a cnt out (k + 1) info).1 =
        Function.update (planSteps g n a cnt out k info).1 ((a / g.fan ^ n + k) % g.fan)
          (planEntry g n (a + k * g.fan ^ n) (cnt - k * g.fan ^ n) (out + k * g.fan ^ n)
            (planSteps g n a cnt out k info).2).1 := rfl
    rw [hstep, tableFresh_update (mod_lt _ g.fan_pos) (planSteps_miss hfit hk)]
    have hopen : openSteps g n a cnt out (k + 1) info =
        if openSteps g n a cnt out k info = 0 then
          openEntry g n (a + k * g.fan ^ n) (cnt - k * g.fan ^ n) (out + k * g.fan ^ n)
            (planSteps g n a cnt out k info).2
        else openSteps g n a cnt out k info := rfl
    have h1 := hsteps.le
    have h2 := hsteps.zero
    have h3 := hlast.le
    have h4 := hlast.zero
    rw [hopen]
    split <;> exact ⟨by omega, by omega⟩

theorem blocks_subCount_le (g : Granule) (n cnt : Nat) (info : AcsPgt) :
    blocks (g.fan ^ n) (subCount g n cnt info) ≤ g.fan := by
  refine blocks_le (g.fan_pow_pos n) ?_
  calc subCount g n cnt info ≤ g.fan ^ (n + 1) := (min_le_right _ _).trans (sub_le _ _)
    _ = g.fan * g.fan ^ n := by rw [pow_succ, mul_comm]

theorem opens_entry (n a cnt out : Nat) (info : AcsPgt) :
    Opens (openEntry g n a cnt out info) (fresh g.fan .empty (planEntry g n a cnt out info).1) := by
  induction n generalizing a cnt out info with
  | zero => exact ⟨Nat.zero_le _, fun _ => rfl⟩
  | succ n ih =>
    by_cases hblock : IsBlock g (n + 1) a cnt out
    · rw [planEntry_block hblock]
      exact ⟨(if_pos hblock).le, fun _ => rfl⟩
    · rw [planEntry_table hblock, openEntry_table hblock]
      have hsteps : Opens (openTable g n a (subCount g n cnt info) out
            (incrementPgtIndex info (3 - (n + 1)) g.fan))
          (tableFresh g.fan (fun _ => .empty) (planTable g n a (subCount g n cnt info) out
            (incrementPgtIndex info (3 - (n + 1)) g.fan)).1) :=
        opens_steps (blocks_subCount_le g n cnt info) ih le_rfl
      have hle := hsteps.le
      refine ⟨?_, fun h0 => ?_⟩
      · exact Nat.add_le_add_left hle 1
      · omega

end

/-! ## Failed loops -/

/-- What was freed between two states: pages that were given between them, each once, and all of
them exactly if fewer than `c` were given. -/
def Failed {g : Granule} {ias : Nat} (P : Pages g ias) (c : Nat) (s s' : State) : Prop :=
  ∃ freed, s'.freed = s.freed ++ freed ∧ freed.Nodup ∧
    (∀ p ∈ freed, ∃ k, s.allocated ≤ k ∧ k < s'.allocated ∧ P.alloc k = some p) ∧
    s.allocated + freed.length ≤ s'.allocated ∧
    (s.allocated + freed.length = s'.allocated ↔ s'.allocated < s.allocated + c)

/-- The allocator stopped a call.  If the table was empty before, `c` tables are opened first. -/
structure Broken {g : Granule} {ias : Nat} (P : Pages g ias) (empty : Prop) (c : Nat)
    (s s' : State) : Prop where
  given : Given P.alloc s s'
  full : P.alloc s'.allocated = none
  failed : empty → Failed P c s s'

section

variable {ias c : Nat} {P : Pages g ias} {s1 : State}

theorem failed_refl (P : Pages g ias) (hc : 0 < c) (s : State) : Failed P c s s := by
  refine ⟨[], (append_nil _).symm, nodup_nil, fun _ hp => absurd hp not_mem_nil,
    le_rfl, ?_⟩
  exact ⟨fun _ => Nat.lt_add_of_pos_right hc, fun _ => rfl⟩

theorem Failed.opened {p : Nat} (hf : Failed P c s1 s') (hp : P.alloc s.allocated = some p)
    (hcount : s1.allocated = s.allocated + 1) (hfreed : s1.freed = s.freed) :
    Failed P (1 + c) s (s'.free p) := by
  obtain ⟨freed, heq, hnodup, hpages, hle, hiff⟩ := hf
  have hnew : p ∉ freed := by
    intro hmem
    obtain ⟨k, hk, -, hkp⟩ := hpages p hmem
    have hsame := P.inj k s.allocated p hkp hp
    omega
  refine ⟨freed ++ [p], ?_, ?_, ?_, ?_, ?_⟩
  · show s'.freed ++ [p] = _
    rw [heq, hfreed, append_assoc]
  · rw [nodup_append]
    refine ⟨hnodup, nodup_singleton p, ?_⟩
    intro x hx y hy hxy
    rw [mem_singleton.mp hy] at hxy
    exact hnew (hxy ▸ hx)
  · intro q hq
    show ∃ k, s.allocated ≤ k ∧ k < s'.allocated ∧ _
    rcases mem_append.mp hq with hq | hq
    · obtain ⟨k, h1, h2, hk⟩ := hpages q hq
      exact ⟨k, by omega, h2, hk⟩
    · rw [mem_singleton.mp hq]
      exact ⟨s.allocated, le_rfl, by omega, hp⟩
  · show s.allocated + (freed ++ [p]).length ≤ s'.allocated
    rw [length_append, length_singleton]
    omega
  · show s.allocated + (freed ++ [p]).length = s'.allocated ↔ s'.allocated < s.allocated + (1 + c)
    rw [length_append, length_singleton]
    constructor <;> omega

theorem Failed.behind {k : Nat} (hf : Failed P (openEntry g n (a + k * g.fan ^ n)
      (cnt - k * g.fan ^ n) (out + k * g.fan ^ n) (planSteps g n a cnt out k s.info).2) s1 s')
    (hpos : 0 < openEntry g n (a + k * g.fan ^ n) (cnt - k * g.fan ^ n) (out + k * g.fan ^ n)
      (planSteps g n a cnt out k s.info).2) (hfit : blocks (g.fan ^ n) cnt ≤ g.fan)
    (hk : k < blocks (g.fan ^ n) cnt) (hcount : s1.allocated = s.allocated +
      tableFresh g.fan (fun _ => .empty) (planSteps g n a cnt out k s.info).1)
    (hfreed : s1.freed = s.freed) : Failed P (openTable g n a cnt out s.info) s s' := by
  obtain ⟨freed, heq, hnodup, hpages, hle, hiff⟩ := hf
  have hopens : Opens (openSteps g n a cnt out k s.info)
      (tableFresh g.fan (fun _ => .empty) (planSteps g n a cnt out k s.info).1) :=
    opens_steps hfit (opens_entry n) hk.le
  refine ⟨freed, heq.trans (congrArg (· ++ freed) hfreed), hnodup, ?_, by omega, ?_⟩
  · intro p hp
    obtain ⟨j, h1, h2, hj⟩ := hpages p hp
    exact ⟨j, by omega, h2, hj⟩
  have hsucc : openSteps g n a cnt out (k + 1) s.info =
      if openSteps g n a cnt out k s.info = 0 then
        openEntry g n (a + k * g.fan ^ n) (cnt - k * g.fan ^ n) (out + k * g.fan ^ n)
          (planSteps g n a cnt out k s.info).2
      else openSteps g n a cnt out k s.info := rfl
  by_cases hzero : openSteps g n a cnt out k s.info = 0
  · -- the iterations before opened no table
    have hnone := hopens.zero hzero
    rw [if_pos hzero] at hsucc
    have hopen : openTable g n a cnt out s.info = openSteps g n a cnt out (k + 1) s.info :=
      firstPos_of_ne (show openSteps g n a cnt out (k + 1) s.info ≠ 0 by omega) hk
    rw [hnone] at hcount
    rw [hcount] at hiff
    rw [hopen, hsucc]
    exact hiff
  · -- one of them is complete and stays
    have hopen : openTable g n a cnt out s.info = openSteps g n a cnt out k s.info :=
      firstPos_of_ne hzero hk.le
    have hmade := hopens.le
    omega

end

end ServerSoc.Pgt
