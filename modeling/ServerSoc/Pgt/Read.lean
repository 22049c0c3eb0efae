/-
Reading the attributes of an address back (val_pgt_get_attributes in acs_pgt.c).

The reader never looks for an entry that is empty, and it takes the bits of the first level off
the remaining bits where it should take off those of the next.  What it returns is kept with the
addresses it reads, and compared with `hwWalk`.
-/
import ServerSoc.Pgt.Frame

namespace ServerSoc.Pgt

open Base Nat

/-! ## The reader -/

structure Tcr where
  tsz : Nat
  tgSizeLog2 : Nat
  deriving DecidableEq, Repr

/-- The loop: the attributes, `none` for `ACS_STATUS_ERR`, and the addresses of the entries it
reads.  It has fuel, and the outer `none` is a loop that the fuel did not end. -/
def readLoop (mem : Nat → Nat) (ias pageSizeLog2 bitsPerLevel va : Nat) :
    Nat → Nat → Nat → Nat → Nat → Option (Option Nat × List Nat)
  | 0, _, _, _, _ => none
  | fuel + 1, level, bitsRemaining, bitsAtThisLevel, ttBase =>
    let entry := ttBase + 8 * (va >>> bitsRemaining &&& 1 <<< bitsAtThisLevel - 1)
    let val64 := mem entry
    if level = 3 then
      if isPgtEntryPage val64 then some (some (pgtDescAttributes val64), [entry])
      else some (none, [entry])
    else if isPgtEntryBlock val64 then some (some (pgtDescAttributes val64), [entry])
    else
      (readLoop mem ias pageSizeLog2 bitsPerLevel va fuel (level + 1)
        (sub32 bitsRemaining bitsAtThisLevel) bitsPerLevel
        (val64 &&& ((1 <<< sub32 ias pageSizeLog2 - 1) <<< pageSizeLog2))).map
          fun res => (res.1, entry :: res.2)

def valPgtGetAttributes (mem : Nat → Nat) (fuel pgtBase : Nat) (tcr : Tcr) (va attributes : Nat) :
    Option (Option Nat × List Nat) :=
  if attributes = 0 then some (none, [])
  else if pgtBase = 0 then some (none, [])
  else
    let ias := sub32 64 tcr.tsz
    let bitsPerLevel := sub32 tcr.tgSizeLog2 3
    let levels := sub32 (sub32 ias tcr.tgSizeLog2 + bitsPerLevel) 1 / bitsPerLevel
    let bitsRemaining := (sub32 levels 1 * bitsPerLevel + tcr.tgSizeLog2) % 2 ^ 32
    readLoop mem ias tcr.tgSizeLog2 bitsPerLevel va fuel (sub32 4 levels) bitsRemaining
      (sub32 ias bitsRemaining) pgtBase

/-! ## What it should do -/

/-- The entries the hardware reads for an address, all of them in the table. -/
def hwReads (g : Granule) (mem : Nat → Nat) : Nat → Nat → Nat → List Nat
  | 0, base, va => [base + 8 * g.index 0 va]
  | n + 1, base, va =>
    let w := mem (base + 8 * g.index (n + 1) va)
    (base + 8 * g.index (n + 1) va) ::
      if isPgtEntryBlock w then []
      else if isPgtEntryTable w then hwReads g mem n (g.tableAddress w) va
      else []

def leafAttributes (g : Granule) (mem : Nat → Nat) (n base va : Nat) : Option Nat :=
  (hwWalk g mem n base va).map fun l => pgtDescAttributes l.1

/-- For every address the reader reads the entries the hardware reads and no other, and returns
the attributes of the leaf, or an error where there is none. -/
def ReaderAgrees (g : Granule) (ias fuel : Nat) (mem : Nat → Nat) (base attributes : Nat) : Prop :=
  ∀ va < 2 ^ ias, valPgtGetAttributes mem fuel base ⟨64 - ias, g.log2⟩ va attributes =
    some (leafAttributes g mem (topHeight g ias) base va, hwReads g mem (topHeight g ias) base va)

def NoHole (g : Granule) (mem : Nat → Nat) : Nat → Nat → Nat → Prop
  | 0, _, _ => True
  | n + 1, base, va =>
    isPgtEntryBlock (mem (base + 8 * g.index (n + 1) va)) = true ∨
      isPgtEntryTable (mem (base + 8 * g.index (n + 1) va)) = true ∧
        NoHole g mem n (g.tableAddress (mem (base + 8 * g.index (n + 1) va))) va

def topBits (g : Granule) (ias : Nat) : Nat := ias - (topHeight g ias * g.bits + g.log2)

/-- There are pages only, or no address meets an empty entry above the pages and the first table
is a full one or has blocks only. -/
def ReaderFits (g : Granule) (ias : Nat) (mem : Nat → Nat) (base : Nat) : Prop :=
  topHeight g ias = 0 ∨ ∀ va < 2 ^ ias, NoHole g mem (topHeight g ias) base va ∧
    (topBits g ias = g.bits ∨
      isPgtEntryBlock (mem (base + 8 * g.index (topHeight g ias) va)) = true)

def LoopAgrees (g : Granule) (ias va : Nat) (mem : Nat → Nat) (fuel level rem bits n base : Nat) :
    Prop :=
  readLoop mem ias g.log2 g.bits va fuel level rem bits base =
    some (leafAttributes g mem n base va, hwReads g mem n base va)

section

variable {g : Granule} {ias n k fuel base va rem level bits : Nat} {h : Heap (List Nat)}
  {path : List Nat} {table : Nat → Radix} {P : Pages g ias}

theorem Format.mask_eq (hf : Format g ias) :
    (1 <<< sub32 ias g.log2 - 1) <<< g.log2 = (2 ^ (ias - g.log2) - 1) <<< g.log2 := by
  have hlt := hf.lt
  have hle := hf.le
  have hsub : sub32 ias g.log2 = ias - g.log2 := by
    rw [sub32]
    omega
  rw [hsub, one_shiftLeft]

theorem Granule.index_lt (g : Granule) (n va : Nat) : g.index n va < g.fan := by
  rw [g.index_eq]
  exact mod_lt _ g.fan_pos

theorem leafAttributes_zero (g : Granule) (mem : Nat → Nat) (base va : Nat) :
    leafAttributes g mem 0 base va =
      if isPgtEntryPage (mem (base + 8 * g.index 0 va)) then
        some (pgtDescAttributes (mem (base + 8 * g.index 0 va)))
      else none := by
  simp [leafAttributes, hwWalk]

theorem readLoop_pages (mem : Nat → Nat) (ias fuel base va : Nat)
    (hindex : va >>> rem &&& 1 <<< bits - 1 = g.index 0 va) :
    LoopAgrees g ias va mem (fuel + 1) 3 rem bits 0 base := by
  rw [LoopAgrees, readLoop, hindex, leafAttributes_zero]
  by_cases hpage : isPgtEntryPage (mem (base + 8 * g.index 0 va)) = true <;> simp [hpage, hwReads]

theorem readLoop_head {mem : Nat → Nat} {log2 bpl : Nat} {res : Option Nat × List Nat}
    (hres : readLoop mem ias log2 bpl va fuel level rem bits base = some res) :
    res.2.head? = some (base + 8 * (va >>> rem &&& 1 <<< bits - 1)) := by
  cases fuel with
  | zero => cases hres
  | succ fuel =>
    rw [readLoop] at hres
    split at hres
    · split at hres
      · cases hres
        rfl
      · cases hres
        rfl
    · split at hres
      · cases hres
        rfl
      · obtain ⟨rest, -, hrest⟩ := Option.map_eq_some_iff.mp hres
        rw [← hrest]
        rfl

theorem hwReads_head (g : Granule) (mem : Nat → Nat) (n base va : Nat) :
    (hwReads g mem n base va).head? = some (base + 8 * g.index n va) := by
  cases n <;> rfl

theorem map_cons_eq_iff {a : Nat} {x : Option (Option Nat × List Nat)} {r : Option Nat}
    {l : List Nat} :
    (x.map fun res => (res.1, a :: res.2)) = some (r, a :: l) ↔ x = some (r, l) := by
  cases x with
  | none => simp
  | some res => simp [Prod.ext_iff]

section

variable (hf : Format g ias) (he : EncTable g h (n + 1) path table base) (ha : Allocated P h k)
include hf he ha

/-- What one level of the loop has to do with the hardware: on a block they agree, on an empty
entry they do not, and on a table they agree if the rest does. -/
theorem readLoop_above_iff {w : Nat} (hlevel : level ≠ 3)
    (hindex : va >>> rem &&& 1 <<< bits - 1 = g.index (n + 1) va)
    (hw : h.mem (base + 8 * g.index (n + 1) va) = w) :
    LoopAgrees g ias va h.mem (fuel + 1) level rem bits (n + 1) base ↔
      isPgtEntryBlock w = true ∨ isPgtEntryTable w = true ∧
        LoopAgrees g ias va h.mem fuel (level + 1) (sub32 rem bits)
          g.bits n (g.tableAddress w) := by
  have hcases := he.entry_cases ha hf.lt.le hf.le (g.index_lt (n + 1) va)
  rw [hw] at hcases
  rw [LoopAgrees, readLoop, hindex, if_neg hlevel, hw, hf.mask_eq]
  rcases hcases with ⟨hzero | hblock, -⟩ | ⟨table', base', -, -, hblock, htable, haddr, hmask⟩
  · -- the loop reads on, the hardware does not
    have hblock : isPgtEntryBlock w = false := by
      rw [hzero]
      rfl
    have htable : isPgtEntryTable w = false := by
      rw [hzero]
      rfl
    have hreads : hwReads g h.mem (n + 1) base va = [base + 8 * g.index (n + 1) va] := by
      simp [hwReads, hw, htable]
    rw [hreads, hblock, htable]
    simp only [Bool.false_eq_true, if_false, map_cons_eq_iff, false_and, or_false, iff_false]
    intro hres
    cases readLoop_head hres
  · have hreads : hwReads g h.mem (n + 1) base va = [base + 8 * g.index (n + 1) va] := by
      simp [hwReads, hw, hblock]
    have hleaf : leafAttributes g h.mem (n + 1) base va = some (pgtDescAttributes w) := by
      simp [leafAttributes, hwWalk, hw, hblock]
    rw [hreads, hleaf, if_pos hblock]
    exact iff_of_true rfl (.inl hblock)
  · have hreads : hwReads g h.mem (n + 1) base va =
        (base + 8 * g.index (n + 1) va) :: hwReads g h.mem n base' va := by
      simp [hwReads, hw, hblock, htable, haddr]
    have hleaf : leafAttributes g h.mem (n + 1) base va = leafAttributes g h.mem n base' va := by
      simp [leafAttributes, hwWalk, hw, hblock, htable, haddr]
    rw [hreads, hleaf, hmask, haddr, hblock, htable]
    simp [LoopAgrees]

theorem EncTable.below_table {i : Nat} (hi : i < g.fan)
    (htable : isPgtEntryTable (h.mem (base + 8 * i)) = true) :
    ∃ table', EncTable g h n (i :: path) table' (g.tableAddress (h.mem (base + 8 * i))) := by
  rcases he.entry_cases ha hf.lt.le hf.le hi with
    ⟨hzero | hblock, -⟩ | ⟨table', base', -, he', hpoints⟩
  · rw [hzero] at htable
    cases htable
  · rw [isPgtEntryBlock_iff] at hblock
    rw [isPgtEntryTable_iff, hblock] at htable
    cases htable
  · rw [hpoints.address]
    exact ⟨table', he'⟩

end

theorem sub32_bits (g : Granule) (hn : n ≤ 3) :
    sub32 ((n + 1) * g.bits + g.log2) g.bits = n * g.bits + g.log2 := by
  have hlog := g.log2_le
  have hbits : g.bits ≤ 13 := by cases g <;> decide
  have hmul := Nat.mul_le_mul hn hbits
  rw [succ_mul, sub32]
  omega

section

variable (hf : Format g ias)
include hf

theorem readLoop_eq_iff (hn : n ≤ 3) (he : EncTable g h n path table base)
    (ha : Allocated P h k) (hfuel : n + 1 ≤ fuel) :
    LoopAgrees g ias va h.mem fuel (3 - n) (n * g.bits + g.log2) g.bits n base ↔
      NoHole g h.mem n base va := by
  induction n generalizing fuel path table base with
  | zero =>
    obtain ⟨fuel, rfl⟩ := Nat.exists_eq_add_of_le' hfuel
    have hindex : va >>> (0 * g.bits + g.log2) &&& 1 <<< g.bits - 1 = g.index 0 va := by
      rw [Granule.index, one_shiftLeft]
    exact iff_of_true (readLoop_pages h.mem ias fuel base va hindex) trivial
  | succ n ih =>
    obtain ⟨fuel, rfl⟩ : ∃ m, fuel = m + 1 := ⟨fuel - 1, by omega⟩
    have hindex : va >>> ((n + 1) * g.bits + g.log2) &&& 1 <<< g.bits - 1 = g.index (n + 1) va := by
      rw [Granule.index, one_shiftLeft]
    have hlevel : 3 - (n + 1) + 1 = 3 - n := by omega
    rw [readLoop_above_iff hf he ha (by omega) hindex rfl, hlevel, sub32_bits g (by omega)]
    apply or_congr_right
    apply and_congr_right
    intro htable
    obtain ⟨table', he'⟩ := he.below_table hf ha (g.index_lt (n + 1) va) htable
    exact ih (by omega) he' (by omega)

/-! ## The first table -/

theorem Format.topBits_spec :
    0 < topBits g ias ∧ topBits g ias ≤ g.bits ∧
      topBits g ias + (topHeight g ias * g.bits + g.log2) = ias := by
  obtain ⟨-, hlt, hle⟩ := hf.topHeight_spec
  rw [succ_mul] at hle
  unfold topBits
  omega

theorem Format.topIndex_eq (hva : va < 2 ^ ias) :
    va >>> (topHeight g ias * g.bits + g.log2) &&& 1 <<< topBits g ias - 1 =
      g.index (topHeight g ias) va := by
  obtain ⟨-, hle, hsum⟩ := hf.topBits_spec
  have hlt : va / 2 ^ (topHeight g ias * g.bits + g.log2) < 2 ^ topBits g ias := by
    rw [Nat.div_lt_iff_lt_mul (Nat.two_pow_pos _), ← pow_add, hsum]
    exact hva
  rw [Granule.index, one_shiftLeft, shiftRight_and, shiftRight_and, mod_eq_of_lt hlt,
    mod_eq_of_lt (hlt.trans_le (Nat.pow_le_pow_right (by decide) hle))]

theorem Format.valPgtGetAttributes_eq (mem : Nat → Nat) (fuel va : Nat)
    {attributes : Nat} (hbase : base ≠ 0) (hattr : attributes ≠ 0) :
    valPgtGetAttributes mem fuel base ⟨64 - ias, g.log2⟩ va attributes =
      readLoop mem ias g.log2 g.bits va fuel (3 - topHeight g ias)
        (topHeight g ias * g.bits + g.log2) (topBits g ias) base := by
  obtain ⟨hn, hlt, -⟩ := hf.topHeight_spec
  have hle := hf.le
  have hias : sub32 64 (64 - ias) = ias := by
    rw [sub32]
    omega
  have hone : sub32 (topHeight g ias + 1) 1 = topHeight g ias := by
    rw [sub32]
    omega
  have hlevel : sub32 4 (topHeight g ias + 1) = 3 - topHeight g ias := by
    rw [sub32]
    omega
  have hbits : sub32 ias (topHeight g ias * g.bits + g.log2) = topBits g ias := by
    rw [sub32, topBits]
    omega
  rw [valPgtGetAttributes, if_neg hattr, if_neg hbase]
  simp only [hias, sub32_log2, hf.levels_eq, hone, hlevel]
  rw [mod_eq_of_lt (by omega), hbits]

theorem exists_probe (htop : topHeight g ias = n + 1) (hva : va < 2 ^ ias)
    (hpart : topBits g ias ≠ g.bits) :
    ∃ va' < 2 ^ ias, g.index (n + 1) va' = g.index (n + 1) va ∧
      va' >>> sub32 ((n + 1) * g.bits + g.log2) (topBits g ias) &&& 1 <<< g.bits - 1 ≠
        g.index n va' := by
  obtain ⟨hpos, hle, hsum⟩ := hf.topBits_spec
  have hias := hf.le
  rw [htop] at hsum
  generalize topBits g ias = t at hpos hle hsum hpart
  have hS : (n + 1) * g.bits + g.log2 = n * g.bits + g.log2 + g.bits := by
    rw [succ_mul]
    omega
  have hsub : sub32 ((n + 1) * g.bits + g.log2) t = n * g.bits + g.log2 + (g.bits - t) := by
    rw [sub32]
    omega
  have hias' : ias = n * g.bits + g.log2 + g.bits + t := by omega
  rw [hsub]
  simp only [Granule.index, one_shiftLeft, shiftRight_and, hS]
  generalize n * g.bits + g.log2 = T at hias'
  generalize hq : va / 2 ^ (T + g.bits) = q
  have hqlt : q < 2 ^ t := by
    rw [← hq, Nat.div_lt_iff_lt_mul (Nat.two_pow_pos _), ← pow_add, add_comm t, ← hias']
    exact hva
  have hTS : 2 ^ T < 2 ^ (T + g.bits) := Nat.pow_lt_pow_right (by decide) (by omega)
  refine ⟨2 ^ (T + g.bits) * q + 2 ^ T, ?_, ?_, ?_⟩
  · have hmul : 2 ^ (T + g.bits) * (q + 1) ≤ 2 ^ (T + g.bits) * 2 ^ t := Nat.mul_le_mul_left _ hqlt
    rw [mul_succ, ← pow_add, ← hias'] at hmul
    omega
  · rw [mul_add_div (Nat.two_pow_pos _), div_eq_of_lt hTS, add_zero]
  · -- the right index is 1, and the bits that the reader takes are those of an even number
    have hright : (2 ^ (T + g.bits) * q + 2 ^ T) / 2 ^ T % 2 ^ g.bits = 1 := by
      have hone : 1 < 2 ^ g.bits := Nat.one_lt_two_pow (by omega)
      rw [pow_add, mul_assoc, mul_add_div (Nat.two_pow_pos _),
        Nat.div_self (Nat.two_pow_pos _), mul_add_mod, mod_eq_of_lt hone]
    have hwrong : (2 ^ (T + g.bits) * q + 2 ^ T) / 2 ^ (T + (g.bits - t)) = 2 ^ t * q := by
      have hlt : 2 ^ T < 2 ^ (T + (g.bits - t)) := Nat.pow_lt_pow_right (by decide) (by omega)
      rw [show T + g.bits = T + (g.bits - t) + t by omega, pow_add 2 (T + (g.bits - t)),
        mul_assoc, mul_add_div (Nat.two_pow_pos _), div_eq_of_lt hlt, add_zero]
    have heven : 2 ∣ 2 ^ t * q % 2 ^ g.bits := by
      rw [dvd_mod_iff (dvd_pow_self 2 (by omega))]
      exact Nat.dvd_mul_right_of_dvd (dvd_pow_self 2 (by omega)) q
    rw [hwrong]
    omega

theorem readTop_iff (htop : topHeight g ias = n + 1)
    (he : EncTable g h (n + 1) path table base) (ha : Allocated P h k) (hfuel : n + 1 ≤ fuel) :
    (∀ va < 2 ^ ias, LoopAgrees g ias va h.mem (fuel + 1) (3 - (n + 1)) ((n + 1) * g.bits + g.log2)
        (topBits g ias) (n + 1) base) ↔
      ∀ va < 2 ^ ias, NoHole g h.mem (n + 1) base va ∧ (topBits g ias = g.bits ∨
        isPgtEntryBlock (h.mem (base + 8 * g.index (n + 1) va)) = true) := by
  have hn := hf.topHeight_spec.1
  have hlevel : 3 - (n + 1) + 1 = 3 - n := by omega
  have hindex : ∀ va < 2 ^ ias, va >>> ((n + 1) * g.bits + g.log2) &&& 1 <<< topBits g ias - 1 =
      g.index (n + 1) va := by
    intro va hva
    rw [← htop]
    exact hf.topIndex_eq hva
  have hbelow : ∀ va w, h.mem (base + 8 * g.index (n + 1) va) = w → isPgtEntryTable w = true →
      topBits g ias = g.bits → (LoopAgrees g ias va h.mem fuel (3 - (n + 1) + 1)
        (sub32 ((n + 1) * g.bits + g.log2) (topBits g ias)) g.bits n (g.tableAddress w) ↔
        NoHole g h.mem n (g.tableAddress w) va) := by
    rintro va _ rfl htable hfull
    obtain ⟨table', he'⟩ := he.below_table hf ha (g.index_lt (n + 1) va) htable
    rw [hlevel, hfull, sub32_bits g (by omega)]
    exact readLoop_eq_iff hf (by omega) he' ha hfuel
  constructor
  · intro hagrees va hva
    rcases (readLoop_above_iff hf he ha (by omega) (hindex va hva) rfl).mp (hagrees va hva) with
      hblock | ⟨htable, hrest⟩
    · exact ⟨.inl hblock, .inr hblock⟩
    have hfull : topBits g ias = g.bits := by
      by_contra hpart
      obtain ⟨va', hva', hsame, hne⟩ := exists_probe hf htop hva hpart
      rcases (readLoop_above_iff hf he ha (by omega) (hindex va' hva') rfl).mp
        (hagrees va' hva') with hblock | ⟨-, hrest'⟩
      · rw [hsame, isPgtEntryBlock_iff] at hblock
        rw [isPgtEntryTable_iff, hblock] at htable
        cases htable
      · have hhead := readLoop_head hrest'
        rw [hwReads_head] at hhead
        have heq := Option.some.inj hhead
        omega
    exact ⟨.inr ⟨htable, (hbelow va _ rfl htable hfull).mp hrest⟩, .inl hfull⟩
  · intro hfits va hva
    obtain ⟨hhole, htopFits⟩ := hfits va hva
    apply (readLoop_above_iff hf he ha (by omega) (hindex va hva) rfl).mpr
    rcases htopFits with hfull | hblock
    · rcases hhole with hblock | ⟨htable, hhole⟩
      · exact .inl hblock
      · exact .inr ⟨htable, (hbelow va _ rfl htable hfull).mpr hhole⟩
    · exact .inl hblock

end

/-- For every table that a run of the program has built, the reader agrees with the hardware on
all addresses exactly when the table has no hole and no partial first level of tables. -/
theorem valPgtGetAttributes_agrees_iff {oas : Nat} {s : State} {bases : List Nat} {attributes : Nat}
    (hf : Format g ias) (hs : Reachable P oas s bases) (hbase : base ∈ bases) (hfuel : 4 ≤ fuel)
    (hattr : attributes ≠ 0) :
    ReaderAgrees g ias fuel s.mem base attributes ↔ ReaderFits g ias s.mem base := by
  obtain ⟨h, trees, ht⟩ := hs.tables hf
  obtain ⟨i, hi⟩ := List.mem_iff_getElem?.mp hbase
  have he := ht.enc i base hi
  have ha := ht.owned.allocated
  have hne := Nat.pos_iff_ne_zero.mp (he.table_lt ha).1
  have hn := hf.topHeight_spec.1
  obtain ⟨fuel, rfl⟩ : ∃ m, fuel = m + 1 := ⟨fuel - 1, by omega⟩
  simp only [ReaderAgrees, ReaderFits, hf.valPgtGetAttributes_eq _ _ _ hne hattr, ← ht.owned.mem]
  cases htop : topHeight g ias with
  | zero =>
    apply iff_of_true
    · intro va hva
      have hindex := hf.topIndex_eq hva
      rw [htop] at hindex
      exact readLoop_pages h.mem ias fuel base va hindex
    · exact .inl rfl
  | succ n =>
    rw [htop] at he
    exact (readTop_iff hf htop he ha (by omega)).trans (or_iff_right (succ_ne_zero n)).symm

end

def twoBlocks : MemoryRegion := ⟨0, 0, 0x400000, 4⟩

def blockTable : State := afterCall twoBlocks 0 (firstState fun _ => 0)

theorem reachable_blockTable : Reachable smallPages 32 blockTable [0x10000] :=
  .create twoBlocks (.start fun _ => 0) (by constructor <;> decide) (by decide)
    (show smallCall twoBlocks 0 (firstState fun _ => 0) =
      some (0, ⟨0x10000, 22, 32⟩, blockTable) from smallCall_eq (by decide +kernel))

theorem valPgtGetAttributes_agrees_twoBlocks :
    ReaderFits .k4 22 blockTable.mem 0x10000 ∧ ReaderAgrees .k4 22 4 blockTable.mem 0x10000 8 := by
  have hblocks : ∀ i < 2, isPgtEntryBlock (blockTable.mem (0x10000 + 8 * i)) = true := by
    decide +kernel
  have hfits : ReaderFits .k4 22 blockTable.mem 0x10000 := by
    right
    intro va hva
    have hindex : Granule.k4.index 1 va < 2 := by
      rw [Granule.index, shiftRight_and]
      show va / 2 ^ 21 % 2 ^ 9 < 2
      omega
    have hblock := hblocks _ hindex
    exact ⟨.inl hblock, .inr hblock⟩
  have hiff := valPgtGetAttributes_agrees_iff ⟨by decide, by decide⟩ reachable_blockTable
    (List.mem_singleton_self 0x10000) le_rfl (show 8 ≠ 0 by decide)
  exact ⟨hfits, hiff.mpr hfits⟩

/-- In the table of one page, the reader finds attributes for the next page, which is not mapped,
and for an address above it reads at 16, where no table is. -/
theorem valPgtGetAttributes_disagrees :
    Reachable smallPages 32 smallTable [0x10000] ∧
      (hwWalk .k4 smallTable.mem 1 0x10000 0x1000 = none ∧
        valPgtGetAttributes smallTable.mem 4 0x10000 ⟨42, 12⟩ 0x1000 8 =
          some (some 0, [0x10000, 0x11000])) ∧
      hwReads .k4 smallTable.mem 1 0x10000 0x200000 = [0x10008] ∧
      valPgtGetAttributes smallTable.mem 4 0x10000 ⟨42, 12⟩ 0x200000 8 =
        some (none, [0x10008, 16]) := by
  refine ⟨reachable_smallTable, ⟨?_, ?_⟩, ?_, ?_⟩
  · decide +kernel
  · decide +kernel
  · decide +kernel
  · decide +kernel

end ServerSoc.Pgt
