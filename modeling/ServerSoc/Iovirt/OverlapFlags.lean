/-
What the overlap flags mean.

The loops compare the right mappings as long as no block has two of them.  With one map in each
block, a flag is set for every two ranges that meet by the comparison of the code.  It leaves out
the last id of a range, and takes a range with the id 0 only for all ids (`rangesMeet_iff`).
-/
import ServerSoc.Iovirt.Table
import ServerSoc.Iovirt.Overlap

namespace ServerSoc.Iovirt

open List

/-! ## Which maps are read -/

variable {mem : Words} {l : List Nat} {keyBlock k block i b : Nat}

section

variable {n : Nat} {p : Nat × Nat}

theorem blocksFrom_sorted (mem : Words) (n b : Nat) : (blocksFrom mem n b).Pairwise (· < ·) := by
  induction n generalizing b with
  | zero => exact List.Pairwise.nil
  | succ n ih =>
    refine pairwise_cons.mpr ⟨fun b' hb' => ?_, ih _⟩
    have hlt := lt_nextBlock mem b
    have hle := le_of_mem_blocksFrom hb'
    omega

theorem blocks_sorted (mem : Words) : (blocks mem).Pairwise (· < ·) := blocksFrom_sorted _ _ _

theorem other_mem_keyReads :
    .other keyBlock k block i ∈ keyReads mem l b n ↔
      b = keyBlock ∧ n = k ∧ block ∈ l ∧
        i ∈ range' (turns mem keyBlock k block).1 (turns mem keyBlock k block).2 := by
  simp only [keyReads, blockReads, mem_cons, mem_flatMap, mem_map, reduceCtorEq,
    false_or, Read.other.injEq]
  constructor
  · rintro ⟨b', hb', i', hi', rfl, rfl, rfl, rfl⟩
    exact ⟨rfl, rfl, hb', hi'⟩
  · rintro ⟨rfl, rfl, hb, hi⟩
    exact ⟨block, hb, i, hi, rfl, rfl, rfl, rfl⟩

theorem other_mem_tableReads (hl : l.Pairwise (· < ·)) :
    .other keyBlock k block i ∈ tableReads mem l ↔
      keyBlock ∈ l ∧ block ∈ l ∧ keyBlock ≤ block ∧ typeOf mem keyBlock ≠ NodeType.itsGroup.code ∧
        k < numDataMap mem keyBlock ∧
        i ∈ range' (turns mem keyBlock k block).1 (turns mem keyBlock k block).2 := by
  induction l with
  | nil => simp [tableReads]
  | cons b l ih =>
    obtain ⟨hb, hl⟩ := pairwise_cons.mp hl
    rw [tableReads, mem_append, ih hl]
    constructor
    · intro h
      rcases h with h | ⟨h1, h2, h3⟩
      · split_ifs at h with hits
        · cases h
        · obtain ⟨n, hn, h⟩ := mem_flatMap.mp h
          obtain ⟨rfl, rfl, hblock, hi⟩ := other_mem_keyReads.mp h
          refine ⟨mem_cons_self, hblock, ?_, hits, mem_range.mp hn, hi⟩
          rcases mem_cons.mp hblock with rfl | hblock
          · exact le_rfl
          · exact (hb block hblock).le
      · exact ⟨mem_cons_of_mem b h1, mem_cons_of_mem b h2, h3⟩
    · rintro ⟨h1, h2, h3, h4, h5, h6⟩
      rcases mem_cons.mp h1 with rfl | h1'
      · refine .inl ?_
        rw [if_neg h4]
        exact mem_flatMap.mpr
          ⟨k, mem_range.mpr h5, other_mem_keyReads.mpr ⟨rfl, rfl, h2, h6⟩⟩
      · refine .inr ⟨h1', ?_, h3, h4, h5, h6⟩
        rcases mem_cons.mp h2 with rfl | h2'
        · have hlt := hb keyBlock h1'
          omega
        · exact h2'

theorem key_mem_tableReads (h : .key keyBlock k ∈ tableReads mem l) :
    k < numDataMap mem keyBlock := by
  induction l with
  | nil => cases h
  | cons b l ih =>
    rcases mem_append.mp h with h | h
    · split at h
      · cases h
      · obtain ⟨n, hn, h⟩ := mem_flatMap.mp h
        rcases mem_cons.mp h with h | h
        · cases h
          exact mem_range.mp hn
        · obtain ⟨b', -, h⟩ := mem_flatMap.mp h
          obtain ⟨i, -, h⟩ := mem_map.mp h
          cases h
    · exact ih h

def Read.target : Read → Nat × Nat
  | .key keyBlock k => (keyBlock, k)
  | .other _ _ block i => (block, i)

theorem run_reads (mem : Words) (s : Scan) (r : Read) :
    (r.run mem s).reads = r.target :: s.reads := by
  cases r with
  | key keyBlock k => rfl
  | other keyBlock k block i =>
    simp only [Read.run, compareMap]
    split
    · rfl
    · split <;> rfl

theorem mem_foldl_reads {s : Scan} {reads : List Read} :
    p ∈ (reads.foldl (Read.run mem) s).reads ↔ p ∈ s.reads ∨ ∃ r ∈ reads, r.target = p := by
  induction reads generalizing s with
  | nil => simp
  | cons r reads ih =>
    rw [foldl_cons, ih, run_reads]
    simp only [mem_cons, exists_eq_or_imp, eq_comm (a := p)]
    rw [or_assoc, or_left_comm]

theorem mem_checkMappingOverlap_reads :
    p ∈ (checkMappingOverlap mem).reads ↔ ∃ r ∈ tableReads mem (blocks mem), r.target = p := by
  rw [checkMappingOverlap_eq, mem_foldl_reads]
  simp

def Single (mem : Words) : Prop :=
  ∀ b ∈ blocks mem, typeOf mem b ≠ NodeType.itsGroup.code → numDataMap mem b ≤ 1

/-- With at most one map in each block, the comparisons are between different blocks. -/
theorem Single.other_mem (h : Single mem) :
    .other keyBlock k block i ∈ tableReads mem (blocks mem) ↔
      keyBlock ∈ blocks mem ∧ block ∈ blocks mem ∧ keyBlock < block ∧ k = 0 ∧ i = 0 ∧
        typeOf mem keyBlock ≠ NodeType.itsGroup.code ∧ typeOf mem block ≠ NodeType.itsGroup.code ∧
        0 < numDataMap mem keyBlock ∧ 0 < numDataMap mem block := by
  rw [other_mem_tableReads (blocks_sorted mem), mem_range'_1, turns]
  constructor
  · rintro ⟨h1, h2, h3, h4, h5, h6⟩
    have hkey := h keyBlock h1 h4
    split_ifs at h6 with hits heq
    · omega
    · rw [heq] at h6
      omega
    · have hblock := h block h2 hits
      exact ⟨h1, h2, by omega, by omega, by omega, h4, hits, by omega, by omega⟩
  · rintro ⟨h1, h2, h3, rfl, rfl, h4, h5, h6, h7⟩
    rw [if_neg h5, if_neg (by omega)]
    exact ⟨h1, h2, by omega, h4, h6, by omega⟩

/-- The reads stay inside the blocks exactly when no block has two maps. -/
theorem reads_inside_iff :
    (∀ p ∈ (checkMappingOverlap mem).reads, p.2 < numDataMap mem p.1) ↔ Single mem := by
  constructor
  · intro h b hb hits
    by_contra hlt
    -- the second map as the key: its last turn is behind the block
    have hread : .other b 1 b (numDataMap mem b) ∈ tableReads mem (blocks mem) := by
      rw [other_mem_tableReads (blocks_sorted mem), turns, if_neg hits, if_pos rfl,
        mem_range'_1]
      exact ⟨hb, hb, le_rfl, hits, by omega, by omega⟩
    have hmem := h _ (mem_checkMappingOverlap_reads.mpr ⟨_, hread, rfl⟩)
    exact absurd hmem (lt_irrefl _)
  · intro h p hp
    obtain ⟨r, hr, rfl⟩ := mem_checkMappingOverlap_reads.mp hp
    cases r with
    | key keyBlock k => exact key_mem_tableReads hr
    | other keyBlock k block i =>
      obtain ⟨-, -, -, -, rfl, -, -, -, hpos⟩ := h.other_mem.mp hr
      exact hpos

end

/-! ## Which flags are set -/

variable {shift : Nat}

section

variable {mem' : Words} {s : Scan}

theorem testBit_setFlag (mem : Words) (block shift b j : Nat) :
    (flagsOf (setFlag mem block shift) b).testBit j = true ↔
      (flagsOf mem b).testBit j = true ∨ (b = block ∧ j = shift) := by
  by_cases hb : b = block
  · rw [hb, flagsOf, setFlag, Function.update_self, Nat.testBit_or, Nat.one_shiftLeft,
      Nat.testBit_two_pow, Bool.or_eq_true, decide_eq_true_eq, eq_comm (a := shift)]
    simp
  · have hne : flagsWord b ≠ flagsWord block := by
      rw [flagsWord, flagsWord]
      omega
    rw [flagsOf, setFlag, Function.update_of_ne hne]
    simp [hb, flagsOf]

def Hit (mem : Words) (keyBlock k block i : Nat) : Prop :=
  (mapAt mem block i).outputRef = (mapAt mem keyBlock k).outputRef ∧
    rangesMeet (mapAt mem keyBlock k).outputBase (rangeEnd (mapAt mem keyBlock k))
      (mapAt mem block i).outputBase (rangeEnd (mapAt mem block i)) = true

def RefsOk (mem : Words) : Prop :=
  ∀ b ∈ blocks mem, typeOf mem b ≠ NodeType.itsGroup.code → ∀ i < numDataMap mem b,
    refBlock (mapAt mem b i).outputRef ∈ blocks mem

theorem SameButFlags.overlapShift {ref : Nat} (h : SameButFlags mem (blocks mem) mem')
    (hr : refBlock ref ∈ blocks mem) : overlapShift mem' ref = overlapShift mem ref := by
  rw [Iovirt.overlapShift, h.typeOf hr, Iovirt.overlapShift]

theorem testBit_run_other (h : SameButFlags mem (blocks mem) s.mem) (hkey : keyBlock ∈ blocks mem)
    (hblock : block ∈ blocks mem) (hk : k < numDataMap mem keyBlock) (hi : i < numDataMap mem block)
    (href : refBlock (mapAt mem block i).outputRef ∈ blocks mem) (j : Nat) :
    (flagsOf (Read.run mem s (.other keyBlock k block i)).mem b).testBit j = true ↔
      (flagsOf s.mem b).testBit j = true ∨ (Hit mem keyBlock k block i ∧
        j = overlapShift mem (mapAt mem block i).outputRef ∧ (b = keyBlock ∨ b = block)) := by
  simp only [Read.run, compareMap, h.mapAt hkey hk, h.mapAt hblock hi, h.overlapShift href, Hit]
  split_ifs with hne hmeet
  · simp [hne]
  · simp only [testBit_setFlag]
    tauto
  · simp [hmeet]

/-- Both maps of a comparison are inside their blocks, and the reference leads to a block. -/
def Read.Sound (mem : Words) : Read → Prop
  | .key _ _ => True
  | .other keyBlock k block i =>
    keyBlock ∈ blocks mem ∧ block ∈ blocks mem ∧ k < numDataMap mem keyBlock ∧
      i < numDataMap mem block ∧ refBlock (mapAt mem block i).outputRef ∈ blocks mem

theorem Read.Sound.inside {r : Read} (h : r.Sound mem) : r.Inside (blocks mem) := by
  cases r with
  | key keyBlock k => trivial
  | other keyBlock k block i => exact ⟨h.1, h.2.1⟩

theorem testBit_foldl {reads : List Read} (h : SameButFlags mem (blocks mem) s.mem)
    (hr : ∀ r ∈ reads, r.Sound mem) (j : Nat) :
    (flagsOf (reads.foldl (Read.run mem) s).mem b).testBit j = true ↔
      (flagsOf s.mem b).testBit j = true ∨ ∃ keyBlock k block i,
        .other keyBlock k block i ∈ reads ∧ Hit mem keyBlock k block i ∧
        j = overlapShift mem (mapAt mem block i).outputRef ∧ (b = keyBlock ∨ b = block) := by
  induction reads generalizing s with
  | nil => simp
  | cons r reads ih =>
    have hsound := hr r mem_cons_self
    have hrest := fun r' hr' => hr r' (mem_cons_of_mem r hr')
    rw [foldl_cons, ih (sameButFlags_run h hsound.inside) hrest]
    cases r with
    | key keyBlock k => simp [Read.run]
    | other keyBlock k block i =>
      obtain ⟨h1, h2, h3, h4, h5⟩ := hsound
      rw [testBit_run_other h h1 h2 h3 h4 h5, or_assoc]
      refine or_congr_right ⟨fun hb => ?_, fun hb => ?_⟩
      · rcases hb with hb | ⟨kb, k', b', i', hmem, hb⟩
        · exact ⟨keyBlock, k, block, i, mem_cons_self, hb⟩
        · exact ⟨kb, k', b', i', mem_cons_of_mem _ hmem, hb⟩
      · obtain ⟨kb, k', b', i', hmem, hb⟩ := hb
        rcases mem_cons.mp hmem with heq | hmem
        · cases heq
          exact .inl hb
        · exact .inr ⟨kb, k', b', i', hmem, hb⟩

end

/-! ## The contract -/

/-- A mapping of the table.  ITS groups keep identifiers in place of mappings. -/
def IsMapping (mem : Words) (b i : Nat) : Prop :=
  b ∈ blocks mem ∧ typeOf mem b ≠ NodeType.itsGroup.code ∧ i < numDataMap mem b

def Shared (m m' : IdMap) : Prop :=
  ∃ rid < 2 ^ 32, ∃ rid' < 2 ^ 32,
    m.accepts rid = true ∧ m'.accepts rid' = true ∧ m.outputId rid = m'.outputId rid'

def Overlaps (mem : Words) (shift b : Nat) : Prop :=
  ∃ i b' i', IsMapping mem b i ∧ IsMapping mem b' i' ∧ (b', i') ≠ (b, i) ∧
    (mapAt mem b i).outputRef = (mapAt mem b' i').outputRef ∧
    overlapShift mem (mapAt mem b i).outputRef = shift ∧ Shared (mapAt mem b i) (mapAt mem b' i')

def palIovirtUniqueRidStridMap (mem : Words) (rcBlock : Nat) : Nat :=
  if (flagsOf mem rcBlock).testBit flagStridOverlapShift then 0 else 1

structure OverlapContract (mem : Words) (r : Scan) : Prop where
  flags : ∀ b ∈ blocks mem, ∀ shift ∈ [flagDevidOverlapShift, flagStridOverlapShift],
    ((flagsOf r.mem b).testBit shift = true ↔ Overlaps mem shift b)
  unique : ∀ b, typeOf mem b = NodeType.pciRootComplex.code →
    palIovirtUniqueRidStridMap r.mem b = 1 →
    ∀ i b' i', IsMapping mem b i → IsMapping mem b' i' → (b', i') ≠ (b, i) →
      (mapAt mem b i).outputRef = (mapAt mem b' i').outputRef →
      typeOf mem (refBlock (mapAt mem b i).outputRef) ≠ NodeType.itsGroup.code →
      ∀ rid < 2 ^ 32, ∀ rid' < 2 ^ 32, (mapAt mem b i).accepts rid = true →
        (mapAt mem b' i').accepts rid' = true →
        (mapAt mem b i).outputId rid ≠ (mapAt mem b' i').outputId rid'
  reads : ∀ p ∈ r.reads, p.2 < numDataMap mem p.1

def FlagsClear (mem : Words) : Prop :=
  ∀ b ∈ blocks mem, ∀ shift ∈ [flagDevidOverlapShift, flagStridOverlapShift],
    (flagsOf mem b).testBit shift = false

/-- The comparison of the code for the maps of two blocks, the first block as the key. -/
def Meets (mem : Words) (b b' : Nat) : Prop :=
  rangesMeet (mapAt mem (min b b') 0).outputBase (rangeEnd (mapAt mem (min b b') 0))
    (mapAt mem (max b b') 0).outputBase (rangeEnd (mapAt mem (max b b') 0)) = true

def Beside (mem : Words) (P : Nat → Prop) (b : Nat) : Prop :=
  ∃ b', IsMapping mem b' 0 ∧ b' ≠ b ∧
    (mapAt mem b 0).outputRef = (mapAt mem b' 0).outputRef ∧ P b'

/-- No range of requester ids or of output ids leaves 32 bits. -/
def InRange (mem : Words) : Prop :=
  ∀ b i, IsMapping mem b i → (mapAt mem b i).inputBase + (mapAt mem b i).idCount < 2 ^ 32 ∧
    (mapAt mem b i).outputBase + (mapAt mem b i).idCount < 2 ^ 32

namespace IdMap

/-- The output ids are the `idCount + 1` ids from `outputBase` on. -/
def SharesId (m m' : IdMap) : Prop :=
  m.outputBase ≤ m'.outputBase + m'.idCount ∧ m'.outputBase ≤ m.outputBase + m.idCount

def OnlyZero (m : IdMap) : Prop := m.outputBase = 0 ∧ m.idCount = 0

/-- The ranges share more than the last id of one of them, or the one in front is a single id. -/
def SharesMore (key m : IdMap) : Prop :=
  (key.outputBase < m.outputBase + m.idCount ∧ m.outputBase < key.outputBase + key.idCount) ∨
    (key.idCount = 0 ∧ 0 < m.idCount ∧ key.SharesId m)

end IdMap

/-- A block that shares an id with another one shares more than that with one, or one of them has
the id 0 only.  A block with the id 0 only, or beside such a block, shares an id with one. -/
structure RangesSeen (mem : Words) : Prop where
  touch : ∀ b, IsMapping mem b 0 →
    Beside mem (fun b' => (mapAt mem b 0).SharesId (mapAt mem b' 0)) b →
    Beside mem (fun b' => (mapAt mem (min b b') 0).SharesMore (mapAt mem (max b b') 0) ∨
      (mapAt mem b 0).OnlyZero ∨ (mapAt mem b' 0).OnlyZero) b
  zero : ∀ b, IsMapping mem b 0 →
    Beside mem (fun b' => (mapAt mem b 0).OnlyZero ∨ (mapAt mem b' 0).OnlyZero) b →
    Beside mem (fun b' => (mapAt mem b 0).SharesId (mapAt mem b' 0)) b

section

variable {m m' key : IdMap}

theorem shared_iff (hm : m.inputBase + m.idCount < 2 ^ 32 ∧ m.outputBase + m.idCount < 2 ^ 32)
    (hm' : m'.inputBase + m'.idCount < 2 ^ 32 ∧ m'.outputBase + m'.idCount < 2 ^ 32) :
    Shared m m' ↔ m.SharesId m' := by
  simp only [Shared, IdMap.SharesId, IdMap.accepts, IdMap.outputId, Bool.and_eq_true,
    decide_eq_true_eq]
  constructor
  · rintro ⟨rid, hrid, rid', hrid', hacc, hacc', heq⟩
    omega
  · intro h
    refine ⟨m.inputBase + (max m.outputBase m'.outputBase - m.outputBase), by omega,
      m'.inputBase + (max m.outputBase m'.outputBase - m'.outputBase),
      by omega, by omega, by omega, ?_⟩
    omega

theorem rangeEnd_eq (h : m.outputBase + m.idCount < 2 ^ 32) : rangeEnd m =
    if m.outputBase + m.idCount = 0 then 2 ^ 32 - 1 else m.outputBase + m.idCount - 1 := by
  rw [rangeEnd]
  split_ifs <;> omega

theorem rangesMeet_iff (hkey : key.outputBase + key.idCount < 2 ^ 32)
    (hm : m.outputBase + m.idCount < 2 ^ 32) :
    rangesMeet key.outputBase (rangeEnd key) m.outputBase (rangeEnd m) = true ↔
      key.SharesMore m ∨ key.OnlyZero ∨ m.OnlyZero := by
  simp only [rangesMeet, rangeEnd_eq hkey, rangeEnd_eq hm, IdMap.SharesMore, IdMap.SharesId,
    IdMap.OnlyZero, Bool.or_eq_true, Bool.and_eq_true, decide_eq_true_eq]
  split_ifs <;> omega

theorem beside_congr {P Q : Nat → Prop} (h : ∀ b', IsMapping mem b' 0 → (P b' ↔ Q b')) :
    Beside mem P b ↔ Beside mem Q b :=
  exists_congr fun b' => and_congr_right fun hm => by rw [h b' hm]

theorem rangesSeen_iff (hrange : InRange mem) : RangesSeen mem ↔ ∀ b, IsMapping mem b 0 →
    (Beside mem (Meets mem b) b ↔
      Beside mem (fun b' => Shared (mapAt mem b 0) (mapAt mem b' 0)) b) := by
  have hmeets {b b' : Nat} (hm : IsMapping mem b 0) (hm' : IsMapping mem b' 0) : Meets mem b b' ↔
      (mapAt mem (min b b') 0).SharesMore (mapAt mem (max b b') 0) ∨
        (mapAt mem b 0).OnlyZero ∨ (mapAt mem b' 0).OnlyZero := by
    rw [Meets]
    rcases Nat.le_total b b' with h | h
    · rw [Nat.min_eq_left h, Nat.max_eq_right h]
      exact rangesMeet_iff (hrange b 0 hm).2 (hrange b' 0 hm').2
    · rw [Nat.min_eq_right h, Nat.max_eq_left h,
        rangesMeet_iff (hrange b' 0 hm').2 (hrange b 0 hm).2]
      exact or_congr_right or_comm
  have hagree {b : Nat} (hm : IsMapping mem b 0) :=
    iff_congr (beside_congr (b := b) fun b' hm' => hmeets hm hm')
      (beside_congr (b := b) fun b' hm' => shared_iff (hrange b 0 hm) (hrange b' 0 hm'))
  constructor
  · intro h b hm
    rw [hagree hm]
    refine ⟨fun hseen => ?_, h.touch b hm⟩
    obtain ⟨b', hm', hne, href, hmore | hzero⟩ := hseen
    · have hshare : (mapAt mem (min b b') 0).SharesId (mapAt mem (max b b') 0) :=
        hmore.elim (fun h => ⟨h.1.le, h.2.le⟩) fun h => h.2.2
      refine ⟨b', hm', hne, href, ?_⟩
      rcases Nat.le_total b b' with h | h
      · rwa [Nat.min_eq_left h, Nat.max_eq_right h] at hshare
      · rw [Nat.min_eq_right h, Nat.max_eq_left h] at hshare
        exact hshare.symm
    · exact h.zero b hm ⟨b', hm', hne, href, hzero⟩
  · intro h
    refine ⟨fun b hm => ((hagree hm).mp (h b hm)).mpr, fun b hm hzero => ?_⟩
    obtain ⟨b', hm', hne, href, hzero⟩ := hzero
    exact ((hagree hm).mp (h b hm)).mp ⟨b', hm', hne, href, .inr hzero⟩

end

theorem Single.index_eq (h : Single mem) (hm : IsMapping mem b i) : i = 0 := by
  have hle := h b hm.1 hm.2.1
  have hlt := hm.2.2
  omega

theorem Single.sound (h : Single mem) (href : RefsOk mem) :
    ∀ r ∈ tableReads mem (blocks mem), r.Sound mem := by
  intro r hr
  cases r with
  | key keyBlock k => trivial
  | other keyBlock k block i =>
    obtain ⟨h1, h2, -, rfl, rfl, -, h5, h6, h7⟩ := h.other_mem.mp hr
    exact ⟨h1, h2, h6, h7, href block h2 h5 0 h7⟩

theorem Single.testBit_iff (h : Single mem) (href : RefsOk mem) (hclear : FlagsClear mem)
    (hb : b ∈ blocks mem) (hs : shift ∈ [flagDevidOverlapShift, flagStridOverlapShift]) :
    (flagsOf (checkMappingOverlap mem).mem b).testBit shift = true ↔
      IsMapping mem b 0 ∧ overlapShift mem (mapAt mem b 0).outputRef = shift ∧
        Beside mem (Meets mem b) b := by
  rw [checkMappingOverlap_eq, testBit_foldl (sameButFlags_refl mem _) (h.sound href),
    hclear b hb shift hs]
  simp only [Bool.false_eq_true, false_or]
  constructor
  · rintro ⟨keyBlock, k, block, i, hr, ⟨heq, hmeet⟩, rfl, hside⟩
    obtain ⟨h1, h2, h3, rfl, rfl, h4, h5, h6, h7⟩ := h.other_mem.mp hr
    rcases hside with rfl | rfl
    · refine ⟨⟨h1, h4, h6⟩, by rw [heq], block, ⟨h2, h5, h7⟩, by omega, heq.symm, ?_⟩
      rw [Meets, Nat.min_eq_left (by omega), Nat.max_eq_right (by omega)]
      exact hmeet
    · refine ⟨⟨h2, h5, h7⟩, rfl, keyBlock, ⟨h1, h4, h6⟩, by omega, heq, ?_⟩
      rw [Meets, Nat.min_eq_right (by omega), Nat.max_eq_left (by omega)]
      exact hmeet
  · rintro ⟨⟨h1, h4, h6⟩, hshift, b', ⟨h2, h5, h7⟩, hne, heq, hmeet⟩
    rcases Nat.lt_or_gt_of_ne hne with hlt | hlt
    · rw [Meets, Nat.min_eq_right (by omega), Nat.max_eq_left (by omega)] at hmeet
      exact ⟨b', 0, b, 0, h.other_mem.mpr ⟨h2, h1, hlt, rfl, rfl, h5, h4, h7, h6⟩, ⟨heq, hmeet⟩,
        hshift.symm, .inr rfl⟩
    · rw [Meets, Nat.min_eq_left (by omega), Nat.max_eq_right (by omega)] at hmeet
      exact ⟨b, 0, b', 0, h.other_mem.mpr ⟨h1, h2, hlt, rfl, rfl, h4, h5, h6, h7⟩,
        ⟨heq.symm, hmeet⟩, by rw [← heq, hshift], .inl rfl⟩

theorem Single.overlaps_iff (h : Single mem) :
    Overlaps mem shift b ↔ IsMapping mem b 0 ∧
      overlapShift mem (mapAt mem b 0).outputRef = shift ∧
      Beside mem (fun b' => Shared (mapAt mem b 0) (mapAt mem b' 0)) b := by
  constructor
  · rintro ⟨i, b', i', hm, hm', hne, heq, hshift, hshared⟩
    obtain rfl := h.index_eq hm
    obtain rfl := h.index_eq hm'
    exact ⟨hm, hshift, b', hm', fun hbb => hne (by rw [hbb]), heq, hshared⟩
  · rintro ⟨hm, hshift, b', hm', hne, heq, hshared⟩
    exact ⟨0, b', 0, hm, hm', fun hpair => hne (congrArg Prod.fst hpair), heq, hshift, hshared⟩

theorem overlapShift_mem (mem : Words) (ref : Nat) :
    overlapShift mem ref ∈ [flagDevidOverlapShift, flagStridOverlapShift] := by
  rw [overlapShift]
  split
  · exact mem_cons_self
  · exact mem_cons_of_mem _ mem_cons_self

/-- The flags mean what they should and no read leaves a block exactly for tables with at
most one map in each block where no ranges only touch. -/
theorem checkMappingOverlap_contract_iff (mem : Words) (href : RefsOk mem) (hclear : FlagsClear mem)
    (hrange : InRange mem) :
    OverlapContract mem (checkMappingOverlap mem) ↔ Single mem ∧ RangesSeen mem := by
  rw [rangesSeen_iff hrange]
  constructor
  · intro h
    have hsingle := reads_inside_iff.mp h.reads
    refine ⟨hsingle, fun b hm => ?_⟩
    have hshift := overlapShift_mem mem (mapAt mem b 0).outputRef
    have hflags := h.flags b hm.1 _ hshift
    rw [hsingle.testBit_iff href hclear hm.1 hshift, hsingle.overlaps_iff] at hflags
    simpa [hm] using hflags
  · rintro ⟨hsingle, hagree⟩
    have hflags : ∀ b ∈ blocks mem, ∀ shift ∈ [flagDevidOverlapShift, flagStridOverlapShift],
        ((flagsOf (checkMappingOverlap mem).mem b).testBit shift = true ↔
          Overlaps mem shift b) := by
      intro b hb shift hshift
      rw [hsingle.testBit_iff href hclear hb hshift, hsingle.overlaps_iff]
      exact and_congr_right fun hm => and_congr_right fun _ => hagree b hm
    refine ⟨hflags,
      fun b _ hunique i b' i' hm hm' hne heq hits rid hrid rid' hrid' hacc hacc' => ?_,
      reads_inside_iff.mpr hsingle⟩
    intro hid
    have hflag := (hflags b hm.1 _ (by simp)).mpr
      ⟨i, b', i', hm, hm', hne, heq, if_neg hits, rid, hrid, rid', hrid', hacc, hacc', hid⟩
    rw [palIovirtUniqueRidStridMap, if_pos hflag] at hunique
    cases hunique

def twoRootComplexes (base : Nat) : Words
  | 0 | 6 => 3
  | 73 | 144 => 2
  | 74 | 145 => 1
  | 141 | 212 => 15
  | 143 | 214 => 24
  | 213 => base
  | _ => 0

theorem blocks_twoRootComplexes (base : Nat) : blocks (twoRootComplexes base) = [6, 73, 144] := rfl

theorem refsOk_twoRootComplexes (base : Nat) : RefsOk (twoRootComplexes base) := by
  rw [RefsOk, blocks_twoRootComplexes]
  simp [twoRootComplexes, numDataMap, mapAt, mapWord, refBlock]

theorem flagsClear_twoRootComplexes (base : Nat) : FlagsClear (twoRootComplexes base) := by
  rw [FlagsClear, blocks_twoRootComplexes]
  simp [twoRootComplexes, flagsOf, flagsWord]

theorem isMapping_twoRootComplexes (base : Nat) :
    IsMapping (twoRootComplexes base) 73 0 ∧ IsMapping (twoRootComplexes base) 144 0 := by
  simp [IsMapping, blocks_twoRootComplexes, twoRootComplexes, typeOf, numDataMap, NodeType.code]

/-- Stream ids 8 to 15 are produced by both root complexes, and the flags say so. -/
theorem checkMappingOverlap_contract_eight :
    OverlapContract (twoRootComplexes 8) (checkMappingOverlap (twoRootComplexes 8)) := by
  obtain ⟨h1, h2⟩ := isMapping_twoRootComplexes 8
  have honly {b : Nat} (hm : IsMapping (twoRootComplexes 8) b 0) : b = 73 ∨ b = 144 := by
    have hsmmu : ¬ IsMapping (twoRootComplexes 8) 6 0 := fun h => absurd h.2.2 (by decide)
    have hb : b ∈ [6, 73, 144] := hm.1
    simp only [mem_cons, not_mem_nil, or_false] at hb
    exact hb.resolve_left (by rintro rfl; exact hsmmu hm)
  have hcount {b : Nat} (hm : IsMapping (twoRootComplexes 8) b 0) :
      (mapAt (twoRootComplexes 8) b 0).idCount = 15 := by
    rcases honly hm with rfl | rfl <;> rfl
  have hsingle : Single (twoRootComplexes 8) := by
    intro b hb
    revert b
    decide
  refine (checkMappingOverlap_contract_iff _ (refsOk_twoRootComplexes 8)
    (flagsClear_twoRootComplexes 8) ?_).mpr ⟨hsingle, fun b hm _ => ?_, fun b hm hzero => ?_⟩
  · intro b i hm
    obtain rfl := hsingle.index_eq hm
    rcases honly hm with rfl | rfl <;> decide
  · rcases honly hm with rfl | rfl
    · exact ⟨144, h2, by decide, by decide, .inl (.inl (by decide))⟩
    · exact ⟨73, h1, by decide, by decide, .inl (.inl (by decide))⟩
  · obtain ⟨b', hm', -, -, hzero | hzero⟩ := hzero
    · cases (hcount hm).symm.trans hzero.2
    · cases (hcount hm').symm.trans hzero.2

/-- Stream id 15 is produced by both root complexes, but each is reported as unique. -/
theorem checkMappingOverlap_misses_last :
    palIovirtUniqueRidStridMap (checkMappingOverlap (twoRootComplexes 15)).mem 73 = 1 ∧
      Overlaps (twoRootComplexes 15) flagStridOverlapShift 73 ∧
      ¬ OverlapContract (twoRootComplexes 15) (checkMappingOverlap (twoRootComplexes 15)) := by
  have hov : Overlaps (twoRootComplexes 15) flagStridOverlapShift 73 := by
    obtain ⟨h1, h2⟩ := isMapping_twoRootComplexes 15
    exact ⟨0, 144, 0, h1, h2, by decide, by decide, by decide, 15, by decide, 0, by decide,
      by decide, by decide, by decide⟩
  have hclear : (flagsOf (checkMappingOverlap (twoRootComplexes 15)).mem 73).testBit
      flagStridOverlapShift = false := by decide
  refine ⟨?_, hov, fun h => ?_⟩
  · rfl
  · have hset := (h.flags 73 (by rw [blocks_twoRootComplexes]; decide) _ (by simp)).mpr hov
    cases hset

end ServerSoc.Iovirt
