/-
How far the builders of the info tables write (pal_hart.c, pal_iommu.c and pal_pcie.c of
pal_uefi_acpi/src), against the buffers the application gives them (uefi_app/BsaAcs.h).

No builder knows the size of its buffer.  The bytes a builder writes do not depend on what was in
the buffer, so that writing behind the end shows in some memory.
-/
import ServerSoc.Acpi.TableWalks
import ServerSoc.Memory.Writes
import ServerSoc.Pcie.InfoBuilder

namespace ServerSoc.Acpi

open Memory Base Option List Set Nat

def peInfoTblSz : Nat := 16384
def iommuInfoTblSz : Nat := 2048
def pcieInfoTblSz : Nat := 512

/-! ## Harts -/

section

open Hart

variable {madt rhct : Mem}

def hartTableAfter (madt rhct : Mem) (fuel : Nat) (tbl : Mem) : Mem :=
  ((madtVisits madt fuel).foldl (hartRound madt rhct) (Hart.entryBase 0, store tbl 0 4 0)).2

/-- The builder returns exactly when its walk over the records ends, and has then written the
entries in turn. -/
theorem palHartCreateInfoTable_eq_fold (madt rhct tbl : Mem) :
    palHartCreateInfoTable (some madt) (some rhct) tbl =
      if ends (madtRecordLength madt) (tableLength madt) (tableLength madt + 1)
          (madtHeaderSize, madtHeaderSize) then
        some (hartTableAfter madt rhct (tableLength madt + 1) tbl)
      else none :=
  createHarts_eq_visits madt rhct (tableLength madt + 1) madtHeaderSize madtHeaderSize
    (Hart.entryBase 0) (store tbl 0 4 0)

/-- The builder copies an ISA string of `len` bytes for the processor. -/
def CopiesIsa (rhct : Mem) (uid len : Nat) : Prop :=
  ∃ k < rhctNodeNumber rhct, (load rhct (nodeAt rhct k) 2 = typeHartInfo ∧
    load rhct (nodeAt rhct k + 8) 4 = uid) ∧
    ∃ index2 < load rhct (nodeAt rhct k + 6) 2,
      load rhct (load rhct (nodeAt rhct k + 12 + 4 * index2) 4) 2 = typeIsaString ∧
      load rhct (load rhct (nodeAt rhct k + 12 + 4 * index2) 4 + 6) 2 = len

def usableRecords (madt : Mem) (fuel : Nat) : List (Nat × Nat) :=
  (madtVisits madt fuel).filter fun r => UsableRintc madt r.1

def HartKeeps (madt rhct : Mem) : Prop :=
  ∀ fuel tbl x, peInfoTblSz ≤ x → hartTableAfter madt rhct fuel tbl x = tbl x

/-- The entry of the `k`-th usable hart ends inside the buffer, with any of its strings. -/
def HartFits (madt rhct : Mem) : Prop :=
  ∀ fuel k r, (usableRecords madt fuel)[k]? = some r →
    Hart.entryBase k + offIsaString ≤ peInfoTblSz ∧
    ∀ len, CopiesIsa rhct (load madt (r.1 + 16) 4) len →
      Hart.entryBase k + offIsaString + len ≤ peInfoTblSz

def namedWrites (rhct : Mem) (ptr node : Nat) : Set Nat :=
  {x | load rhct node 2 = typeIsaString ∧ x ∈ span (ptr + offIsaString) (load rhct (node + 6) 2)}

def nodeWrites (rhct : Mem) (uid ptr node : Nat) : Set Nat :=
  {x | (load rhct node 2 = typeHartInfo ∧ load rhct (node + 8) 4 = uid) ∧
    ∃ index2 ∈ List.range (load rhct (node + 6) 2),
      x ∈ namedWrites rhct ptr (load rhct (node + 12 + 4 * index2) 4)}

theorem sets_visitNode (rhct : Mem) (ptr node : Nat) :
    Sets (fun tbl => visitNode rhct ptr tbl node) ∅ (namedWrites rhct ptr node) := by
  by_cases htype : load rhct node 2 = typeIsaString
  · constructor
    · intro m x hx
      have hout : ¬ (ptr + offIsaString ≤ x ∧
          x < ptr + offIsaString + load rhct (node + 6) 2) := fun h => hx ⟨htype, h⟩
      simp [visitNode, if_pos htype, copyMem, if_neg hout]
    · intro m m' _ x hx
      have hin : ptr + offIsaString ≤ x ∧ x < ptr + offIsaString + load rhct (node + 6) 2 := hx.2
      simp [visitNode, if_pos htype, copyMem, if_pos hin]
  · have hid : (fun tbl => visitNode rhct ptr tbl node) = fun tbl => tbl := by
      simp [visitNode, if_neg htype]
    rw [hid]
    exact (Sets.of_id ∅).congr_writes (by ext x; simp [namedWrites, htype])

theorem sets_visitNodes (rhct : Mem) (uid ptr left node : Nat) :
    Sets (visitNodes rhct uid ptr left node) ∅
      {x | ∃ k < left, x ∈ nodeWrites rhct uid ptr
        ((fun node => node + nodeLength rhct node)^[k] node)} := by
  induction left generalizing node with
  | zero => exact (Sets.of_id ∅).congr_writes (by simp)
  | succ left ih =>
    have hfirst : Sets (fun tbl => if load rhct node 2 = typeHartInfo ∧ load rhct (node + 8) 4 = uid
        then visitOffsets rhct node ptr tbl else tbl) ∅ (nodeWrites rhct uid ptr node) := by
      split_ifs with h
      · have hvisit : Sets (visitOffsets rhct node ptr) ∅ _ :=
          .foldl (fun index2 => sets_visitNode rhct ptr (load rhct (node + 12 + 4 * index2) 4)) _
        exact hvisit.congr_writes (by ext x; simp [nodeWrites, h])
      · exact (Sets.of_id ∅).congr_writes (by ext x; simp [nodeWrites, h])
    have hrun := hfirst.comp (ih (node + nodeLength rhct node)) (empty_subset _)
    apply hrun.congr_writes
    ext x
    rw [mem_ofPred_eq, exists_lt_succ_left]
    rfl

theorem isaWrites_lt_iff {uid ptr bound : Nat} (hptr : ptr + offIsaString ≤ bound) :
    (∀ x ∈ {x | ∃ k < rhctNodeNumber rhct, x ∈ nodeWrites rhct uid ptr (nodeAt rhct k)},
        x < bound) ↔ ∀ len, CopiesIsa rhct uid len → ptr + offIsaString + len ≤ bound := by
  constructor
  · rintro h len ⟨k, hk, hinfo, index2, hi, htype, hlen⟩
    by_cases hzero : len = 0
    · rw [hzero]
      exact hptr
    · apply (span_lt_iff (pos_of_ne_zero hzero)).mp
      intro x hx
      exact h x ⟨k, hk, hinfo, index2, mem_range.mpr hi, htype, by rwa [hlen]⟩
  · rintro h x ⟨k, hk, hinfo, index2, hi, htype, hx⟩
    have hend := h _ ⟨k, hk, hinfo, index2, mem_range.mp hi, htype, rfl⟩
    exact hx.2.trans_le hend

/-- What the entry of a usable hart takes, in the order of the stores, and the counter. -/
def hartWrites (madt rhct : Mem) (entry ptr : Nat) : Set Nat :=
  span (ptr + offHartId) 8 ∪ span (ptr + offHartNum) 4 ∪ span (ptr + offAcpiProcessorUid) 4 ∪
    span (ptr + offExtIntcId) 4 ∪ span (ptr + offImsicBase) 8 ∪ span (ptr + offImsicSize) 4 ∪
    {x | ∃ k < rhctNodeNumber rhct,
      x ∈ nodeWrites rhct (load madt (entry + 16) 4) ptr (nodeAt rhct k)} ∪ span 0 4

theorem sets_createHart (madt rhct : Mem) (entry ptr : Nat) :
    Sets (createHart madt rhct entry ptr) (span 0 4) (hartWrites madt rhct entry ptr) := by
  have hnodes := (sets_visitNodes rhct (load madt (entry + 16) 4) ptr (rhctNodeNumber rhct)
    (rhctNodeOffset rhct)).mono (empty_subset (span 0 4))
  have hcounter (s : Set Nat) : span 0 4 ⊆ span 0 4 ∪ s := subset_union_left
  have hid := Sets.of_store (ptr + offHartId) 8 (load madt (entry + 8) 8) (span 0 4)
  have hnum := hid.comp (Sets.of_store_load (ptr + offHartNum) 4 0 4 id) (hcounter _)
  have huid := hnum.then_store (ptr + offAcpiProcessorUid) 4 (load madt (entry + 16) 4)
  have hintc := huid.then_store (ptr + offExtIntcId) 4 (load madt (entry + 20) 4)
  have hbase := hintc.then_store (ptr + offImsicBase) 8 (load madt (entry + 24) 8)
  have hsize := hbase.then_store (ptr + offImsicSize) 4 (load madt (entry + 32) 4)
  exact (hsize.comp hnodes (hcounter _)).comp
    (Sets.of_store_load 0 4 0 4 fun n => n + 1) (hcounter _)

theorem hartWrites_lt_iff {entry ptr bound : Nat} :
    (∀ x ∈ hartWrites madt rhct entry ptr, x < bound) ↔
      ptr + offIsaString ≤ bound ∧
      ∀ len, CopiesIsa rhct (load madt (entry + 16) 4) len → ptr + offIsaString + len ≤ bound := by
  simp only [hartWrites, mem_union, or_imp, forall_and]
  simp (disch := decide) only [span_lt_iff, offHartId, offHartNum, offAcpiProcessorUid,
    offExtIntcId, offImsicBase, offImsicSize]
  constructor
  · rintro ⟨⟨⟨-, hsize⟩, hisa⟩, -⟩
    have hptr : ptr + offIsaString ≤ bound := hsize
    exact ⟨hptr, (isaWrites_lt_iff hptr).mp hisa⟩
  · rintro ⟨hptr, hlen⟩
    have hisa := (isaWrites_lt_iff hptr).mpr hlen
    unfold offIsaString at hptr
    exact ⟨⟨by omega, hisa⟩, by omega⟩

theorem hartTableAfter_eq (madt rhct : Mem) (fuel : Nat) (tbl : Mem) :
    hartTableAfter madt rhct fuel tbl = ((usableRecords madt fuel).foldl
      (fun s r => (s.1 + Hart.entrySize, createHart madt rhct r.1 s.1 s.2))
      (Hart.entryBase 0, store tbl 0 4 0)).2 := by
  rw [usableRecords, foldl_filter]
  simp only [decide_eq_true_eq]
  rfl

theorem hartKeeps_iff (madt rhct : Mem) : HartKeeps madt rhct ↔ HartFits madt rhct := by
  have hround (r : Nat × Nat) (ptr : Nat) := sets_createHart madt rhct r.1 ptr
  have hbound : 4 ≤ peInfoTblSz := by decide
  apply forall_congr'
  intro fuel
  simp only [hartTableAfter_eq]
  rw [Sets.table_keeps_iff hround hbound]
  simp only [hartWrites_lt_iff]
  rfl

end

/-! ## IOMMUs -/

section

open Iommu

variable {rimt : Mem} {off entry bound ptr : Nat}

def iommuStep (rimt : Mem) (r : Nat × Nat) (ptr : Nat) (tbl : Mem) : Mem :=
  let tbl := (createEntry rimt r.1 r.2 ptr tbl).getD tbl
  store tbl 0 4 (load tbl 0 4 + 1)

def iommuTableAfter (rimt : Mem) (fuel : Nat) (tbl : Mem) : Mem :=
  ((rimtVisits rimt fuel).foldl (fun s r => (s.1 + Iommu.entrySize, iommuStep rimt r s.1 s.2))
    (Iommu.entryBase 0, store tbl 0 4 0)).2

theorem iommuRound_eq (rimt : Mem) (s : Nat × Mem) (r : Nat × Nat) :
    iommuRound rimt s r = some (s.1 + Iommu.entrySize, iommuStep rimt r s.1 s.2) := by
  obtain ⟨tbl', hentry⟩ := isSome_iff_exists.mp (createEntry_isSome rimt r.1 r.2 s.1 s.2)
  simp [iommuRound, iommuStep, hentry]

/-- The same for the device structures: the loops inside of one always end. -/
theorem palIommuCreateInfoTable_eq_fold (rimt tbl : Mem) :
    palIommuCreateInfoTable (some rimt) tbl =
      if ends (rimtRecordLength rimt) (rimtLength rimt) (max 1 (rimtLength rimt))
          (rimtDeviceOffset rimt, rimtDeviceOffset rimt) then
        some (iommuTableAfter rimt (max 1 (rimtLength rimt)) tbl)
      else none := by
  have hfold (l : List (Nat × Nat)) (s : Nat × Mem) : l.foldlM (iommuRound rimt) s =
      some (l.foldl (fun s r => (s.1 + Iommu.entrySize, iommuStep rimt r s.1 s.2)) s) := by
    induction l generalizing s with
    | nil => rfl
    | cons r l ih =>
      rw [foldlM_cons, iommuRound_eq]
      exact ih _
  have hvisits := createEntries_eq_visits rimt (rimtLength rimt) (max 1 (rimtLength rimt))
    (rimtDeviceOffset rimt) (rimtDeviceOffset rimt) (Iommu.entryBase 0) (store tbl 0 4 0)
  rw [hfold] at hvisits
  exact hvisits

/-- How many bytes the structure takes from the start of its entry on. -/
def rimtEntryEnd (rimt : Mem) (entry : Nat) : Nat :=
  if load rimt entry 1 = typeIommu then offIdmapOffset
  else if load rimt entry 1 = typePcieRootComplex then
    offIdMappingTable + 16 * strides (load rimt (entry + 16) 2) (rimtRecordLength rimt entry)
  else if load rimt entry 1 = typePlatformDevice then
    offIdMappingTable + 16 * strides (load rimt (entry + 8) 2) (rimtRecordLength rimt entry)
  else offIommuOffset

def IommuKeeps (rimt : Mem) : Prop :=
  ∀ fuel tbl x, iommuInfoTblSz ≤ x → iommuTableAfter rimt fuel tbl x = tbl x

def IommuFits (rimt : Mem) : Prop :=
  ∀ fuel k r, (rimtVisits rimt fuel)[k]? = some r →
    Iommu.entryBase k + rimtEntryEnd rimt r.1 ≤ iommuInfoTblSz

def copiedMappings (rimt : Mem) (entry idMapEntry ptr off : Nat) (tbl : Mem) : Mem :=
  (copyIdMappings (load rimt (entry + 2) 2 + 1) rimt entry idMapEntry ptr
    (ptr + offIdMappingTable) off tbl).getD tbl

theorem copyIdMappings_eq_copied (rimt : Mem) (entry idMapEntry ptr off : Nat) (tbl : Mem) :
    copyIdMappings (load rimt (entry + 2) 2 + 1) rimt entry idMapEntry ptr
        (ptr + offIdMappingTable) off tbl =
      some (copiedMappings rimt entry idMapEntry ptr off tbl) := by
  obtain ⟨tbl', h⟩ := isSome_iff_exists.mp
    (copyIdMappings_isSome rimt entry idMapEntry ptr off tbl)
  rw [copiedMappings, h, getD_some]

def mappingWrites (rimt : Mem) (entry ptr off : Nat) : Set Nat :=
  span (ptr + offIdmapNum) 2 ∪
    span (ptr + offIdMappingTable) (16 * strides off (rimtRecordLength rimt entry))

/-- Each copy goes behind the entry, so only `idmap_num` is read and written again. -/
theorem sets_copiedMappings (rimt : Mem) (entry idMapEntry ptr off : Nat) :
    Sets (copiedMappings rimt entry idMapEntry ptr off) (span (ptr + offIdmapNum) 2)
      (mappingWrites rimt entry ptr off) := by
  have hbytes (tbl : Mem) (x : Nat) : copiedMappings rimt entry idMapEntry ptr off tbl x =
      if ptr + 42 ≤ x ∧ x < ptr + 44 then
        byteOf (load tbl (ptr + 42) 2 + strides off (rimtRecordLength rimt entry)) (x - (ptr + 42))
      else if ptr + 48 ≤ x ∧ x < ptr + 48 + 16 * strides off (rimtRecordLength rimt entry) then
        idMappingByte (readIdMapping rimt idMapEntry) ((x - (ptr + 48)) % 16)
      else tbl x := by
    obtain ⟨tbl', hrun, hall⟩ := copyIdMappings_eq (rfl : load rimt (entry + 2) 2 = _) idMapEntry
      ptr (load rimt (entry + 2) 2 + 1) off (ptr + offIdMappingTable) tbl
      (by unfold strides; omega) le_rfl
    rw [copiedMappings, hrun]
    exact hall x
  constructor
  · intro m x hx
    simp only [mappingWrites, mem_union, mem_span, not_or, offIdmapNum,
      offIdMappingTable] at hx
    rw [hbytes, if_neg (by omega), if_neg hx.2]
  · intro m m' h x hx
    have hload : load m (ptr + 42) 2 = load m' (ptr + 42) 2 :=
      load_congr fun i hi => h (ptr + 42 + i) ⟨Nat.le_add_right _ i, Nat.add_lt_add_left hi _⟩
    rw [hbytes, hbytes, hload]
    by_cases hnum : ptr + 42 ≤ x ∧ x < ptr + 44
    · rw [if_pos hnum, if_pos hnum]
    · have hin : ptr + 48 ≤ x ∧ x < ptr + 48 + 16 * strides off (rimtRecordLength rimt entry) :=
        hx.resolve_left hnum
      rw [if_neg hnum, if_neg hnum, if_pos hin, if_pos hin]

def entryHead (rimt : Mem) (entry ptr : Nat) (tbl : Mem) : Mem :=
  let tbl := store tbl (ptr + offIommuNum) 4 (load tbl 0 4)
  let tbl := store tbl (ptr + offType) 1 (load rimt entry 1)
  store tbl (ptr + offId) 2 (load rimt (entry + 6) 2)

def entryMappings (rimt : Mem) (entry ptr off : Nat) (tbl : Mem) : Mem :=
  let tbl := store tbl (ptr + offIdmapOffset) 2 off
  let tbl := store tbl (ptr + offIdmapNum) 2 0
  copiedMappings rimt entry (entry + off) ptr off tbl

def headWrites (ptr : Nat) : Set Nat :=
  span (ptr + offIommuNum) 4 ∪ span (ptr + offType) 1 ∪ span (ptr + offId) 2

theorem sets_entryHead (rimt : Mem) (entry ptr : Nat) :
    Sets (entryHead rimt entry ptr) (span 0 4) (headWrites ptr) := by
  have hnum := Sets.of_store_load (ptr + offIommuNum) 4 0 4 id
  have htype := hnum.then_store (ptr + offType) 1 (load rimt entry 1)
  exact htype.then_store (ptr + offId) 2 (load rimt (entry + 6) 2)

theorem sets_entryMappings (rimt : Mem) (entry ptr off : Nat) :
    Sets (entryMappings rimt entry ptr off) (span 0 4)
      (span (ptr + offIdmapOffset) 2 ∪ span (ptr + offIdmapNum) 2 ∪
        mappingWrites rimt entry ptr off) := by
  have hoff := Sets.of_store (ptr + offIdmapOffset) 2 off (span 0 4)
  have hnum := hoff.then_store (ptr + offIdmapNum) 2 0
  exact hnum.comp (sets_copiedMappings rimt entry (entry + off) ptr off)
    (fun x hx => .inr (.inr hx))

theorem copyIdMappings_eq_entryMappings (rimt : Mem) (entry ptr : Nat) (hoff : off < 256 ^ 2)
    (tbl : Mem) :
    copyIdMappings (load rimt (entry + 2) 2 + 1) rimt entry (entry + off) ptr
        (ptr + offIdMappingTable)
        (load (store (store tbl (ptr + offIdmapOffset) 2 off) (ptr + offIdmapNum) 2 0)
          (ptr + offIdmapOffset) 2)
        (store (store tbl (ptr + offIdmapOffset) 2 off) (ptr + offIdmapNum) 2 0) =
      some (entryMappings rimt entry ptr off tbl) := by
  have hload : load (store (store tbl (ptr + offIdmapOffset) 2 off) (ptr + offIdmapNum) 2 0)
      (ptr + offIdmapOffset) 2 = off := by
    rw [load_store_of_disjoint (by simp only [offIdmapOffset, offIdmapNum]; omega),
      load_store_self, mod_eq_of_lt hoff]
  rw [hload, copyIdMappings_eq_copied]
  rfl

def entryTail (rimt : Mem) (r : Nat × Nat) (ptr : Nat) (tbl : Mem) : Mem :=
  if load rimt r.1 1 = typeIommu then
    let tbl := store tbl (ptr + offIommuOffset) 4 r.2
    let tbl := store tbl (ptr + offHardwareId) 8 (load rimt (r.1 + 8) 8)
    let tbl := store tbl (ptr + offBaseAddress) 8 (load rimt (r.1 + 16) 8)
    let tbl := store tbl (ptr + offFlags) 4 (load rimt (r.1 + 24) 4)
    let tbl := store tbl (ptr + offPcieSeg) 2 (load rimt (r.1 + 32) 2)
    store tbl (ptr + offPcieBdf) 2 (load rimt (r.1 + 34) 2)
  else if load rimt r.1 1 = typePcieRootComplex then
    entryMappings rimt r.1 ptr (load rimt (r.1 + 16) 2)
      (store tbl (ptr + offPcieRcSeg) 2 (load rimt (r.1 + 14) 2))
  else if load rimt r.1 1 = typePlatformDevice then
    entryMappings rimt r.1 ptr (load rimt (r.1 + 8) 2) tbl
  else tbl

theorem createEntry_eq_tail (rimt : Mem) (r : Nat × Nat) (ptr : Nat) (tbl : Mem) :
    createEntry rimt r.1 r.2 ptr tbl =
      some (entryTail rimt r ptr (entryHead rimt r.1 ptr tbl)) := by
  rw [createEntry, entryTail]
  split_ifs
  · rfl
  · exact copyIdMappings_eq_entryMappings rimt r.1 ptr (load_lt rimt (r.1 + 16) 2) _
  · exact copyIdMappings_eq_entryMappings rimt r.1 ptr (load_lt rimt (r.1 + 8) 2) _
  · rfl

def tailWrites (rimt : Mem) (entry ptr : Nat) : Set Nat :=
  if load rimt entry 1 = typeIommu then
    span (ptr + offIommuOffset) 4 ∪ span (ptr + offHardwareId) 8 ∪ span (ptr + offBaseAddress) 8 ∪
      span (ptr + offFlags) 4 ∪ span (ptr + offPcieSeg) 2 ∪ span (ptr + offPcieBdf) 2
  else if load rimt entry 1 = typePcieRootComplex then
    span (ptr + offPcieRcSeg) 2 ∪ (span (ptr + offIdmapOffset) 2 ∪ span (ptr + offIdmapNum) 2 ∪
      mappingWrites rimt entry ptr (load rimt (entry + 16) 2))
  else if load rimt entry 1 = typePlatformDevice then
    span (ptr + offIdmapOffset) 2 ∪ span (ptr + offIdmapNum) 2 ∪
      mappingWrites rimt entry ptr (load rimt (entry + 8) 2)
  else ∅

theorem sets_entryTail (rimt : Mem) (r : Nat × Nat) (ptr : Nat) :
    Sets (entryTail rimt r ptr) (span 0 4) (tailWrites rimt r.1 ptr) := by
  unfold entryTail tailWrites
  split_ifs
  · have hoff := Sets.of_store (ptr + offIommuOffset) 4 r.2 (span 0 4)
    have hid := hoff.then_store (ptr + offHardwareId) 8 (load rimt (r.1 + 8) 8)
    have hbase := hid.then_store (ptr + offBaseAddress) 8 (load rimt (r.1 + 16) 8)
    have hflags := hbase.then_store (ptr + offFlags) 4 (load rimt (r.1 + 24) 4)
    have hseg := hflags.then_store (ptr + offPcieSeg) 2 (load rimt (r.1 + 32) 2)
    exact hseg.then_store (ptr + offPcieBdf) 2 (load rimt (r.1 + 34) 2)
  · exact (Sets.of_store (ptr + offPcieRcSeg) 2 (load rimt (r.1 + 14) 2) (span 0 4)).comp
      (sets_entryMappings rimt r.1 ptr _) subset_union_left
  · exact sets_entryMappings rimt r.1 ptr _
  · exact Sets.of_id _

def roundWrites (rimt : Mem) (entry ptr : Nat) : Set Nat :=
  headWrites ptr ∪ tailWrites rimt entry ptr ∪ span 0 4

theorem sets_iommuStep (rimt : Mem) (r : Nat × Nat) (ptr : Nat) :
    Sets (iommuStep rimt r ptr) (span 0 4) (roundWrites rimt r.1 ptr) := by
  have hstep : iommuStep rimt r ptr = fun tbl =>
      store (entryTail rimt r ptr (entryHead rimt r.1 ptr tbl)) 0 4
        (load (entryTail rimt r ptr (entryHead rimt r.1 ptr tbl)) 0 4 + 1) := by
    funext tbl
    simp [iommuStep, createEntry_eq_tail]
  rw [hstep]
  have hentry := (sets_entryHead rimt r.1 ptr).comp (sets_entryTail rimt r ptr)
    subset_union_left
  exact hentry.comp (Sets.of_store_load 0 4 0 4 fun n => n + 1) subset_union_left

theorem mappingWrites_lt_iff :
    (∀ x ∈ mappingWrites rimt entry ptr off, x < bound) ↔
      ptr + offIdMappingTable + 16 * strides off (rimtRecordLength rimt entry) ≤ bound := by
  have hpos : 0 < 16 * strides off (rimtRecordLength rimt entry) := by
    unfold strides
    omega
  simp only [mappingWrites, mem_union, or_imp, forall_and, span_lt_iff hpos]
  simp (disch := decide) only [span_lt_iff, offIdmapNum, offIdMappingTable]
  omega

theorem roundWrites_lt_iff (hbound : 4 ≤ bound) :
    (∀ x ∈ roundWrites rimt entry ptr, x < bound) ↔ ptr + rimtEntryEnd rimt entry ≤ bound := by
  have hcounter : ∀ x ∈ span 0 4, x < bound := fun x hx => hx.2.trans_le hbound
  have hhead : (∀ x ∈ headWrites ptr, x < bound) ↔ ptr + offIommuOffset ≤ bound := by
    simp only [headWrites, mem_union, or_imp, forall_and]
    simp (disch := decide) only [span_lt_iff, offIommuNum, offType, offId, offIommuOffset]
    omega
  have hround : (∀ x ∈ roundWrites rimt entry ptr, x < bound) ↔
      ptr + offIommuOffset ≤ bound ∧ ∀ x ∈ tailWrites rimt entry ptr, x < bound := by
    simp only [roundWrites, mem_union, or_imp, forall_and, ← hhead]
    exact and_iff_left hcounter
  rw [hround]
  rw [tailWrites, rimtEntryEnd]
  split_ifs
  · simp only [mem_union, or_imp, forall_and]
    simp (disch := decide) only [span_lt_iff, offIommuOffset, offHardwareId, offBaseAddress,
      offFlags, offPcieSeg, offPcieBdf, offIdmapOffset]
    omega
  · simp only [mem_union, or_imp, forall_and, mappingWrites_lt_iff]
    simp (disch := decide) only [span_lt_iff, offPcieRcSeg, offIdmapOffset, offIdmapNum,
      offIommuOffset, offIdMappingTable]
    omega
  · simp only [mem_union, or_imp, forall_and, mappingWrites_lt_iff]
    simp (disch := decide) only [span_lt_iff, offIdmapOffset, offIdmapNum, offIommuOffset,
      offIdMappingTable]
    omega
  · simp

theorem iommuKeeps_iff (rimt : Mem) : IommuKeeps rimt ↔ IommuFits rimt := by
  have hbound : 4 ≤ iommuInfoTblSz := by decide
  apply forall_congr'
  intro fuel
  unfold iommuTableAfter
  rw [Sets.table_keeps_iff (sets_iommuStep rimt) hbound]
  simp only [roundWrites_lt_iff hbound]
  rfl

end

/-! ## ECAM windows -/

section

open Pcie

variable {mcfg : Mem}

def mcfgVisits (mcfg : Mem) (fuel : Nat) : List (Nat × Nat) :=
  visits (fun _ => mcfgWindowSize) (mcfgLength mcfg) fuel (mcfgHeaderSize, mcfgHeaderSize)

def pcieTableAfter (mcfg : Mem) (fuel : Nat) (tbl : Mem) : Mem :=
  ((mcfgVisits mcfg fuel).foldl (fun s r => (s.1 + 1, createBlock mcfg r.1 s.1 s.2))
    (0, store tbl 0 4 0)).2

theorem createBlocks_eq_visits (mcfg : Mem) (fuel entry length i : Nat) (tbl : Mem) :
    createBlocks mcfg fuel entry length i tbl =
      if ends (fun _ => mcfgWindowSize) (mcfgLength mcfg) fuel (entry, length) then
        some ((visits (fun _ => mcfgWindowSize) (mcfgLength mcfg) fuel (entry, length)).foldl
          (fun s r => (s.1 + 1, createBlock mcfg r.1 s.1 s.2)) (i, tbl)).2
      else none := by
  induction fuel generalizing entry length i tbl with
  | zero => rfl
  | succ fuel ih =>
    rw [ends, visits]
    by_cases hmore : (strideNext (fun _ => mcfgWindowSize) (entry, length)).2 < mcfgLength mcfg
    · rw [if_pos hmore, if_pos hmore]
      exact (if_pos hmore).trans (ih _ _ _ _)
    · rw [if_neg hmore, if_neg hmore]
      exact if_neg hmore

/-- The same for the windows. -/
theorem palPcieCreateInfoTable_eq_fold (mcfg tbl : Mem) :
    palPcieCreateInfoTable (some mcfg) tbl =
      if ends (fun _ => mcfgWindowSize) (mcfgLength mcfg) (mcfgLength mcfg + 1)
          (mcfgHeaderSize, mcfgHeaderSize) then
        some (pcieTableAfter mcfg (mcfgLength mcfg + 1) tbl)
      else none :=
  createBlocks_eq_visits mcfg (mcfgLength mcfg + 1)
    mcfgHeaderSize mcfgHeaderSize 0 (store tbl 0 4 0)

def PcieKeeps (mcfg : Mem) : Prop :=
  ∀ fuel tbl x, pcieInfoTblSz ≤ x → pcieTableAfter mcfg fuel tbl x = tbl x

def PcieFits (mcfg : Mem) : Prop := mcfgLength mcfg ≤ mcfgHeaderSize + mcfgWindowSize * 21

def blockWrites (i : Nat) : Set Nat :=
  span (infoBlockBase i) 8 ∪ span (infoBlockBase i + 8) 4 ∪ span (infoBlockBase i + 12) 4 ∪
    span (infoBlockBase i + 16) 4 ∪ span 0 4

theorem sets_createBlock (mcfg : Mem) (entry i : Nat) :
    Sets (createBlock mcfg entry i) (span 0 4) (blockWrites i) := by
  have hbase := Sets.of_store (infoBlockBase i) 8 (load mcfg entry 8) (span 0 4)
  have hseg := hbase.then_store (infoBlockBase i + 8) 4 (load mcfg (entry + 8) 2)
  have hstart := hseg.then_store (infoBlockBase i + 12) 4 (load mcfg (entry + 10) 1)
  have hend := hstart.then_store (infoBlockBase i + 16) 4 (load mcfg (entry + 11) 1)
  exact hend.comp (Sets.of_store_load 0 4 0 4 fun n => n + 1) subset_union_left

theorem blockWrites_lt_iff {i : Nat} : (∀ x ∈ blockWrites i, x < pcieInfoTblSz) ↔ i ≤ 20 := by
  simp only [blockWrites, mem_union, or_imp, forall_and]
  simp (disch := decide) only [span_lt_iff, infoBlockBase, pcieInfoTblSz]
  omega

theorem pcieKeeps_iff (mcfg : Mem) : PcieKeeps mcfg ↔ PcieFits mcfg := by
  have hround (r : Nat × Nat) (i : Nat) := sets_createBlock mcfg r.1 i
  have hbound : 4 ≤ pcieInfoTblSz := by decide
  have hblocks : PcieKeeps mcfg ↔ ∀ fuel k r, (mcfgVisits mcfg fuel)[k]? = some r → k ≤ 20 := by
    apply forall_congr'
    intro fuel
    unfold pcieTableAfter
    rw [Sets.table_keeps_iff hround hbound]
    simp [blockWrites_lt_iff]
  rw [hblocks]
  constructor
  · intro h
    by_contra hmore
    have hvisited := getElem?_visits_const (load_lt mcfg 4 4) 21 (Nat.lt_of_not_le hmore)
    exact absurd (h 22 21 _ hvisited) (by decide)
  · intro h fuel k r hr
    unfold PcieFits mcfgHeaderSize mcfgWindowSize at h
    have hk := lt_of_visits_const (by unfold mcfgWindowSize; omega) (by decide) hr
    unfold mcfgHeaderSize mcfgWindowSize at hk
    omega

end

/-! ## The three builders -/

/-- For any bytes in the firmware tables, the builders stay inside their buffers exactly when
what they append fits. -/
theorem infoTables_capacity_iff (madt rhct rimt mcfg : Mem) :
    (HartKeeps madt rhct ∧ IommuKeeps rimt ∧ PcieKeeps mcfg) ↔
      HartFits madt rhct ∧ IommuFits rimt ∧ PcieFits mcfg := by
  rw [hartKeeps_iff, iommuKeeps_iff, pcieKeeps_iff]

def madtOf31 : Mem := fun x =>
  if x = 4 then 0x88
  else if x = 5 then 0x04
  else if x < 44 then 0
  else
    match (x - 44) % 36 with
    | 0 => 0x18
    | 1 => 36
    | 2 => 1
    | 4 => 1
    | 8 | 16 => UInt8.ofNat ((x - 44) / 36)
    | _ => 0

def headerRhct : Mem := store (store (fun _ => 0) 4 4 56) 52 4 56

/-- The tables are where they should be, and the 31st hart is written behind the buffer that
the application says is for 400. -/
theorem infoTables_capacity_exceeded :
    HartTablesFit madtOf31 headerRhct ∧ ¬HartKeeps madtOf31 headerRhct := by
  have hrecords : ∀ entry ∈ range' 44 31 36, madtRecordLength madtOf31 entry = 36 ∧
      MadtRecordFits madtOf31 1160 entry := by
    unfold MadtRecordFits
    decide +kernel
  constructor
  · refine ⟨range' 44 31 36, ?_, fun entry hentry => ⟨?_, fun _ k hk => ?_⟩⟩
    · exact Tiles.range' (by decide) 30 (fun p hp => (hrecords p hp).1) rfl
    · exact (hrecords entry hentry).2
    · exact absurd hk (Nat.not_lt_zero k)
  · intro h
    have hlast : (usableRecords madtOf31 31)[30]? = some (1124, 1124) := by decide +kernel
    have hfits := ((hartKeeps_iff madtOf31 headerRhct).mp h 31 30 _ hlast).1
    exact absurd hfits (by decide)

end ServerSoc.Acpi
