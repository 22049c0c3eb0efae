/-
The SMMU in front of a root complex (val_iovirt_get_rc_smmu_index in acs_iovirt.c and
pal_iovirt_get_rc_smmu_base in pal_uefi_acpi/src/pal_iovirt.c).

The platform layer returns the base of the SMMU, 0 when the ids do not lead through an SMMU and
0xFFFFFFFF when no mapping accepts the requester id; only the first is checked.
-/
import ServerSoc.Iovirt.Table

namespace ServerSoc.Iovirt

open List Option

def numSmmusWord : Nat := 1

def acsInvalidIndex : Nat := 0xffffffff

/-- `data.smmu.base`, behind the revision and its padding. -/
def smmuBase (mem : Words) (block : Nat) : Nat :=
  mem (dataWord block 2) + 2 ^ 32 * mem (dataWord block 3)

/-! ## The platform layer -/

structure RidSearch where
  mappingFound : Bool
  id : Nat
  oref : Nat
  deriving DecidableEq, Repr

def palRcMaps (mem : Words) (block rid : Nat) : Nat → Nat → RidSearch → RidSearch
  | 0, _, search => search
  | n + 1, j, search =>
    let map := mapAt mem block j
    if map.inputBase ≤ rid ∧ rid ≤ (map.inputBase + map.idCount) % 2 ^ 32 then
      ⟨true, (rid - map.inputBase + map.outputBase) % 2 ^ 32, map.outputRef⟩
    else palRcMaps mem block rid n (j + 1) search

def palRcBlocks (mem : Words) (rcSegmentNum rid : Nat) : List Nat → RidSearch → RidSearch
  | [], search => search
  | block :: l, search =>
    if typeOf mem block = NodeType.pciRootComplex.code ∧ rcSegment mem block = rcSegmentNum then
      palRcBlocks mem rcSegmentNum rid l
        (palRcMaps mem block rid (numDataMap mem block) 0 search)
    else palRcBlocks mem rcSegmentNum rid l search

def palSmmuMaps (mem : Words) (block sid : Nat) : Nat → Nat → Bool
  | 0, _ => false
  | n + 1, j =>
    let map := mapAt mem block j
    if map.inputBase ≤ sid ∧ sid ≤ (map.inputBase + map.idCount) % 2 ^ 32 then true
    else palSmmuMaps mem block sid n (j + 1)

def palIovirtGetRcSmmuBase (mem : Words) (rcSegmentNum rid : Nat) : Nat :=
  let search := palRcBlocks mem rcSegmentNum rid (blocks mem) ⟨false, 0, 0⟩
  if search.mappingFound = false then 0xffffffff
  else
    let block := refBlock search.oref
    if isSmmu mem block then
      if palSmmuMaps mem block search.id (numDataMap mem block) 0 then smmuBase mem block else 0
    else 0

/-! ## The lookup of the base -/

/-- The loop of `val_iovirt_get_smmu_info` for `SMMU_CTRL_BASE`.  Behind it `j - 1` is
computed in 32 bits. -/
def smmuBaseLoop (mem : Words) (index : Nat) : List Nat → Nat → Nat
  | [], j => if (j + 2 ^ 32 - 1) % 2 ^ 32 < index then 0 else j
  | block :: l, j =>
    if isSmmu mem block then
      if j = index then smmuBase mem block else smmuBaseLoop mem index l (j + 1)
    else smmuBaseLoop mem index l j

inductive SmmuInfo where
  | numCtrl | ctrlBase
  deriving DecidableEq, Repr

def valIovirtGetSmmuInfo (mem : Words) (type : SmmuInfo) (index : Nat) : Nat :=
  match type with
  | .numCtrl => mem numSmmusWord
  | .ctrlBase => smmuBaseLoop mem index (blocks mem) 0

def gNumSmmus (mem : Words) : Nat := valIovirtGetSmmuInfo mem .numCtrl 0

def valSmmuGetInfo (mem : Words) (type : SmmuInfo) (smmuIndex : Nat) : Nat :=
  if gNumSmmus mem ≤ smmuIndex then 0 else valIovirtGetSmmuInfo mem type smmuIndex

def smmuIndexLoop (mem : Words) (base : Nat) : Nat → Nat
  | 0 => acsInvalidIndex
  | numSmmu + 1 =>
    if base = valSmmuGetInfo mem .ctrlBase numSmmu then numSmmu else smmuIndexLoop mem base numSmmu

def valIovirtGetRcSmmuIndex (mem : Words) (rcSegNum rid : Nat) : Nat :=
  let base := palIovirtGetRcSmmuBase mem rcSegNum rid
  if base ≠ 0 then smmuIndexLoop mem base (valSmmuGetInfo mem .numCtrl 0) else acsInvalidIndex

/-! ## Tables -/

def smmuBlocks (mem : Words) : List Nat := (blocks mem).filter (isSmmu mem)

/-- A table with 32-bit words whose counter counts the SMMU blocks, in which the root
complexes refer to blocks and the SMMU blocks have different bases, none of them 0 or
0xFFFFFFFF. -/
structure SmmuTable (mem : Words) : Prop where
  words : ∀ a, mem a < 2 ^ 32
  counter : mem numSmmusWord = (smmuBlocks mem).length
  refs : ∀ block ∈ blocks mem, typeOf mem block = NodeType.pciRootComplex.code →
    ∀ i < numDataMap mem block, refBlock (mapAt mem block i).outputRef ∈ blocks mem
  bases : ∀ i j (hi : i < (smmuBlocks mem).length) (hj : j < (smmuBlocks mem).length),
    smmuBase mem (smmuBlocks mem)[i] = smmuBase mem (smmuBlocks mem)[j] → i = j
  nonzero : ∀ block ∈ smmuBlocks mem, smmuBase mem block ≠ 0 ∧ smmuBase mem block ≠ 0xffffffff

/-- `val_iovirt_get_device_info` succeeds, and the mapping of the root complex leads to this
SMMU block. -/
def SucceedsThrough (mem : Words) (rid segment block : Nat) : Prop :=
  (valIovirtGetDeviceInfo mem rid segment).isSome = true ∧ isSmmu mem block = true ∧
    ∃ map, rcMapLoop mem rid segment (blocks mem) none = some map ∧ refBlock map.outputRef = block

variable {mem : Words}

section

variable {rid segment : Nat}

theorem accepts_iff (m : IdMap) (id : Nat) :
    m.accepts id = true ↔ m.inputBase ≤ id ∧ id ≤ (m.inputBase + m.idCount) % 2 ^ 32 := by
  simp [IdMap.accepts]

def ridSearchOf (rid : Nat) (search : RidSearch) : Option IdMap → RidSearch
  | none => search
  | some map => ⟨true, map.outputId rid, map.outputRef⟩

theorem palRcMaps_eq (block n j : Nat) (search : RidSearch) :
    palRcMaps mem block rid n j search = ridSearchOf rid search (findMap mem block rid n j) := by
  induction n generalizing j with
  | zero => rfl
  | succ n ih =>
    rw [palRcMaps, findMap]
    by_cases h : (mapAt mem block j).accepts rid = true
    · rw [if_pos h, if_pos ((accepts_iff _ _).mp h)]
      rfl
    · rw [if_neg h, if_neg (fun h' => h ((accepts_iff _ _).mpr h'))]
      exact ih (j + 1)

theorem palRcBlocks_eq (l : List Nat) (search : RidSearch) (found : Option IdMap) :
    palRcBlocks mem segment rid l (ridSearchOf rid search found) =
      ridSearchOf rid search (rcMapLoop mem rid segment l found) := by
  induction l generalizing found with
  | nil => rfl
  | cons block l ih =>
    rw [palRcBlocks, rcMapLoop]
    split_ifs with hrc
    · rw [← ih, palRcMaps_eq]
      cases findMap mem block rid (numDataMap mem block) 0 with
      | none => rfl
      | some map => rfl
    · exact ih found

theorem palSmmuMaps_eq (block sid n j : Nat) :
    palSmmuMaps mem block sid n j = (findMap mem block sid n j).isSome := by
  induction n generalizing j with
  | zero => rfl
  | succ n ih =>
    rw [palSmmuMaps, findMap]
    by_cases h : (mapAt mem block j).accepts sid = true
    · rw [if_pos h, if_pos ((accepts_iff _ _).mp h)]
      rfl
    · rw [if_neg h, if_neg (fun h' => h ((accepts_iff _ _).mpr h'))]
      exact ih (j + 1)

theorem isSome_valIovirtGetDeviceInfo {map : IdMap}
    (hmap : rcMapLoop mem rid segment (blocks mem) none = some map)
    (hsmmu : isSmmu mem (refBlock map.outputRef) = true) :
    (valIovirtGetDeviceInfo mem rid segment).isSome =
      (findMap mem (refBlock map.outputRef) (map.outputId rid)
        (numDataMap mem (refBlock map.outputRef)) 0).isSome := by
  have hits : ¬ typeOf mem (refBlock map.outputRef) = NodeType.itsGroup.code := by
    intro hits
    simp [isSmmu, hits, NodeType.code] at hsmmu
  simp only [valIovirtGetDeviceInfo, hmap, bind_eq_bind, bind_some, if_neg hits,
    if_pos hsmmu]
  cases findMap mem (refBlock map.outputRef) (map.outputId rid)
      (numDataMap mem (refBlock map.outputRef)) 0 with
  | none => rfl
  | some map' => rfl

/-- The base is that of the SMMU the device info comes through; when it does not come through
one, the result is one of the two marks. -/
theorem palIovirtGetRcSmmuBase_cases (mem : Words) (rid segment : Nat) :
    (∃ block, SucceedsThrough mem rid segment block ∧
      palIovirtGetRcSmmuBase mem segment rid = smmuBase mem block) ∨
    ((∀ block, ¬ SucceedsThrough mem rid segment block) ∧
      (palIovirtGetRcSmmuBase mem segment rid = 0 ∨
        palIovirtGetRcSmmuBase mem segment rid = 0xffffffff)) := by
  rw [palIovirtGetRcSmmuBase, show palRcBlocks mem segment rid (blocks mem) ⟨false, 0, 0⟩ = _ from
    palRcBlocks_eq (blocks mem) ⟨false, 0, 0⟩ none]
  cases hmap : rcMapLoop mem rid segment (blocks mem) none with
  | none =>
    refine .inr ⟨?_, .inr (by simp [ridSearchOf])⟩
    rintro block ⟨-, -, map, hm, -⟩
    rw [hmap] at hm
    cases hm
  | some map =>
    simp only [ridSearchOf, palSmmuMaps_eq, Bool.true_eq_false, if_false]
    -- any SMMU the ids come through is the one this mapping refers to
    have hunique : ∀ block, SucceedsThrough mem rid segment block →
        refBlock map.outputRef = block := by
      rintro block ⟨-, -, map', hm, hblock⟩
      rw [hmap, some_inj] at hm
      rw [hm, hblock]
    by_cases hsmmu : isSmmu mem (refBlock map.outputRef) = true
    · have hinfo := isSome_valIovirtGetDeviceInfo hmap hsmmu
      rw [← hinfo]
      split_ifs with hok
      · exact .inl ⟨refBlock map.outputRef, ⟨hok, hsmmu, map, hmap, rfl⟩, rfl⟩
      · exact .inr ⟨fun block h => hok h.1, .inl rfl⟩
    · rw [if_neg hsmmu]
      refine .inr ⟨fun block h => hsmmu ?_, .inl rfl⟩
      rw [hunique block h]
      exact h.2.1

theorem SucceedsThrough.mem_smmuBlocks (ht : SmmuTable mem) {block : Nat}
    (h : SucceedsThrough mem rid segment block) : block ∈ smmuBlocks mem := by
  obtain ⟨-, hsmmu, map, hmap, rfl⟩ := h
  rcases rcMapLoop_eq_some hmap with hnone | ⟨rc, hrc, htype, -, i, hi, rfl, -⟩
  · cases hnone
  · exact mem_filter.mpr ⟨ht.refs rc hrc htype i hi, hsmmu⟩

end

theorem smmuBaseLoop_eq {l : List Nat} (j : Nat)
    {i : Nat} (hi : i < (l.filter (isSmmu mem)).length) :
    smmuBaseLoop mem (j + i) l j = smmuBase mem (l.filter (isSmmu mem))[i] := by
  induction l generalizing j i with
  | nil => exact absurd hi (Nat.not_lt_zero i)
  | cons block l ih =>
    rw [smmuBaseLoop]
    by_cases hsmmu : isSmmu mem block = true
    · simp only [filter_cons_of_pos hsmmu] at hi ⊢
      rw [if_pos hsmmu]
      cases i with
      | zero => simp
      | succ i =>
        rw [if_neg (by omega), show j + (i + 1) = j + 1 + i by omega,
          ih (j + 1) (by simpa using hi)]
        rfl
    · simp only [filter_cons_of_neg hsmmu] at hi ⊢
      rw [if_neg hsmmu]
      exact ih j hi

section

variable (ht : SmmuTable mem)
include ht

theorem valSmmuGetInfo_ctrlBase {i : Nat} (hi : i < (smmuBlocks mem).length) :
    valSmmuGetInfo mem .ctrlBase i = smmuBase mem (smmuBlocks mem)[i] := by
  have hg : gNumSmmus mem = (smmuBlocks mem).length := ht.counter
  have hloop := smmuBaseLoop_eq 0 hi
  rw [zero_add] at hloop
  rw [valSmmuGetInfo, if_neg (by omega)]
  exact hloop

theorem valSmmuGetInfo_numCtrl : valSmmuGetInfo mem .numCtrl 0 = (smmuBlocks mem).length := by
  have hg : gNumSmmus mem = (smmuBlocks mem).length := ht.counter
  rw [valSmmuGetInfo]
  split
  · omega
  · exact hg

theorem smmuIndexLoop_eq {n i : Nat} (hn : n ≤ (smmuBlocks mem).length) (hi : i < n) :
    smmuIndexLoop mem (smmuBase mem ((smmuBlocks mem).get ⟨i, by omega⟩)) n = i := by
  induction n with
  | zero => exact absurd hi (Nat.not_lt_zero i)
  | succ n ih =>
    rw [smmuIndexLoop, valSmmuGetInfo_ctrlBase ht (by omega)]
    by_cases heq : i = n
    · subst heq
      exact if_pos rfl
    · rw [if_neg (fun hbase => heq (ht.bases i n (by omega) (by omega) hbase))]
      exact ih (by omega) (by omega)

theorem smmuIndexLoop_of_absent {base n : Nat} (hn : n ≤ (smmuBlocks mem).length)
    (hbase : ∀ block ∈ smmuBlocks mem, smmuBase mem block ≠ base) :
    smmuIndexLoop mem base n = acsInvalidIndex := by
  induction n with
  | zero => rfl
  | succ n ih =>
    rw [smmuIndexLoop, valSmmuGetInfo_ctrlBase ht (by omega),
      if_neg (fun h => hbase _ (getElem_mem _) h.symm)]
    exact ih (by omega)

theorem valIovirtGetRcSmmuIndex_of_succeeds {rid segment block : Nat}
    (h : SucceedsThrough mem rid segment block)
    (hbase : palIovirtGetRcSmmuBase mem segment rid = smmuBase mem block) :
    ∃ i, valIovirtGetRcSmmuIndex mem segment rid = i ∧ i ≠ acsInvalidIndex ∧
      (smmuBlocks mem)[i]? = some block := by
  have hmem := h.mem_smmuBlocks ht
  obtain ⟨i, hi, rfl⟩ := getElem_of_mem hmem
  have hlen := ht.words numSmmusWord
  rw [ht.counter] at hlen
  refine ⟨i, ?_, ?_, getElem?_eq_getElem hi⟩
  · rw [valIovirtGetRcSmmuIndex, hbase]
    rw [if_pos (ht.nonzero _ hmem).1, valSmmuGetInfo_numCtrl ht]
    exact smmuIndexLoop_eq ht le_rfl hi
  · unfold acsInvalidIndex
    omega

theorem valIovirtGetRcSmmuIndex_of_mark {rid segment : Nat}
    (hbase : palIovirtGetRcSmmuBase mem segment rid = 0 ∨
      palIovirtGetRcSmmuBase mem segment rid = 0xffffffff) :
    valIovirtGetRcSmmuIndex mem segment rid = acsInvalidIndex := by
  rw [valIovirtGetRcSmmuIndex]
  rcases hbase with hbase | hbase
  · simp [hbase]
  · rw [hbase, valSmmuGetInfo_numCtrl ht]
    exact smmuIndexLoop_of_absent ht le_rfl fun block hb => (ht.nonzero block hb).2

end

/-- There is an SMMU index exactly when the device info comes through an SMMU, and it is the
place of that SMMU among the SMMU blocks. -/
theorem valIovirtGetRcSmmuIndex_agrees (mem : Words) (ht : SmmuTable mem) (rid segment : Nat) :
    (valIovirtGetRcSmmuIndex mem segment rid ≠ acsInvalidIndex ↔
      ∃ block, SucceedsThrough mem rid segment block) ∧
    ∀ block, SucceedsThrough mem rid segment block →
      (smmuBlocks mem)[valIovirtGetRcSmmuIndex mem segment rid]? = some block := by
  rcases palIovirtGetRcSmmuBase_cases mem rid segment with ⟨block, h, hbase⟩ | ⟨hnone, hmark⟩
  · obtain ⟨i, hindex, hvalid, hi⟩ := valIovirtGetRcSmmuIndex_of_succeeds ht h hbase
    rw [hindex]
    refine ⟨iff_of_true hvalid ⟨block, h⟩, fun block' h' => ?_⟩
    obtain ⟨-, -, map, hmap, rfl⟩ := h
    obtain ⟨-, -, map', hmap', rfl⟩ := h'
    rw [hmap, some_inj] at hmap'
    rw [hi, hmap']
  · rw [valIovirtGetRcSmmuIndex_of_mark ht hmark]
    refine ⟨iff_of_false (fun h => h rfl) ?_, fun block h => absurd h (hnone block)⟩
    rintro ⟨block, h⟩
    exact hnone block h

/-- An ITS group at word 6, SMMUs at words 77 and 148, and root complexes of segment 0 at words
219 and 290, the second with the requester ids from 0x100 on and the second SMMU. -/
def twoSmmus : Words := fun a =>
  if a = 0 then 5 else if a = 1 then 2
  else if a = 7 then 1
  else if a = 77 then 4 else if a = 78 then 1 else if a = 81 then 0x2b400000
  else if a = 145 then 0xffff else if a = 147 then 24
  else if a = 148 then 4 else if a = 149 then 1 else if a = 152 then 0x2b500000
  else if a = 216 then 0xffff else if a = 218 then 24
  else if a = 219 then 2 else if a = 220 then 1
  else if a = 287 then 0xff else if a = 289 then 308
  else if a = 290 then 2 else if a = 291 then 1
  else if a = 357 then 0x100 else if a = 358 then 0xff else if a = 360 then 592
  else 0

theorem smmuTable_twoSmmus : SmmuTable twoSmmus where
  words := by
    have hite : ∀ {p : Prop} [Decidable p] {x y : Nat}, x < 2 ^ 32 → y < 2 ^ 32 →
        (if p then x else y) < 2 ^ 32 := by
      intro p _ x y hx hy
      split
      · exact hx
      · exact hy
    intro a
    repeat' apply hite
    all_goals decide
  counter := by decide
  refs := by decide
  bases := by
    have hbases : ∀ i (hi : i < (smmuBlocks twoSmmus).length),
        ∀ j (hj : j < (smmuBlocks twoSmmus).length), smmuBase twoSmmus (smmuBlocks twoSmmus)[i] =
          smmuBase twoSmmus (smmuBlocks twoSmmus)[j] → i = j := by decide
    exact fun i j hi hj => hbases i hi j hj
  nonzero := by decide

theorem valIovirtGetRcSmmuIndex_twoSmmus :
    SucceedsThrough twoSmmus 0x105 0 148 ∧
      valIovirtGetRcSmmuIndex twoSmmus 0 0x105 ≠ acsInvalidIndex ∧
      (smmuBlocks twoSmmus)[valIovirtGetRcSmmuIndex twoSmmus 0 0x105]? = some 148 := by
  have hthrough : SucceedsThrough twoSmmus 0x105 0 148 :=
    ⟨by decide, by decide, ⟨0x100, 0xff, 0, 592⟩, by decide, by decide⟩
  have hagrees := valIovirtGetRcSmmuIndex_agrees twoSmmus smmuTable_twoSmmus 0x105 0
  exact ⟨hthrough, hagrees.1.mpr ⟨148, hthrough⟩, hagrees.2 148 hthrough⟩

end ServerSoc.Iovirt
