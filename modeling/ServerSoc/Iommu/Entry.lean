/-
What one RIMT device structure leaves in the info table.

`putDevice` says byte by byte what the body of the outer loop does to the buffer:
the fields of the entry, and behind the entry one copy of the first ID mapping for
each step of the inner loop.  `createEntry_eq` is the connection to the source, and
`putDevices` chains it over the whole table.
-/
import ServerSoc.Iommu.Create

namespace ServerSoc.Iommu

open Memory List Option Nat

def idMappingFields (mp : IdMapping) : List Field :=
  [⟨0, 4, mp.sourceIdBase⟩, ⟨4, 4, mp.idNumber⟩, ⟨8, 4, mp.destDeviceIdBase⟩,
    ⟨12, 4, mp.destIommuOffset⟩]

def idMappingByte (mp : IdMapping) (o : Nat) : UInt8 := (fieldByte (idMappingFields mp) o).getD 0

theorem idMappingFields_disjoint (mp : IdMapping) :
    (idMappingFields mp).Pairwise Field.Disjoint := by
  simp [idMappingFields, Field.Disjoint]

theorem fieldByte_idMappingFields (mp : IdMapping) (o : Nat) :
    fieldByte (idMappingFields mp) o = if o < 16 then some (idMappingByte mp o) else none := by
  split_ifs with ho
  · rw [idMappingByte]
    have hcover : ∃ f ∈ idMappingFields mp, f.covers o := by
      simp only [idMappingFields, mem_cons, not_mem_nil, or_false, exists_eq_or_imp,
        exists_eq_left, Field.covers]
      omega
    obtain ⟨f, hf, hfo⟩ := hcover
    rw [fieldByte_of_mem (idMappingFields_disjoint mp) hf hfo]
    rfl
  · refine fieldByte_eq_none (fun f hf => ?_)
    simp only [idMappingFields, mem_cons, not_mem_nil, or_false] at hf
    rcases hf with rfl | rfl | rfl | rfl <;> simp only [Field.covers] <;> omega

theorem copyIdMapping_apply (img : Mem) (idMapEntry idMapPtr : Nat) (tbl : Mem) (x : Nat) :
    copyIdMapping img idMapEntry idMapPtr tbl x =
      if idMapPtr ≤ x ∧ x < idMapPtr + 16 then
        idMappingByte (readIdMapping img idMapEntry) (x - idMapPtr)
      else tbl x := by
  show storeFields tbl idMapPtr (idMappingFields (readIdMapping img idMapEntry)) x = _
  by_cases hx : x < idMapPtr
  · rw [storeFields_below hx, if_neg (by omega)]
  · obtain ⟨o, rfl⟩ := Nat.exists_eq_add_of_le (Nat.le_of_not_lt hx)
    rw [storeFields_apply (idMappingFields_disjoint _), fieldByte_idMappingFields,
      Nat.add_sub_cancel_left]
    by_cases ho : o < 16
    · rw [if_pos ho, if_pos (by omega), getD_some]
    · rw [if_neg ho, if_neg (by omega), getD_none]

/-! ## The inner loop -/

/-- How often the inner loop runs from node length `off` to the structure length
`len`: one step for each started mapping record, and at least one. -/
def strides (off len : Nat) : Nat := max 1 ((len - off + 19) / 20)

variable {img : Mem}

theorem copyIdMappings_eq {entry len : Nat} (hlen : load img (entry + 2) 2 = len)
    (idMapEntry ptr fuel nodeLength idMapPtr : Nat) (tbl : Mem)
    (hfuel : strides nodeLength len ≤ fuel) (hptr : ptr + 48 ≤ idMapPtr) :
    ∃ tbl', copyIdMappings fuel img entry idMapEntry ptr idMapPtr nodeLength tbl = some tbl' ∧
      ∀ x, tbl' x =
        if ptr + 42 ≤ x ∧ x < ptr + 44 then
          byteOf (load tbl (ptr + 42) 2 + strides nodeLength len) (x - (ptr + 42))
        else if idMapPtr ≤ x ∧ x < idMapPtr + 16 * strides nodeLength len then
          idMappingByte (readIdMapping img idMapEntry) ((x - idMapPtr) % 16)
        else tbl x := by
  induction fuel generalizing nodeLength idMapPtr tbl with
  | zero =>
    unfold strides at hfuel
    omega
  | succ fuel ih =>
    -- the table after one round: a mapping at `idMapPtr` and `idmap_num` one higher
    let tbl1 := copyIdMapping img idMapEntry idMapPtr tbl
    let tbl2 := store tbl1 (ptr + 42) 2 (load tbl1 (ptr + 42) 2 + 1)
    have hload : load tbl1 (ptr + 42) 2 = load tbl (ptr + 42) 2 := by
      refine load_congr fun i hi => ?_
      show copyIdMapping img idMapEntry idMapPtr tbl _ = _
      rw [copyIdMapping_apply, if_neg (by omega)]
    have htbl2 : ∀ x, tbl2 x =
        if ptr + 42 ≤ x ∧ x < ptr + 44 then
          byteOf (load tbl (ptr + 42) 2 + 1) (x - (ptr + 42))
        else if idMapPtr ≤ x ∧ x < idMapPtr + 16 then
          idMappingByte (readIdMapping img idMapEntry) (x - idMapPtr)
        else tbl x := by
      intro x
      show store tbl1 (ptr + 42) 2 (load tbl1 (ptr + 42) 2 + 1) x = _
      rw [hload]
      by_cases hx : ptr + 42 ≤ x ∧ x < ptr + 44
      · rw [if_pos hx, store_inside hx.1 (by omega)]
      · rw [if_neg hx, store_outside (by omega)]
        exact copyIdMapping_apply img idMapEntry idMapPtr tbl x
    have hunfold : copyIdMappings (fuel + 1) img entry idMapEntry ptr idMapPtr nodeLength tbl =
        if nodeLength + 20 < len then
          copyIdMappings fuel img entry idMapEntry ptr (idMapPtr + 16) (nodeLength + 20) tbl2
        else some tbl2 := by
      rw [← hlen]
      rfl
    rw [hunfold]
    split_ifs with hlt
    · have hs : strides nodeLength len = strides (nodeLength + 20) len + 1 := by
        unfold strides
        omega
      obtain ⟨tbl', hrun, hbytes⟩ := ih (nodeLength + 20) (idMapPtr + 16) tbl2
        (by omega) (by omega)
      refine ⟨tbl', hrun, fun x => ?_⟩
      have hload2 : load tbl2 (ptr + 42) 2 = (load tbl (ptr + 42) 2 + 1) % 256 ^ 2 := by
        rw [load_store_self, hload]
      rw [hbytes x]
      by_cases hx : ptr + 42 ≤ x ∧ x < ptr + 44
      · rw [if_pos hx, if_pos hx, hload2,
          ← byteOf_mod (n := 2) (by omega),
          mod_add_mod, byteOf_mod (by omega)]
        congr 1
        omega
      · rw [if_neg hx, if_neg hx, htbl2 x, if_neg hx]
        by_cases hin : idMapPtr + 16 ≤ x ∧ x < idMapPtr + 16 + 16 * strides (nodeLength + 20) len
        · rw [if_pos hin, if_pos (by omega)]
          congr 1
          omega
        · rw [if_neg hin]
          by_cases hfirst : idMapPtr ≤ x ∧ x < idMapPtr + 16
          · rw [if_pos hfirst, if_pos (by omega)]
            congr 1
            omega
          · rw [if_neg hfirst, if_neg (by omega)]
    · have hs : strides nodeLength len = 1 := by
        unfold strides
        omega
      refine ⟨tbl2, rfl, fun x => ?_⟩
      rw [htbl2 x, hs]
      split_ifs
      · rfl
      · congr 1
        omega
      · rfl

/-! ## One device structure -/

namespace Device

def strides (d : Device) : Nat := Iommu.strides d.idMappingOffset d.length

/-- The fields of info entry `k` that structure `d`, found `a` bytes into the
table, is stored to. -/
def entryFields (d : Device) (k a : Nat) : List Field :=
  [⟨offIommuNum, 4, k⟩, ⟨offType, 1, d.type⟩, ⟨offId, 2, d.id⟩] ++
    match d.info with
    | .iommu hardwareId baseAddress flags seg bdf =>
      [⟨offIommuOffset, 4, a⟩, ⟨offHardwareId, 8, hardwareId⟩, ⟨offBaseAddress, 8, baseAddress⟩,
        ⟨offFlags, 4, flags⟩, ⟨offPcieSeg, 2, seg⟩, ⟨offPcieBdf, 2, bdf⟩]
    | .pcieRootComplex seg off _ =>
      [⟨offPcieRcSeg, 2, seg⟩, ⟨offIdmapOffset, 2, off⟩, ⟨offIdmapNum, 2, d.strides⟩]
    | .platformDevice off _ =>
      [⟨offIdmapOffset, 2, off⟩, ⟨offIdmapNum, 2, d.strides⟩]

theorem entryFields_disjoint (d : Device) (k a : Nat) :
    (d.entryFields k a).Pairwise Field.Disjoint := by
  unfold entryFields
  cases d.info <;>
    simp [Field.Disjoint, offIommuNum, offType, offId, offIommuOffset, offHardwareId,
      offBaseAddress, offFlags, offPcieSeg, offPcieBdf, offPcieRcSeg, offIdmapOffset, offIdmapNum]

theorem entryFields_lt (d : Device) (k a : Nat) : ∀ f ∈ d.entryFields k a, f.off + f.len ≤ 48 := by
  unfold entryFields
  cases d.info <;>
    simp [offIommuNum, offType, offId, offIommuOffset, offHardwareId, offBaseAddress, offFlags,
      offPcieSeg, offPcieBdf, offPcieRcSeg, offIdmapOffset, offIdmapNum]

theorem fieldByte_entryFields_of_ge (d : Device) (k a : Nat) {r : Nat} (h : 48 ≤ r) :
    fieldByte (d.entryFields k a) r = none := by
  refine fieldByte_eq_none fun f hf hr => ?_
  have := d.entryFields_lt k a f hf
  unfold Field.covers at hr
  omega

end Device

/-- The table after structure `d` was copied to entry `k`, `mp` being the record at
the start of its ID mapping array. -/
def putDevice (tbl : Mem) (k a : Nat) (d : Device) (mp : IdMapping) : Mem :=
  fun x =>
    if x < entryBase k then tbl x
    else if x < entryBase (k + 1) then
      (fieldByte (d.entryFields k a) (x - entryBase k)).getD (tbl x)
    else if d.isBinding = true ∧ x < entryBase (k + 1) + 16 * d.strides then
      idMappingByte mp ((x - entryBase (k + 1)) % 16)
    else tbl x

theorem entryBase_succ (k : Nat) : entryBase (k + 1) = entryBase k + 48 := by
  unfold entryBase entrySize
  omega

variable {d : Device}

theorem storeFields_eq_putDevice (hd : d.isBinding = false) (tbl : Mem) (k a : Nat)
    (mp : IdMapping) :
    storeFields tbl (entryBase k) (d.entryFields k a) = putDevice tbl k a d mp := by
  funext x
  unfold putDevice
  by_cases hx : x < entryBase k
  · rw [if_pos hx, storeFields_below hx]
  · obtain ⟨r, rfl⟩ := Nat.exists_eq_add_of_le (Nat.le_of_not_lt hx)
    rw [if_neg hx, storeFields_apply (d.entryFields_disjoint k a), Nat.add_sub_cancel_left,
      entryBase_succ]
    by_cases hr : r < 48
    · rw [if_pos (by omega)]
    · rw [if_neg (by omega), if_neg (by simp [hd]), d.fieldByte_entryFields_of_ge k a (by omega),
        getD_none]

variable {k a : Nat} {ds : List Device}

theorem eq_putDevice_of_binding (hd : d.isBinding = true) {tbl tbl' : Mem} {mp : IdMapping}
    {fs : List Field} (hfs : d.entryFields k a = fs ++ [⟨offIdmapNum, 2, d.strides⟩])
    (h : ∀ x, tbl' x =
      if entryBase k + 42 ≤ x ∧ x < entryBase k + 44 then
        byteOf d.strides (x - (entryBase k + 42))
      else if entryBase k + 48 ≤ x ∧ x < entryBase k + 48 + 16 * d.strides then
        idMappingByte mp ((x - (entryBase k + 48)) % 16)
      else storeFields tbl (entryBase k) fs x) : tbl' = putDevice tbl k a d mp := by
  have hall := storeFields_apply (d.entryFields_disjoint k a) tbl (entryBase k)
  have hsplit : storeFields tbl (entryBase k) (d.entryFields k a) =
      store (storeFields tbl (entryBase k) fs) (entryBase k + 42) 2 d.strides := by
    rw [hfs, storeFields, foldl_append]
    rfl
  funext x
  rw [h x]
  unfold putDevice
  by_cases hx : x < entryBase k
  · rw [if_pos hx, if_neg (by omega), if_neg (by omega), storeFields_below hx]
  · obtain ⟨r, rfl⟩ := Nat.exists_eq_add_of_le (Nat.le_of_not_lt hx)
    rw [if_neg hx, entryBase_succ, Nat.add_sub_cancel_left, ← hall r, hsplit]
    by_cases hr : r < 48
    · rw [if_pos (show entryBase k + r < entryBase k + 48 by omega)]
      by_cases hnum : 42 ≤ r ∧ r < 44
      · rw [if_pos (by omega), store_inside (by omega) (by omega)]
      · rw [if_neg (by omega), if_neg (by omega), store_outside (by omega)]
    · rw [if_neg (by omega), if_neg (show ¬ entryBase k + r < entryBase k + 48 by omega)]
      by_cases hin : r < 48 + 16 * d.strides
      · rw [if_pos (by omega), if_pos ⟨hd, by omega⟩]
      · rw [if_neg (by omega), if_neg (by omega)]
        have hnone := d.fieldByte_entryFields_of_ge k a (r := r) (by omega)
        have hr' := hall r
        rw [hnone, hsplit, store_outside (by omega)] at hr'
        exact hr'

/-- The part of the loop body the two kinds of binding share: the mappings behind
the entry whose fields up to `idmap_offset` are stored. -/
theorem copyIdMappings_eq_putDevice (fs : List Field) (hd : d.isBinding = true)
    (hlength : load img (a + 2) 2 = d.length) (hoff : d.idMappingOffset < 256 ^ 2)
    (hfs : d.entryFields k a =
      (fs ++ [⟨offIdmapOffset, 2, d.idMappingOffset⟩]) ++ [⟨offIdmapNum, 2, d.strides⟩])
    (tbl tbl1 : Mem) (htbl1 : tbl1 = store (store (storeFields tbl (entryBase k) fs)
      (entryBase k + 40) 2 d.idMappingOffset) (entryBase k + 42) 2 0) :
    copyIdMappings (d.length + 1) img a (a + d.idMappingOffset) (entryBase k) (entryBase k + 48)
        (load tbl1 (entryBase k + 40) 2) tbl1 =
      some (putDevice tbl k a d (readIdMapping img (a + d.idMappingOffset))) := by
  have hload : load tbl1 (entryBase k + 40) 2 = d.idMappingOffset := by
    rw [htbl1, load_store_of_disjoint (by omega), load_store_self, mod_eq_of_lt hoff]
  have hnum : load tbl1 (entryBase k + 42) 2 = 0 := by
    rw [htbl1, load_store_self, zero_mod]
  obtain ⟨tbl', hrun, hbytes⟩ := copyIdMappings_eq hlength (a + d.idMappingOffset)
    (entryBase k) (d.length + 1) d.idMappingOffset (entryBase k + 48) tbl1
    (by unfold strides; omega) le_rfl
  rw [hload, hrun]
  refine congrArg some (eq_putDevice_of_binding hd hfs (fun x => ?_))
  rw [hbytes x, hnum, zero_add, show strides d.idMappingOffset d.length = d.strides from rfl]
  split_ifs with hx hin
  · rfl
  · rfl
  · rw [htbl1, store_outside (by omega), storeFields, storeFields, foldl_append]
    rfl

theorem createEntry_eq (hd : DeviceAt img a d) (tbl : Mem) (hk : load tbl 0 4 = k) :
    createEntry img a a (entryBase k) tbl =
      some (putDevice tbl k a d (readIdMapping img (a + d.idMappingOffset))) := by
  obtain ⟨htype, hlength, hid, hinfo⟩ := hd
  obtain ⟨id, len, info⟩ := d
  cases info with
  | iommu hardwareId baseAddress flags seg bdf =>
    obtain ⟨-, h1, h2, h3, h4, h5⟩ := hinfo
    rw [← storeFields_eq_putDevice
      rfl tbl k a _]
    simp only [createEntry, htype, hid, hk, h1, h2, h3, h4, h5]
    rfl
  | pcieRootComplex seg off ms =>
    obtain ⟨-, -, h1, h2, -, -⟩ := hinfo
    simp only [createEntry, htype, hid, hk, h1, h2, hlength]
    exact copyIdMappings_eq_putDevice
      [⟨offIommuNum, 4, k⟩, ⟨offType, 1, typePcieRootComplex⟩, ⟨offId, 2, id⟩,
        ⟨offPcieRcSeg, 2, seg⟩] rfl hlength (h2 ▸ load_lt img (a + 16) 2) rfl tbl _ rfl
  | platformDevice off ms =>
    obtain ⟨-, -, h1, -, -⟩ := hinfo
    simp only [createEntry, htype, hid, hk, h1, hlength]
    exact copyIdMappings_eq_putDevice
      [⟨offIommuNum, 4, k⟩, ⟨offType, 1, typePlatformDevice⟩, ⟨offId, 2, id⟩]
      rfl hlength (h1 ▸ load_lt img (a + 8) 2) rfl tbl _ rfl

/-! ## The outer loop -/

def deviceWrite (k a : Nat) (d : Device) (mp : IdMapping) : Write :=
  fun x =>
    if x < 4 then some (byteOf (k + 1) x)
    else if x < entryBase k then none
    else if x < entryBase (k + 1) then fieldByte (d.entryFields k a) (x - entryBase k)
    else if d.isBinding = true ∧ x < entryBase (k + 1) + 16 * d.strides then
      some (idMappingByte mp ((x - entryBase (k + 1)) % 16))
    else none

def deviceWrites (img : Mem) : Nat → Nat → List Device → List Write
  | _, _, [] => []
  | k, a, d :: ds =>
    deviceWrite k a d (readIdMapping img (a + d.idMappingOffset)) ::
      deviceWrites img (k + 1) (a + d.length) ds

@[simp] theorem deviceWrites_length (img : Mem) (k a : Nat) (ds : List Device) :
    (deviceWrites img k a ds).length = ds.length := by
  induction ds generalizing k a with
  | nil => rfl
  | cons d ds ih => simp [deviceWrites, ih]

theorem deviceWrites_getElem (img : Mem) {i : Nat} (hi : i < ds.length) :
    (deviceWrites img k a ds)[i]? = some (deviceWrite (k + i) (deviceOffset a ds i) ds[i]
      (readIdMapping img (deviceOffset a ds i + ds[i].idMappingOffset))) := by
  induction ds generalizing k a i with
  | nil => exact absurd hi (Nat.not_lt_zero i)
  | cons d ds ih =>
    cases i with
    | zero => simp [deviceWrites, deviceOffset]
    | succ i =>
      rw [deviceWrites, getElem?_cons_succ, ih (by simpa using hi), deviceOffset_cons,
        getElem_cons_succ, show k + 1 + i = k + (i + 1) by omega]

theorem store_putDevice (tbl : Mem) (k a : Nat) (d : Device) (mp : IdMapping) :
    store (putDevice tbl k a d mp) 0 4 (k + 1) =
      fun x => (deviceWrite k a d mp x).getD (tbl x) := by
  funext x
  unfold deviceWrite
  by_cases h4 : x < 4
  · rw [if_pos h4, store_inside (by omega) (by omega), getD_some, Nat.sub_zero]
  · rw [store_outside (by omega), putDevice]
    split_ifs
    all_goals rfl

theorem load_putDevice_header (tbl : Mem) (k a : Nat) (d : Device) (mp : IdMapping) :
    load (putDevice tbl k a d mp) 0 4 = load tbl 0 4 := by
  refine load_congr fun i hi => if_pos ?_
  unfold entryBase
  omega

theorem createEntries_eq {e : Nat} (he : e < 2 ^ 32) (fuel : Nat) (hds : ds ≠ [])
    (hat : DevicesAt img a ds e) (hfuel : ds.length ≤ fuel) (tbl : Mem) (hk : load tbl 0 4 = k)
    (hcount : k + ds.length < 2 ^ 32) :
    createEntries fuel img e a a (entryBase k) tbl =
      some (overlay tbl (deviceWrites img k a ds)) := by
  induction fuel generalizing k a ds tbl with
  | zero => exact absurd (length_eq_zero_iff.mp (le_zero.mp hfuel)) hds
  | succ fuel ih =>
    cases ds with
    | nil => exact absurd rfl hds
    | cons d ds =>
      obtain ⟨hd, hrest⟩ := hat
      have hle := le_of_devicesAt hrest
      rw [length_cons] at hfuel hcount
      rw [createEntries, createEntry_eq hd tbl hk, deviceWrites, overlay_cons, ← store_putDevice]
      simp only [hd.2.1, load_putDevice_header, hk]
      rw [mod_eq_of_lt (hle.trans_lt he)]
      cases ds with
      | nil =>
        have hend : a + d.length = e := hrest
        rw [if_neg (by omega)]
        rfl
      | cons d' ds =>
        have hlt : a + d.length < e := by
          have hpos := Device.length_pos_of_deviceAt hrest.1
          have hle' := le_of_devicesAt hrest.2
          omega
        rw [if_pos hlt, show entryBase k + entrySize = entryBase (k + 1) from rfl]
        refine ih (cons_ne_nil d' ds) hrest (by omega) _ ?_ (by omega)
        rw [load_store_self, mod_eq_of_lt (by omega)]

end ServerSoc.Iommu
