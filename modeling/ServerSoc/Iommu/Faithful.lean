/-
When the IOMMU info table says what the RIMT says.

`Faithful` is what a reader of the table relies on.  The fields of the entries are always right.
The ID mappings lie over the entries behind their own, and only the first one of a structure is
ever copied.  `Intact` says which tables survive this.
-/
import ServerSoc.Iommu.Entry

namespace ServerSoc.Iommu

open Memory List Option Nat

/-- The accessors return the device structures `ds`, the first one `a` bytes into
the RIMT. -/
structure Faithful (t : Option Mem) (a : Nat) (ds : List Device) : Prop where
  num : valIommuGetNum t = ds.length
  type : ∀ k (hk : k < ds.length), valIommuGetInfo t k .type = ds[k].type
  iommu : ∀ k (hk : k < ds.length) hardwareId baseAddress flags seg bdf,
    ds[k].info = .iommu hardwareId baseAddress flags seg bdf →
      valIommuGetInfo t k .iommuOffset = deviceOffset a ds k ∧
      valIommuGetInfo t k .baseAddress = baseAddress ∧ valIommuGetInfo t k .flags = flags ∧
      valIommuGetInfo t k .pcieSeg = seg ∧ valIommuGetInfo t k .pcieBdf = bdf
  idmapNum : ∀ k (hk : k < ds.length), ds[k].isBinding = true →
    valIommuGetIdmapNum t k = ds[k].mappings.length
  mapping : ∀ k (hk : k < ds.length) m (hm : m < ds[k].mappings.length),
    valIommuGetPciercPlatformInfo t k m .sourceIdBase = ds[k].mappings[m].sourceIdBase ∧
    valIommuGetPciercPlatformInfo t k m .numIds = ds[k].mappings[m].idNumber ∧
    valIommuGetPciercPlatformInfo t k m .destIdBase = ds[k].mappings[m].destDeviceIdBase ∧
    valIommuGetPciercPlatformInfo t k m .destIommuOffset = ds[k].mappings[m].destIommuOffset

/-! ## Which tables survive -/

/-- The byte the fields of structure `j` put at offset `r` of entry `j`. -/
def storedByte (a : Nat) (ds : List Device) (j r : Nat) : Option UInt8 :=
  (ds[j]?).bind fun d => fieldByte (d.entryFields j (deviceOffset a ds j)) r

/-- The mappings of structure `i` extend to slot `s` of entry `j`; an entry has room
for three mappings. -/
def Reaches (ds : List Device) (i j s : Nat) : Prop :=
  ∃ d, ds[i]? = some d ∧ i < j ∧ 3 * (j - 1 - i) + s < d.mappings.length

def LastReaches (ds : List Device) (i j s : Nat) : Prop :=
  Reaches ds i j s ∧ ∀ i', i < i' → ¬ Reaches ds i' j s

/-- The structures whose mappings come through the overlay.  Mapping `m` of structure
`k` lies in slot `m % 3` of entry `k + 1 + m / 3`.  Where the fields of that entry
cover a byte of it, they must agree with it, and elsewhere the first mapping of the
last structure that extends so far must. -/
structure Intact (a : Nat) (ds : List Device) : Prop where
  nonempty : ds ≠ []
  closed : ∀ d ∈ ds, d.isBinding = true →
    0 < d.mappings.length ∧ d.length = d.idMappingOffset + rimtIdMappingSize * d.mappings.length
  stored : ∀ k (hk : k < ds.length) m (hm : m < ds[k].mappings.length) o, o < 16 →
    ∀ b, storedByte a ds (k + 1 + m / 3) (16 * (m % 3) + o) = some b →
      idMappingByte ds[k].mappings[m] o = b
  copied : ∀ k (hk : k < ds.length) m (hm : m < ds[k].mappings.length) o, o < 16 →
    storedByte a ds (k + 1 + m / 3) (16 * (m % 3) + o) = none →
      ∀ i d mp, LastReaches ds i (k + 1 + m / 3) (m % 3) → ds[i]? = some d →
        d.mappings.head? = some mp → idMappingByte ds[k].mappings[m] o = idMappingByte mp o

/-! ## Well-formed structures -/

variable {ds : List Device} {img t : Mem} {a e : Nat}

theorem deviceAt_of_devicesAt (h : DevicesAt img a ds e) {i : Nat} (hi : i < ds.length) :
    DeviceAt img (deviceOffset a ds i) ds[i] ∧ deviceOffset a ds i + ds[i].length ≤ e := by
  induction ds generalizing a i with
  | nil => exact absurd hi (Nat.not_lt_zero i)
  | cons d ds ih =>
    cases i with
    | zero =>
      exact ⟨h.1, le_of_devicesAt h.2⟩
    | succ i =>
      rw [deviceOffset_cons]
      exact ih h.2 (by simpa using hi)

theorem length_le_of_devicesAt (h : DevicesAt img a ds e) : a + ds.length ≤ e := by
  induction ds generalizing a with
  | nil => exact h.le
  | cons d ds ih =>
    have hpos := Device.length_pos_of_deviceAt h.1
    have hrest := ih h.2
    rw [length_cons]
    omega

def IdMapping.Fits (mp : IdMapping) : Prop :=
  mp.sourceIdBase < 256 ^ 4 ∧ mp.idNumber < 256 ^ 4 ∧ mp.destDeviceIdBase < 256 ^ 4 ∧
    mp.destIommuOffset < 256 ^ 4

theorem fits_of_idMappingsAt {ms : List IdMapping} (h : IdMappingsAt img a ms) :
    ∀ mp ∈ ms, mp.Fits := by
  induction ms generalizing a with
  | nil => simp
  | cons mp ms ih =>
    intro mp' hmem
    rcases mem_cons.mp hmem with rfl | hmem
    · rw [← h.1]
      exact ⟨load_lt _ _ _, load_lt _ _ _, load_lt _ _ _, load_lt _ _ _⟩
    · exact ih h.2 mp' hmem

theorem readIdMapping_eq_iff {b : Nat} {mp : IdMapping} (hmp : mp.Fits) :
    readIdMapping t b = mp ↔ ∀ o, o < 16 → t (b + o) = idMappingByte mp o := by
  obtain ⟨h1, h2, h3, h4⟩ := hmp
  have hload : ∀ off val, (⟨off, 4, val⟩ : Field) ∈ idMappingFields mp → val < 256 ^ 4 →
      (load t (b + off) 4 = val ↔
        ∀ i, i < 4 → t (b + (off + i)) = idMappingByte mp (off + i)) := by
    intro off val hf hval
    rw [load_eq_iff hval]
    refine forall_congr' fun i => forall_congr' fun hi => ?_
    have hcov : (⟨off, 4, val⟩ : Field).covers (off + i) := ⟨Nat.le_add_right off i, by simpa⟩
    rw [idMappingByte, fieldByte_of_mem (idMappingFields_disjoint mp) hf hcov, getD_some,
      Nat.add_sub_cancel_left, add_assoc]
  have heq : readIdMapping t b = mp ↔
      load t (b + 0) 4 = mp.sourceIdBase ∧ load t (b + 4) 4 = mp.idNumber ∧
        load t (b + 8) 4 = mp.destDeviceIdBase ∧ load t (b + 12) 4 = mp.destIommuOffset := by
    cases mp
    simp [readIdMapping]
  rw [heq, hload 0 _ (by simp [idMappingFields]) h1, hload 4 _ (by simp [idMappingFields]) h2,
    hload 8 _ (by simp [idMappingFields]) h3, hload 12 _ (by simp [idMappingFields]) h4]
  constructor
  · rintro ⟨g1, g2, g3, g4⟩ o ho
    have hcase : o < 4 ∨ (4 ≤ o ∧ o < 8) ∨ (8 ≤ o ∧ o < 12) ∨ 12 ≤ o := by omega
    rcases hcase with h | h | h | h
    · simpa using g1 o h
    · simpa [Nat.add_sub_cancel' h.1] using g2 (o - 4) (by omega)
    · simpa [Nat.add_sub_cancel' h.1] using g3 (o - 8) (by omega)
    · simpa [Nat.add_sub_cancel' h] using g4 (o - 12) (by omega)
  · intro g
    exact ⟨fun i hi => g (0 + i) (by omega), fun i hi => g (4 + i) (by omega),
      fun i hi => g (8 + i) (by omega), fun i hi => g (12 + i) (by omega)⟩

/-! ## The bytes of the finished table -/

def infoTable (img tbl : Mem) (a : Nat) (ds : List Device) : Mem :=
  overlay (store tbl 0 4 0) (deviceWrites img 0 a ds)

theorem palIommuCreateInfoTable_eq (h : RimtAt img ds) (hds : ds ≠ []) (tbl : Mem) :
    palIommuCreateInfoTable (some img) tbl =
      some (infoTable img tbl (rimtDeviceOffset img) ds) := by
  have hlt : rimtLength img < 2 ^ 32 := load_lt img 4 4
  have hlen := length_le_of_devicesAt h.devices
  refine createEntries_eq hlt _ hds h.devices (by omega) _ ?_ (by omega)
  rw [load_store_self, zero_mod]

variable {k : Nat}

section

variable {tbl : Mem} {j r x s o i : Nat} {mp : IdMapping} {d : Device} {b : UInt8}

theorem infoTable_apply (hi : i < ds.length) (hb : deviceWrite i (deviceOffset a ds i) ds[i]
      (readIdMapping img (deviceOffset a ds i + ds[i].idMappingOffset)) x = some b)
    (hlater : ∀ j (hj : j < ds.length), i < j → deviceWrite j (deviceOffset a ds j) ds[j]
      (readIdMapping img (deviceOffset a ds j + ds[j].idMappingOffset)) x = none) :
    infoTable img tbl a ds x = b := by
  have hget : ∀ j (hj : j < ds.length) (hj' : j < (deviceWrites img 0 a ds).length),
      (deviceWrites img 0 a ds)[j] = deviceWrite j (deviceOffset a ds j) ds[j]
        (readIdMapping img (deviceOffset a ds j + ds[j].idMappingOffset)) := by
    intro j hj hj'
    have h := deviceWrites_getElem img (k := 0) (a := a) hj
    rwa [getElem?_eq_getElem hj', some_inj, zero_add] at h
  have hi' : i < (deviceWrites img 0 a ds).length := by simpa using hi
  refine overlay_last hi' (by rw [hget i hi hi', hb]) fun j hj hij => ?_
  have hj' : j < ds.length := by simpa using hj
  rw [hget j hj' hj, hlater j hj' hij]

theorem deviceWrite_of_lt (h4 : 4 ≤ x) (hx : x < entryBase k) : deviceWrite k a d mp x = none := by
  rw [deviceWrite, if_neg (by omega), if_pos hx]

theorem deviceWrite_entry (hr : r < 48) :
    deviceWrite k a d mp (entryBase k + r) = fieldByte (d.entryFields k a) r := by
  have hbase : 8 ≤ entryBase k := Nat.le_add_right 8 _
  rw [deviceWrite, if_neg (by omega), if_neg (by omega), entryBase_succ, if_pos (by omega),
    Nat.add_sub_cancel_left]

theorem deviceWrite_mapping (hj : k < j) (ho : o < 16) :
    deviceWrite k a d mp (entryBase j + (16 * s + o)) =
      if d.isBinding = true ∧ 3 * (j - 1 - k) + s < d.strides then some (idMappingByte mp o)
      else none := by
  obtain ⟨n, rfl⟩ := Nat.exists_eq_add_of_lt hj
  have hbase : entryBase (k + n + 1) = entryBase (k + 1) + 48 * n := by
    unfold entryBase entrySize
    omega
  have hk := entryBase_succ k
  have hmod : (entryBase (k + n + 1) + (16 * s + o) - entryBase (k + 1)) % 16 = o := by omega
  rw [deviceWrite, if_neg (by omega), if_neg (by omega), if_neg (by omega), hmod]
  refine if_congr (and_congr_right (fun _ => ?_)) rfl rfl
  omega

theorem storedByte_eq (hj : j < ds.length) :
    storedByte a ds j r = fieldByte (ds[j].entryFields j (deviceOffset a ds j)) r := by
  rw [storedByte, getElem?_eq_getElem hj, bind_some]

theorem infoTable_of_storedByte (h : storedByte a ds j r = some b) :
    infoTable img tbl a ds (entryBase j + r) = b := by
  have hj : j < ds.length := by
    by_contra hge
    rw [storedByte, getElem?_eq_none (by omega)] at h
    cases h
  rw [storedByte_eq hj] at h
  have hr : r < 48 := by
    by_contra hge
    rw [Device.fieldByte_entryFields_of_ge _ _ _ (by omega)] at h
    cases h
  refine infoTable_apply hj (by rw [deviceWrite_entry hr, h]) fun i hi hji => ?_
  refine deviceWrite_of_lt (le_add_right_of_le (le_add_right_of_le (by omega))) ?_
  unfold entryBase entrySize
  omega

theorem infoTable_of_lastReaches
    (hstrides : ∀ d ∈ ds, d.isBinding = true → d.strides = d.mappings.length) (hs : s < 3)
    (ho : o < 16) (hnone : storedByte a ds j (16 * s + o) = none) (hi : i < ds.length)
    (hlast : LastReaches ds i j s) :
    infoTable img tbl a ds (entryBase j + (16 * s + o)) =
      idMappingByte (readIdMapping img (deviceOffset a ds i + ds[i].idMappingOffset)) o := by
  have hreach : ∀ k (hk : k < ds.length), k < j →
      ((ds[k].isBinding = true ∧ 3 * (j - 1 - k) + s < ds[k].strides) ↔ Reaches ds k j s) := by
    intro k hk hkj
    constructor
    · rintro ⟨hb, hlt⟩
      rw [hstrides _ (getElem_mem hk) hb] at hlt
      exact ⟨ds[k], getElem?_eq_getElem hk, hkj, hlt⟩
    · rintro ⟨d, hd, -, hlt⟩
      rw [getElem?_eq_getElem hk, some_inj] at hd
      subst hd
      have hb : ds[k].isBinding = true := by
        unfold Device.mappings at hlt
        unfold Device.isBinding
        split <;> simp_all
      exact ⟨hb, by rwa [hstrides _ (getElem_mem hk) hb]⟩
  have hij : i < j := by
    obtain ⟨_, _, h, _⟩ := hlast.1
    exact h
  refine infoTable_apply hi ?_ fun k hk hik => ?_
  · rw [deviceWrite_mapping hij ho, if_pos ((hreach i hi hij).mpr hlast.1)]
  · rcases Nat.lt_trichotomy k j with hkj | rfl | hjk
    · rw [deviceWrite_mapping hkj ho, if_neg (fun h => hlast.2 k hik ((hreach k hk hkj).mp h))]
    · rw [deviceWrite_entry (by omega), ← storedByte_eq hk, hnone]
    · refine deviceWrite_of_lt (le_add_right_of_le (le_add_right_of_le (by omega))) ?_
      unfold entryBase entrySize
      omega

theorem load_infoTable {off len val : Nat} (hk : k < ds.length)
    (hf : ⟨off, len, val⟩ ∈ ds[k].entryFields k (deviceOffset a ds k)) (hval : val < 256 ^ len) :
    load (infoTable img tbl a ds) (entryBase k + off) len = val := by
  refine (load_eq_iff hval).mpr fun i hi => ?_
  have hcov : (⟨off, len, val⟩ : Field).covers (off + i) := ⟨Nat.le_add_right off i, by simpa⟩
  rw [add_assoc]
  refine infoTable_of_storedByte ?_
  rw [storedByte_eq hk, fieldByte_of_mem (ds[k].entryFields_disjoint _ _) hf hcov,
    Nat.add_sub_cancel_left]

theorem load_infoTable_header (hds : ds ≠ []) (hlt : ds.length < 2 ^ 32) :
    load (infoTable img tbl a ds) 0 4 = ds.length := by
  have hpos := length_pos_iff.mpr hds
  refine (load_eq_iff hlt).mpr fun i hi => ?_
  refine infoTable_apply (i := ds.length - 1) (by omega) ?_ fun j hj hij => by omega
  rw [deviceWrite, if_pos (by omega), Nat.sub_add_cancel hpos, zero_add]

end

/-! ## The fields of the entries -/

theorem valIommuGetInfo_type_infoTable (tbl : Mem) (hk : k < ds.length) :
    valIommuGetInfo (some (infoTable img tbl a ds)) k .type = ds[k].type := by
  refine load_infoTable hk (by simp [Device.entryFields]) ?_
  unfold Device.type
  split <;> decide

section

variable (h : DevicesAt img a ds e)
include h

theorem valIommuGetIdmapNum_infoTable (tbl : Mem) (hk : k < ds.length)
    (hb : ds[k].isBinding = true) :
    valIommuGetIdmapNum (some (infoTable img tbl a ds)) k = ds[k].strides := by
  have hlt := Device.length_lt_of_deviceAt (deviceAt_of_devicesAt h hk).1
  refine load_infoTable hk ?_ ?_
  · unfold Device.isBinding at hb
    unfold Device.entryFields
    cases hinfo : ds[k].info <;> simp_all
  · show max 1 _ < 65536
    omega

theorem strides_eq_iff {d : Device} (hd : d ∈ ds) (hb : d.isBinding = true) :
    d.strides = d.mappings.length ↔ 0 < d.mappings.length ∧
      d.length = d.idMappingOffset + rimtIdMappingSize * d.mappings.length := by
  obtain ⟨k, hk, rfl⟩ := getElem_of_mem hd
  have hfit : ds[k].idMappingOffset + 20 * ds[k].mappings.length ≤ ds[k].length := by
    obtain ⟨-, -, -, hat⟩ := (deviceAt_of_devicesAt h hk).1
    unfold Device.isBinding at hb
    unfold Device.idMappingOffset Device.mappings
    cases hinfo : ds[k].info <;> rw [hinfo] at hat hb
    · cases hb
    · exact hat.2.1
    · exact hat.2.1
  unfold Device.strides strides rimtIdMappingSize
  omega

theorem idMappingsAt_of_devicesAt (hk : k < ds.length) :
    IdMappingsAt img (deviceOffset a ds k + ds[k].idMappingOffset) ds[k].mappings := by
  obtain ⟨-, -, -, hat⟩ := (deviceAt_of_devicesAt h hk).1
  unfold Device.idMappingOffset Device.mappings
  cases hinfo : ds[k].info <;> rw [hinfo] at hat
  · trivial
  · exact hat.2.2.2.2.2
  · exact hat.2.2.2.2

end

/-! ## The mappings -/

theorem exists_lastReaches {j s : Nat} (h : Reaches ds k j s) : ∃ i, LastReaches ds i j s := by
  classical
  have hlt : ∀ i, Reaches ds i j s → i ≤ j := fun i ⟨_, _, hij, _⟩ => hij.le
  refine ⟨findGreatest (fun i => Reaches ds i j s) j,
    findGreatest_spec (P := fun i => Reaches ds i j s) (hlt k h) h, fun i hi hr => ?_⟩
  exact findGreatest_is_greatest hi (hlt i hr) hr

theorem mapping_iff_readIdMapping (t : Mem) (k m : Nat) (mp : IdMapping) :
    (valIommuGetPciercPlatformInfo (some t) k m .sourceIdBase = mp.sourceIdBase ∧
      valIommuGetPciercPlatformInfo (some t) k m .numIds = mp.idNumber ∧
      valIommuGetPciercPlatformInfo (some t) k m .destIdBase = mp.destDeviceIdBase ∧
      valIommuGetPciercPlatformInfo (some t) k m .destIommuOffset = mp.destIommuOffset) ↔
    readIdMapping t (idMappingBase k m) = mp := by
  cases mp
  simp [valIommuGetPciercPlatformInfo, readIdMapping]

theorem mapping_infoTable_iff (h : DevicesAt img a ds e)
    (hstrides : ∀ d ∈ ds, d.isBinding = true → d.strides = d.mappings.length) (tbl : Mem)
    {m : Nat} (hk : k < ds.length) (hm : m < ds[k].mappings.length) :
    readIdMapping (infoTable img tbl a ds) (idMappingBase k m) = ds[k].mappings[m] ↔
      (∀ o, o < 16 → ∀ b, storedByte a ds (k + 1 + m / 3) (16 * (m % 3) + o) = some b →
        idMappingByte ds[k].mappings[m] o = b) ∧
      (∀ o, o < 16 → storedByte a ds (k + 1 + m / 3) (16 * (m % 3) + o) = none →
        ∀ i d mp, LastReaches ds i (k + 1 + m / 3) (m % 3) → ds[i]? = some d →
          d.mappings.head? = some mp → idMappingByte ds[k].mappings[m] o = idMappingByte mp o) := by
  have hfits := fits_of_idMappingsAt (idMappingsAt_of_devicesAt h hk) _ (getElem_mem hm)
  have hmod : m % 3 < 3 := mod_lt m (by omega)
  -- the byte left behind when no field is stored over it
  have hcopied : ∀ o, o < 16 → storedByte a ds (k + 1 + m / 3) (16 * (m % 3) + o) = none →
      ∀ i d mp, LastReaches ds i (k + 1 + m / 3) (m % 3) → ds[i]? = some d →
        d.mappings.head? = some mp →
          infoTable img tbl a ds (idMappingBase k m + o) = idMappingByte mp o := by
    intro o ho hnone i d mp hlast hd hmp
    obtain ⟨hi, rfl⟩ := List.getElem?_eq_some_iff.mp hd
    obtain ⟨hpos, hmp0⟩ := List.getElem?_eq_some_iff.mp (head?_eq_getElem? ▸ hmp)
    rw [idMappingBase_eq, add_assoc,
      infoTable_of_lastReaches hstrides hmod ho hnone hi hlast,
      readIdMapping_of_idMappingsAt (idMappingsAt_of_devicesAt h hi) hpos, hmp0]
  rw [readIdMapping_eq_iff hfits]
  constructor
  · intro hbytes
    refine ⟨fun o ho b hb => ?_, fun o ho hnone i d mp hlast hd hmp => ?_⟩
    · rw [← hbytes o ho, idMappingBase_eq, add_assoc, infoTable_of_storedByte hb]
    · rw [← hbytes o ho, hcopied o ho hnone i d mp hlast hd hmp]
  · rintro ⟨hstored, hkept⟩ o ho
    cases hb : storedByte a ds (k + 1 + m / 3) (16 * (m % 3) + o) with
    | some b =>
      rw [hstored o ho b hb, idMappingBase_eq, add_assoc, infoTable_of_storedByte hb]
    | none =>
      obtain ⟨i, hlast⟩ := exists_lastReaches (show Reaches ds k (k + 1 + m / 3) (m % 3) from
        ⟨ds[k], getElem?_eq_getElem hk, by omega, by omega⟩)
      obtain ⟨d, hd, -, hlt⟩ := hlast.1
      have hmp := head?_eq_some_head (ne_nil_of_length_pos (l := d.mappings) (by omega))
      rw [hcopied o ho hb i d _ hlast hd hmp, hkept o ho hb i d _ hlast hd hmp]

/-! ## A table without structures -/

variable {tbl tbl' : Mem} {entry ptr length x : Nat}

theorem copyIdMappings_below {idMapEntry : Nat} (fuel : Nat) {idMapPtr nodeLength : Nat}
    (hx : x < ptr) (hptr : ptr ≤ idMapPtr)
    (h : copyIdMappings fuel img entry idMapEntry ptr idMapPtr nodeLength tbl = some tbl') :
    tbl' x = tbl x := by
  induction fuel generalizing idMapPtr nodeLength tbl with
  | zero => cases h
  | succ fuel ih =>
    have hround : ∀ v, store (copyIdMapping img idMapEntry idMapPtr tbl) (ptr + offIdmapNum) 2 v x =
        tbl x := by
      intro v
      rw [store_outside (by omega), copyIdMapping_apply, if_neg (by omega)]
    rw [copyIdMappings] at h
    split at h
    · rw [ih (le_add_right_of_le hptr) h, hround]
    · rw [← some_inj.mp h, hround]

theorem createEntry_below (hx : x < ptr) (h : createEntry img entry length ptr tbl = some tbl') :
    tbl' x = tbl x := by
  have hout : ∀ (m : Mem) (off len v : Nat), store m (ptr + off) len v x = m x :=
    fun m off len v => store_outside (by omega)
  unfold createEntry at h
  split at h
  · rw [← some_inj.mp h]
    simp [hout]
  split at h
  · rw [copyIdMappings_below _ hx (Nat.le_add_right ptr _) h]
    simp [hout]
  split at h
  · rw [copyIdMappings_below _ hx (Nat.le_add_right ptr _) h]
    simp [hout]
  · rw [← some_inj.mp h]
    simp [hout]

theorem createEntries_count {tableLength : Nat} (fuel : Nat) (hptr : 8 ≤ ptr)
    (hcount : load tbl 0 4 + fuel < 2 ^ 32)
    (h : createEntries fuel img tableLength entry length ptr tbl = some tbl') :
    load tbl 0 4 < load tbl' 0 4 := by
  induction fuel generalizing entry length ptr tbl with
  | zero => cases h
  | succ fuel ih =>
    rw [createEntries] at h
    split at h
    · cases h
    · rename_i tbl1 hentry
      have hkeep : load tbl1 0 4 = load tbl 0 4 :=
        load_congr fun i hi => createEntry_below (by omega) hentry
      have hbump : load (store tbl1 0 4 (load tbl1 0 4 + 1)) 0 4 = load tbl 0 4 + 1 := by
        rw [load_store_self, hkeep, mod_eq_of_lt (by omega)]
      simp only at h
      split at h
      · have := ih (le_add_right_of_le hptr) (by omega) h
        omega
      · rw [← some_inj.mp h]
        omega

theorem not_faithful_nil (h : palIommuCreateInfoTable (some img) tbl = some t) :
    ¬ Faithful (some t) a [] := by
  intro hf
  have hnum : load t 0 4 = 0 := hf.num
  have hlt : rimtLength img < 2 ^ 32 := load_lt img 4 4
  have hzero : load (store tbl 0 4 0) 0 4 = 0 := by
    rw [load_store_self, zero_mod]
  have := createEntries_count (max 1 (rimtLength img)) le_rfl (by omega) h
  omega

/-! ## The condition is exact -/

theorem palIommuCreateInfoTable_faithful_iff {img : Mem} {ds : List Device} (h : RimtAt img ds)
    (tbl : Mem) :
    (∃ t, palIommuCreateInfoTable (some img) tbl = some t ∧
        Faithful (some t) (rimtDeviceOffset img) ds) ↔
      Intact (rimtDeviceOffset img) ds := by
  have he : rimtLength img < 2 ^ 32 := load_lt img 4 4
  have hat := h.devices
  constructor
  · rintro ⟨t, ht, hf⟩
    have hne : ds ≠ [] := by
      rintro rfl
      exact not_faithful_nil ht hf
    rw [palIommuCreateInfoTable_eq h hne tbl, some_inj] at ht
    subst ht
    have hstrides : ∀ d ∈ ds, d.isBinding = true → d.strides = d.mappings.length := by
      intro d hd hb
      obtain ⟨k, hk, rfl⟩ := getElem_of_mem hd
      rw [← valIommuGetIdmapNum_infoTable hat tbl hk hb, hf.idmapNum k hk hb]
    have hmap := fun k hk m hm => (mapping_infoTable_iff hat hstrides tbl hk hm).mp
      ((mapping_iff_readIdMapping _ k m _).mp (hf.mapping k hk m hm))
    exact {
      nonempty := hne
      closed := fun d hd hb => (strides_eq_iff hat hd hb).mp (hstrides d hd hb)
      stored := fun k hk m hm => (hmap k hk m hm).1
      copied := fun k hk m hm => (hmap k hk m hm).2 }
  · intro hi
    have hstrides : ∀ d ∈ ds, d.isBinding = true → d.strides = d.mappings.length :=
      fun d hd hb => (strides_eq_iff hat hd hb).mpr (hi.closed d hd hb)
    have hlen := length_le_of_devicesAt hat
    refine ⟨_, palIommuCreateInfoTable_eq h hi.nonempty tbl, {
      num := load_infoTable_header hi.nonempty (by omega)
      type := fun k hk => valIommuGetInfo_type_infoTable tbl hk
      iommu := ?_
      idmapNum := ?_
      mapping := ?_ }⟩
    · intro k hk _ _ _ _ _ hinfo
      obtain ⟨⟨-, -, -, hdev⟩, hoff⟩ := deviceAt_of_devicesAt hat hk
      rw [hinfo] at hdev
      obtain ⟨-, -, h2, h3, h4, h5⟩ := hdev
      refine ⟨load_infoTable hk ?_ (by omega),
        load_infoTable hk ?_ (h2 ▸ load_lt _ _ _), load_infoTable hk ?_ (h3 ▸ load_lt _ _ _),
        load_infoTable hk ?_ (h4 ▸ load_lt _ _ _), load_infoTable hk ?_ (h5 ▸ load_lt _ _ _)⟩ <;>
      · rw [Device.entryFields, hinfo]
        simp
    · intro k hk hb
      rw [valIommuGetIdmapNum_infoTable hat tbl hk hb, hstrides _ (getElem_mem hk) hb]
    · intro k hk m hm
      rw [mapping_iff_readIdMapping, mapping_infoTable_iff hat hstrides tbl hk hm]
      exact ⟨hi.stored k hk m hm, hi.copied k hk m hm⟩

/-! ## A platform with one IOMMU and one root complex -/

def firstMapping : IdMapping := ⟨0, 0x100, 0, 48⟩

def secondMapping : IdMapping := ⟨0x200, 0x10, 0x300, 48⟩

def oneIommu (length : Nat) (ms : List IdMapping) : List Device :=
  [⟨0, 40, .iommu 0 0x3010000 0 0 0⟩, ⟨1, length, .pcieRootComplex 0 20 ms⟩]

def oneIommuRimt (length n : Nat) : Mem :=
  storeFields (fun _ => 0) 0 [⟨4, 4, 88 + length⟩, ⟨36, 4, 2⟩, ⟨40, 4, 48⟩,
    ⟨50, 2, 40⟩, ⟨64, 8, 0x3010000⟩,
    ⟨88, 1, 1⟩, ⟨90, 2, length⟩, ⟨94, 2, 1⟩, ⟨104, 2, 20⟩, ⟨106, 2, n⟩,
    ⟨108, 4, 0⟩, ⟨112, 4, 0x100⟩, ⟨116, 4, 0⟩, ⟨120, 4, 48⟩,
    ⟨128, 4, 0x200⟩, ⟨132, 4, 0x10⟩, ⟨136, 4, 0x300⟩, ⟨140, 4, 48⟩]

theorem oneMapping_intact : Intact 48 (oneIommu 40 [firstMapping]) where
  nonempty := cons_ne_nil _ _
  closed := by decide
  stored := by
    intro k hk m hm o ho b hb
    have hk1 : k = 1 := by
      match k, hk, hm with
      | 1, _, _ => rfl
    subst hk1
    rw [storedByte, getElem?_eq_none (show 2 ≤ 1 + 1 + m / 3 by omega)] at hb
    cases hb
  copied := by
    intro k hk m hm o ho hnone i d mp hlast hd hmp
    have hk1 : k = 1 := by
      match k, hk, hm with
      | 1, _, _ => rfl
    have hi : i = 1 := by
      obtain ⟨d', hd', -, hlt⟩ := hlast.1
      match i, hd' with
      | 0, hd' =>
        cases hd'
        cases hlt
      | 1, _ => rfl
    subst hk1 hi
    cases hd
    cases hmp
    have hm0 := lt_one_iff.mp hm
    subst hm0
    rfl

theorem palIommuCreateInfoTable_oneMapping :
    RimtAt (oneIommuRimt 40 1) (oneIommu 40 [firstMapping]) ∧
      ∃ t, palIommuCreateInfoTable (some (oneIommuRimt 40 1)) (fun _ => 0) = some t ∧
        Faithful (some t) 48 (oneIommu 40 [firstMapping]) := by
  have h : RimtAt (oneIommuRimt 40 1) (oneIommu 40 [firstMapping]) :=
    ⟨by decide, by decide, by decide⟩
  exact ⟨h, (palIommuCreateInfoTable_faithful_iff h _).mpr oneMapping_intact⟩

/-- With two mappings the second one reads as a copy of the first. -/
theorem palIommuCreateInfoTable_twoMappings :
    RimtAt (oneIommuRimt 60 2) (oneIommu 60 [firstMapping, secondMapping]) ∧
      (palIommuCreateInfoTable (some (oneIommuRimt 60 2)) (fun _ => 0)).map
        (fun t => valIommuGetPciercPlatformInfo (some t) 1 1 .sourceIdBase) = some 0 ∧
      ¬ ∃ t, palIommuCreateInfoTable (some (oneIommuRimt 60 2)) (fun _ => 0) = some t ∧
        Faithful (some t) 48 (oneIommu 60 [firstMapping, secondMapping]) := by
  have hread : (palIommuCreateInfoTable (some (oneIommuRimt 60 2)) (fun _ => 0)).map
      (fun t => valIommuGetPciercPlatformInfo (some t) 1 1 .sourceIdBase) = some 0 := by
    decide +kernel
  refine ⟨⟨by decide, by decide, by decide⟩, hread, ?_⟩
  rintro ⟨t, ht, hf⟩
  rw [ht, map_some, (hf.mapping 1 (by decide) 1 (by decide)).1] at hread
  cases hread

end ServerSoc.Iommu
