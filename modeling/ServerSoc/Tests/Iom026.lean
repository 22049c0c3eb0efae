/-
Test iom026: an IOMMU that governs root complexes of two segments needs a 3-level device directory
(test_os_iom026.c).

The payload marks the IOMMU it found under the index the collecting loop ended with, and its last
write replaces any FAIL.
-/
import Mathlib.Data.List.Induction
import ServerSoc.Base.Fold
import ServerSoc.Iommu.Governing
import ServerSoc.Val.Status

namespace ServerSoc.Tests.Iom026

open Memory Base Iommu Val Function List

def testNum : Nat := 1200 + 26

def iommuMapMax : Nat := 30

structure IommuMap where
  iommuIndex : Nat
  pciercIndex : Nat
  pciercSeg : Nat
  deriving DecidableEq, Repr

structure Locals where
  iommuIndex : Nat
  mapIndex : Nat
  iommuMap : Nat → IommuMap

def checkIommuDdtpLevel (bus : RegBus) (g : Option Mem) (iommuIndex : Nat) : Nat :=
  if valIommuGetNum g ≤ iommuIndex then 0
  else
    let regDdtp := valIommuReadIommuReg bus g iommuIndex riscvIommuRegDdtp 2
    if regDdtp &&& riscvIommuDdtpLvlMsk ≠ riscvIommuDdtpLvl3 then 0 else 1

def checkGoverningIommu (g : Option Mem) (destIommuOffset iommuIndex : Nat) : Nat × Nat :=
  valIommuCheckGoverningIommuOffset g destIommuOffset iommuIndex

def mapIdMapping (g : Option Mem) (index : Nat) (s : Locals) (idmapIndex : Nat) : Locals :=
  let iommuOffset := valIommuGetPciercPlatformInfo g index idmapIndex .destIommuOffset
  let ret := checkGoverningIommu g iommuOffset s.iommuIndex
  let s := { s with iommuIndex := ret.2 }
  if ret.1 = 1 then
    if s.iommuIndex < valIommuGetNum g ∧ s.mapIndex < iommuMapMax then
      { s with
        mapIndex := s.mapIndex + 1
        iommuMap := update s.iommuMap s.mapIndex
          ⟨s.iommuIndex, index, valIommuGetPciercPlatformInfo g index 0 .pcieRcSeg⟩ }
    else s
  else s

/-- `idmap_num` is a `uint8_t`. -/
def mapRootComplex (g : Option Mem) (s : Locals) (index : Nat) : Locals :=
  if valIommuGetInfo g index .type = typePcieRootComplex then
    (range (valIommuGetIdmapNum g index % 2 ^ 8)).foldl (mapIdMapping g index) s
  else s

def clash (map : Nat → IommuMap) (index index1 : Nat) : Bool :=
  (map index).iommuIndex ≠ 0xff ∧ (map index).iommuIndex = (map index1).iommuIndex ∧
    (map index).pciercSeg ≠ (map index1).pciercSeg

def markMulti (s : Locals) (multi : Nat → Nat) : Nat → Nat :=
  (range (iommuMapMax - 1)).foldl (fun multi index =>
    (range' (index + 1) (iommuMapMax - (index + 1))).foldl (fun multi index1 =>
      if clash s.iommuMap index index1 then update multi s.iommuIndex 1 else multi)
      multi) multi

def checkMulti (bus : RegBus) (g : Option Mem) (multi : Nat → Nat) (r : Nat × Nat) (index : Nat) :
    Nat × Nat :=
  if multi index = 1 then
    let ret := checkIommuDdtpLevel bus g index
    (ret, if ret = 0 then resultFail testNum 1 else r.2)
  else r

/-- The status word of the hart after the payload.  `uninit` is what the stack holds
and `status` the word before. -/
def payload (bus : RegBus) (g : Option Mem) (uninit : Locals) (status : Nat) : Nat :=
  let iommuNum := valIommuGetNum g
  let s : Locals := { uninit with
    mapIndex := 0
    iommuMap := fun index => { uninit.iommuMap index with iommuIndex := 0xff } }
  let s := (range iommuNum).foldl (mapRootComplex g) s
  let multi := markMulti s (fun _ => 0xff)
  let r := (range iommuNum).foldl (checkMulti bus g multi) (0xff, status)
  if r.1 = 1 then resultPass testNum 1 else resultSkip testNum 1

/-! ## What the payload sees -/

def resolved (g : Option Mem) : List IommuMap :=
  (range (valIommuGetNum g)).flatMap (fun k =>
    if valIommuGetInfo g k .type = typePcieRootComplex then
      (range (valIommuGetIdmapNum g k % 2 ^ 8)).filterMap (fun m =>
        (findIommu g (tableMapping g k m).destIommuOffset).map (fun j =>
          ⟨j, k, valIommuGetPciercPlatformInfo g k 0 .pcieRcSeg⟩))
    else [])

def Locals.push (s : Locals) (e : IommuMap) : Locals :=
  if s.mapIndex < iommuMapMax then
    ⟨e.iommuIndex, s.mapIndex + 1, update s.iommuMap s.mapIndex e⟩
  else { s with iommuIndex := e.iommuIndex }

theorem mapIdMapping_eq (g : Option Mem) (k : Nat) (s : Locals) (m : Nat) :
    mapIdMapping g k s m =
      match findIommu g (tableMapping g k m).destIommuOffset with
      | some j => s.push ⟨j, k, valIommuGetPciercPlatformInfo g k 0 .pcieRcSeg⟩ | none => s := by
  have hcheck : checkGoverningIommu g
      (valIommuGetPciercPlatformInfo g k m .destIommuOffset) s.iommuIndex =
      match findIommu g (tableMapping g k m).destIommuOffset with
      | some j => (1, j)
      | none => (0, s.iommuIndex) := rfl
  cases hfind : findIommu g (tableMapping g k m).destIommuOffset with
  | none =>
    rw [hfind] at hcheck
    simp [mapIdMapping, hcheck]
  | some j =>
    rw [hfind] at hcheck
    have hj := (findIommu_some hfind).1
    by_cases hm : s.mapIndex < iommuMapMax
    · simp [mapIdMapping, Locals.push, hcheck, hj]
    · simp [mapIdMapping, Locals.push, hcheck, hm]

theorem foldl_mapRootComplex (g : Option Mem) (s : Locals) :
    (range (valIommuGetNum g)).foldl (mapRootComplex g) s = (resolved g).foldl Locals.push s := by
  rw [resolved, foldl_flatMap]
  congr 1
  funext s k
  unfold mapRootComplex
  split_ifs with hk
  · rw [foldl_filterMap]
    congr 1
    funext s m
    rw [mapIdMapping_eq]
    cases findIommu g (tableMapping g k m).destIommuOffset <;> rfl
  · rfl

theorem foldl_push (R : List IommuMap) (s : Locals) (hs : s.mapIndex = 0) :
    (R.foldl Locals.push s).mapIndex = min R.length iommuMapMax ∧
    (R.foldl Locals.push s).iommuIndex = (R.getLast?.map IommuMap.iommuIndex).getD s.iommuIndex ∧
    ∀ i, (R.foldl Locals.push s).iommuMap i = (R.take iommuMapMax)[i]?.getD (s.iommuMap i) := by
  induction R using reverseRecOn with
  | nil => simp [hs]
  | append_singleton R e ih =>
    obtain ⟨hidx, -, hmap⟩ := ih
    rw [foldl_append, foldl_cons, foldl_nil]
    generalize R.foldl Locals.push s = s' at hidx hmap ⊢
    by_cases hlt : R.length < iommuMapMax
    · have hidx' : s'.mapIndex = R.length := by omega
      have hpush : s'.push e = ⟨e.iommuIndex, R.length + 1,
          update s'.iommuMap R.length e⟩ := by
        rw [Locals.push, hidx', if_pos hlt]
      rw [hpush, take_of_length_le (by simp; omega)]
      refine ⟨by simp; omega, by simp, fun i => ?_⟩
      show update s'.iommuMap R.length e i = _
      by_cases hi : i = R.length
      · subst hi
        simp
      · rw [update_of_ne hi, hmap i, take_of_length_le (by omega)]
        by_cases hi' : i < R.length
        · rw [getElem?_append_left hi']
        · rw [getElem?_eq_none (by omega), getElem?_eq_none (by simp; omega)]
    · have hpush : s'.push e = { s' with iommuIndex := e.iommuIndex } := by
        rw [Locals.push, if_neg (by omega)]
      rw [hpush]
      refine ⟨by simp; omega, by simp, fun i => ?_⟩
      rw [hmap i, take_append_of_le_length (by omega)]

def Seen (g : Option Mem) : Prop :=
  ∃ e ∈ (resolved g).take iommuMapMax, ∃ e' ∈ (resolved g).take iommuMapMax,
    e.iommuIndex ≠ 0xff ∧ e.iommuIndex = e'.iommuIndex ∧ e.pciercSeg ≠ e'.pciercSeg

theorem markMulti_eq (s : Locals) (multi : Nat → Nat) :
    markMulti s multi =
      if (range (iommuMapMax - 1)).any (fun index =>
        (range' (index + 1) (iommuMapMax - (index + 1))).any (clash s.iommuMap index))
      then update multi s.iommuIndex 1 else multi := by
  unfold markMulti
  simp [foldl_ite_any (f := fun multi : Nat → Nat => update multi s.iommuIndex 1)
    (fun multi => update_idem 1 1 multi)]

theorem any_clash_iff (R : List IommuMap) (s : Locals) (hs : ∀ i, (s.iommuMap i).iommuIndex = 0xff)
    (map : Nat → IommuMap) (hmap : ∀ i, map i = (R.take iommuMapMax)[i]?.getD (s.iommuMap i)) :
    (range (iommuMapMax - 1)).any (fun index =>
        (range' (index + 1) (iommuMapMax - (index + 1))).any (clash map index)) = true ↔
      ∃ e ∈ R.take iommuMapMax, ∃ e' ∈ R.take iommuMapMax,
        e.iommuIndex ≠ 0xff ∧ e.iommuIndex = e'.iommuIndex ∧ e.pciercSeg ≠ e'.pciercSeg := by
  have hin : ∀ i, (map i).iommuIndex ≠ 0xff → map i ∈ R.take iommuMapMax := by
    intro i hi
    rw [hmap i] at hi ⊢
    cases hget : (R.take iommuMapMax)[i]? with
    | none =>
      rw [hget] at hi
      exact absurd (hs i) hi
    | some e => exact mem_of_getElem? hget
  have hout : ∀ e ∈ R.take iommuMapMax, ∃ i, i < iommuMapMax ∧ map i = e := by
    intro e he
    obtain ⟨i, hi, rfl⟩ := getElem_of_mem he
    refine ⟨i, by simp at hi; omega, ?_⟩
    rw [hmap i, getElem?_eq_getElem hi, Option.getD_some]
  simp only [any_eq_true, mem_range, mem_range'_1, clash, decide_eq_true_eq]
  constructor
  · rintro ⟨i, hi, j, hj, hne, heq, hseg⟩
    exact ⟨map i, hin i hne, map j, hin j (heq ▸ hne), hne, heq, hseg⟩
  · rintro ⟨e, he, e', he', hne, heq, hseg⟩
    obtain ⟨i, hi, rfl⟩ := hout e he
    obtain ⟨j, hj, rfl⟩ := hout e' he'
    -- the loops only look at ordered pairs
    rcases Nat.lt_trichotomy i j with hij | rfl | hij
    · exact ⟨i, by omega, j, by omega, hne, heq, hseg⟩
    · exact absurd rfl hseg
    · exact ⟨j, by omega, i, by omega, heq ▸ hne, heq.symm, hseg.symm⟩

/-! ## The verdict -/

def ThreeLevel (bus : RegBus) (g : Option Mem) (j : Nat) : Prop :=
  ddtpMode bus g j = riscvIommuDdtpLvl3

instance (bus : RegBus) (g : Option Mem) (j : Nat) : Decidable (ThreeLevel bus g j) :=
  inferInstanceAs (Decidable (_ = _))

variable {g : Option Mem} {bus : RegBus} {e : IommuMap}

theorem checkIommuDdtpLevel_eq {j : Nat} (hj : j < valIommuGetNum g) :
    checkIommuDdtpLevel bus g j = if ThreeLevel bus g j then 1 else 0 := by
  rw [checkIommuDdtpLevel, if_neg (by omega)]
  split_ifs with h
  · exact if_neg fun hne => hne h
  · exact if_pos h

theorem resolved_lt (he : e ∈ resolved g) : e.iommuIndex < valIommuGetNum g := by
  simp only [resolved, mem_flatMap] at he
  obtain ⟨k, -, he⟩ := he
  split at he
  · obtain ⟨m, -, hm⟩ := mem_filterMap.mp he
    obtain ⟨j, hj, rfl⟩ := Option.map_eq_some_iff.mp hm
    exact (findIommu_some hj).1
  · exact absurd he not_mem_nil

open Classical in
/-- All the payload reports: PASS when it saw a pair and the IOMMU of the last mapping
has three levels, and SKIP otherwise. -/
theorem payload_eq (bus : RegBus) (g : Option Mem) (uninit : Locals) (status : Nat) :
    payload bus g uninit status =
      if Seen g ∧ ∃ e, (resolved g).getLast? = some e ∧ ThreeLevel bus g e.iommuIndex
      then resultPass testNum 1 else resultSkip testNum 1 := by
  let s0 : Locals := { uninit with
    mapIndex := 0
    iommuMap := fun index => { uninit.iommuMap index with iommuIndex := 0xff } }
  let s := (resolved g).foldl Locals.push s0
  obtain ⟨-, hindex, hmap⟩ := foldl_push (resolved g) s0 rfl
  have hpay : payload bus g uninit status =
      if ((range (valIommuGetNum g)).foldl
        (checkMulti bus g (markMulti s (fun _ => 0xff))) (0xff, status)).1 = 1
      then resultPass testNum 1 else resultSkip testNum 1 := by
    show (if ((range (valIommuGetNum g)).foldl (checkMulti bus g (markMulti
      ((range (valIommuGetNum g)).foldl (mapRootComplex g) s0) _)) _).1 = 1 then _ else _) = _
    rw [foldl_mapRootComplex]
  rw [hpay, markMulti_eq]
  have hany := any_clash_iff (resolved g) s0 (fun _ => rfl) s.iommuMap hmap
  by_cases hseen : Seen g
  · rw [if_pos (hany.mpr hseen)]
    have hne : resolved g ≠ [] := by
      obtain ⟨e, he, -⟩ := hseen
      exact ne_nil_of_mem (mem_of_mem_take he)
    obtain ⟨e, hlast⟩ : ∃ e, (resolved g).getLast? = some e :=
      ⟨_, getLast?_eq_some_getLast hne⟩
    have hidx : s.iommuIndex = e.iommuIndex := by
      rw [hindex, hlast]
      rfl
    have hlt := resolved_lt (mem_of_getLast? hlast)
    have hskip : ∀ y ∈ range (valIommuGetNum g), y ≠ e.iommuIndex → ∀ r,
        checkMulti bus g (update (fun _ => 0xff) e.iommuIndex 1) r y = r := by
      intro y _ hy r
      rw [checkMulti, update_of_ne hy, if_neg (by decide)]
    rw [hidx, foldl_only (mem_range.mpr hlt) nodup_range hskip]
    simp only [checkMulti, checkIommuDdtpLevel_eq hlt]
    by_cases h3 : ThreeLevel bus g e.iommuIndex
    · simp [hseen, hlast]
    · simp [h3, hlast]
  · have hskip : ∀ y ∈ range (valIommuGetNum g), ∀ r,
        checkMulti bus g (fun _ => 0xff) r y = r := fun y _ r =>
          if_neg (show ¬ (0xff : Nat) = 1 by decide)
    rw [if_neg (fun h => hseen (hany.mp h)), foldl_of_id hskip]
    simp [hseen]

/-! ## What the test is meant to say -/

def GovernsSegment (g : Option Mem) (j seg : Nat) : Prop :=
  ∃ k, k < valIommuGetNum g ∧ RootComplexOf g seg k ∧ ∃ m, m < valIommuGetIdmapNum g k ∧
    IommuAt g (tableMapping g k m).destIommuOffset j

def MultiSegment (g : Option Mem) (j : Nat) : Prop :=
  ∃ seg seg', seg ≠ seg' ∧ GovernsSegment g j seg ∧ GovernsSegment g j seg'

structure SoundComplete (bus : RegBus) (g : Option Mem) (status : Nat) : Prop where
  fail : isTestFail status = true ↔ ∃ j, MultiSegment g j ∧ ¬ ThreeLevel bus g j
  skip : isTestSkip status = true ↔ ¬ ∃ j, MultiSegment g j
  pass : isTestPass status = true ↔
    (∃ j, MultiSegment g j) ∧ ∀ j, MultiSegment g j → ThreeLevel bus g j

theorem governsSegment_of_mem_resolved (he : e ∈ resolved g) :
    GovernsSegment g e.iommuIndex e.pciercSeg := by
  simp only [resolved, mem_flatMap, mem_range] at he
  obtain ⟨k, hk, he⟩ := he
  split_ifs at he with hrc
  · obtain ⟨m, hm, hmap⟩ := mem_filterMap.mp he
    obtain ⟨j, hj, rfl⟩ := Option.map_eq_some_iff.mp hmap
    have hlt : m < valIommuGetIdmapNum g k := (mem_range.mp hm).trans_le (Nat.mod_le _ _)
    exact ⟨k, hk, ⟨hrc, rfl⟩, m, hlt, findIommu_some hj⟩
  · exact absurd he not_mem_nil

theorem multiSegment_of_seen (h : Seen g) : ∃ j, MultiSegment g j := by
  obtain ⟨e, he, e', he', -, heq, hseg⟩ := h
  refine ⟨e.iommuIndex, e.pciercSeg, e'.pciercSeg, hseg, ?_, ?_⟩
  · exact governsSegment_of_mem_resolved (mem_of_mem_take he)
  · rw [heq]
    exact governsSegment_of_mem_resolved (mem_of_mem_take he')

theorem soundComplete_pass_iff (hex : ∃ j, MultiSegment g j) :
    SoundComplete bus g (resultPass testNum 1) ↔ ∀ j, MultiSegment g j → ThreeLevel bus g j := by
  constructor
  · intro h
    exact (h.pass.mp (by decide)).2
  · intro hall
    refine ⟨⟨fun h => absurd h (by decide), ?_⟩, ⟨fun h => absurd h (by decide), ?_⟩,
      ⟨fun _ => ⟨hex, hall⟩, fun _ => by decide⟩⟩
    · rintro ⟨j, hj, hno⟩
      exact absurd (hall j hj) hno
    · intro hno
      exact absurd hex hno

theorem soundComplete_skip_iff :
    SoundComplete bus g (resultSkip testNum 1) ↔ ¬ ∃ j, MultiSegment g j := by
  constructor
  · intro h
    exact h.skip.mp (by decide)
  · intro hno
    refine ⟨⟨fun h => absurd h (by decide), ?_⟩, ⟨fun _ => hno, fun _ => by decide⟩,
      ⟨fun h => absurd h (by decide), ?_⟩⟩
    · rintro ⟨j, hj, -⟩
      exact absurd ⟨j, hj⟩ hno
    · rintro ⟨hex, -⟩
      exact absurd hex hno

/-- The payload is right on a platform where no IOMMU has two segments.  Where one has,
all of these must have three levels, the pair must be among the mappings the payload
keeps, and the IOMMU of the last mapping must have three levels too. -/
theorem payload_soundComplete_iff (bus : RegBus) (g : Option Mem) (uninit : Locals)
    (status : Nat) :
    SoundComplete bus g (payload bus g uninit status) ↔
      (¬ ∃ j, MultiSegment g j) ∨
      ((∀ j, MultiSegment g j → ThreeLevel bus g j) ∧ Seen g ∧
        ∃ e, (resolved g).getLast? = some e ∧ ThreeLevel bus g e.iommuIndex) := by
  rw [payload_eq]
  by_cases h : Seen g ∧ ∃ e, (resolved g).getLast? = some e ∧ ThreeLevel bus g e.iommuIndex
  · have hex := multiSegment_of_seen h.1
    rw [if_pos h, soundComplete_pass_iff hex]
    constructor
    · intro hall
      exact .inr ⟨hall, h⟩
    · rintro (hno | ⟨hall, -⟩)
      · exact absurd hex hno
      · exact hall
  · rw [if_neg h, soundComplete_skip_iff]
    constructor
    · exact .inl
    · rintro (hno | ⟨-, hseen⟩)
      · exact hno
      · exact absurd hseen h

/-! ## Two segments behind a 1-level directory -/

def twoSegmentTable : Mem :=
  storeFields (fun _ => 0) 0 [⟨0, 4, 3⟩, ⟨entryBase 0 + offIommuOffset, 4, 48⟩,
    ⟨entryBase 1 + offType, 1, typePcieRootComplex⟩, ⟨entryBase 1 + offIdmapNum, 2, 1⟩,
    ⟨idMappingBase 1 0 + 12, 4, 48⟩,
    ⟨entryBase 2 + offType, 1, typePcieRootComplex⟩, ⟨entryBase 2 + offIdmapNum, 2, 1⟩,
    ⟨entryBase 2 + offPcieRcSeg, 2, 1⟩, ⟨idMappingBase 2 0 + 12, 4, 48⟩]

def oneLevelBus : RegBus := ⟨fun _ => 2, fun _ => 2, fun _ => 0, fun _ _ => 0⟩

/-- The IOMMU fails the check and the test reports SKIP. -/
theorem payload_twoSegments :
    MultiSegment (some twoSegmentTable) 0 ∧ ¬ ThreeLevel oneLevelBus (some twoSegmentTable) 0 ∧
      payload oneLevelBus (some twoSegmentTable) ⟨0, 0, fun _ => ⟨0, 0, 0⟩⟩
        (resultPending testNum) = resultSkip testNum 1 ∧
      ¬ SoundComplete oneLevelBus (some twoSegmentTable)
        (payload oneLevelBus (some twoSegmentTable) ⟨0, 0, fun _ => ⟨0, 0, 0⟩⟩
          (resultPending testNum)) := by
  have hmulti : MultiSegment (some twoSegmentTable) 0 :=
    ⟨0, 1, by decide, ⟨1, by decide, by decide, 0, by decide, by decide⟩,
      ⟨2, by decide, by decide, 0, by decide, by decide⟩⟩
  have hno : ¬ ThreeLevel oneLevelBus (some twoSegmentTable) 0 := by decide
  have hrun : payload oneLevelBus (some twoSegmentTable) ⟨0, 0, fun _ => ⟨0, 0, 0⟩⟩
      (resultPending testNum) = resultSkip testNum 1 := by
    rw [payload_eq, if_neg]
    rintro ⟨-, e, hlast, h3⟩
    cases hlast
    exact hno h3
  refine ⟨hmulti, hno, hrun, fun h => ?_⟩
  rw [hrun, soundComplete_skip_iff] at h
  exact h ⟨0, hmulti⟩

end ServerSoc.Tests.Iom026
