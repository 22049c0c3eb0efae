/-
Which IOMMU governs a PCIe function (acs_iommu.c).

`segmentMappings` lists the ID mappings of one segment in the order of the search, which takes the
first one whose end is not below the requester id and never looks at its start.
-/
import ServerSoc.Iommu.Create
import ServerSoc.Pcie.Cfg

namespace ServerSoc.Iommu

open Memory Base Pcie List

/-- Returns the result of the source and the value `*iommu_index` has afterwards. -/
def valIommuCheckGoverningIommuOffset (g : Option Mem) (destIommuOffset iommuIndex : Nat) :
    Nat × Nat :=
  match (range (valIommuGetNum g)).find? (fun index =>
      valIommuGetInfo g index .type = typeIommu ∧
        destIommuOffset = valIommuGetInfo g index .iommuOffset) with
  | some index => (1, index)
  | none => (0, iommuIndex)

def prid (bdf : Nat) : Nat :=
  ((bdf &&& 0x00ff0000) >>> 8 ||| (bdf &&& 0x0000ff00) >>> 5 ||| (bdf &&& 0x000000ff)) % 2 ^ 16

def valIommuCheckGoverningIommu (g : Option Mem) (bdf iommuIndex : Nat) : Nat × Nat :=
  let iommuNum := valIommuGetNum g
  if g.isNone then (0, iommuIndex)
  else if iommuNum = 0 then (0, iommuIndex)
  else
    let segment := (bdf &&& 0xff000000) >>> 24
    -- the destination of the mapping at which the loops return
    let found := (range iommuNum).findSome? (fun index =>
      if valIommuGetInfo g index .type = typePcieRootComplex then
        let pcieRcSeg := valIommuGetPciercPlatformInfo g index 0 .pcieRcSeg
        let idmapNum := valIommuGetIdmapNum g index
        if pcieRcSeg ≠ segment ∨ idmapNum = 0 then none
        else (range idmapNum).findSome? (fun idmapIndex =>
          let sourceIdBase := valIommuGetPciercPlatformInfo g index idmapIndex .sourceIdBase
          let numIds := valIommuGetPciercPlatformInfo g index idmapIndex .numIds
          if prid bdf ≤ (sourceIdBase + numIds) % 2 ^ 32 then
            some (valIommuGetPciercPlatformInfo g index idmapIndex .destIommuOffset)
          else none)
      else none)
    match found with
    | some destIommuOffset => valIommuCheckGoverningIommuOffset g destIommuOffset iommuIndex
    | none => (0, iommuIndex)

/-! ## The table as mappings and IOMMUs -/

def tableMapping (g : Option Mem) (k m : Nat) : IdMapping where
  sourceIdBase := valIommuGetPciercPlatformInfo g k m .sourceIdBase
  idNumber := valIommuGetPciercPlatformInfo g k m .numIds
  destDeviceIdBase := valIommuGetPciercPlatformInfo g k m .destIdBase
  destIommuOffset := valIommuGetPciercPlatformInfo g k m .destIommuOffset

def RootComplexOf (g : Option Mem) (seg k : Nat) : Prop :=
  valIommuGetInfo g k .type = typePcieRootComplex ∧
    valIommuGetPciercPlatformInfo g k 0 .pcieRcSeg = seg

instance (g : Option Mem) (seg k : Nat) : Decidable (RootComplexOf g seg k) :=
  inferInstanceAs (Decidable (_ ∧ _))

def segmentMappings (g : Option Mem) (seg : Nat) : List IdMapping :=
  (range (valIommuGetNum g)).flatMap (fun k =>
    if RootComplexOf g seg k then (range (valIommuGetIdmapNum g k)).map (tableMapping g k)
    else [])

def IommuAt (g : Option Mem) (off j : Nat) : Prop :=
  j < valIommuGetNum g ∧ valIommuGetInfo g j .type = typeIommu ∧
    valIommuGetInfo g j .iommuOffset = off

instance (g : Option Mem) (off j : Nat) : Decidable (IommuAt g off j) :=
  inferInstanceAs (Decidable (_ ∧ _))

def IdMapping.Contains (mp : IdMapping) (rid : Nat) : Prop :=
  mp.sourceIdBase ≤ rid ∧ rid < mp.sourceIdBase + mp.idNumber

def Governs (g : Option Mem) (seg rid j : Nat) : Prop :=
  ∃ k, k < valIommuGetNum g ∧ RootComplexOf g seg k ∧ ∃ m, m < valIommuGetIdmapNum g k ∧
    (tableMapping g k m).Contains rid ∧ IommuAt g (tableMapping g k m).destIommuOffset j

structure GoverningAnswer (g : Option Mem) (seg rid idx : Nat) (r : Nat × Nat) : Prop where
  found_iff : r.1 = 1 ↔ ∃ j, Governs g seg rid j
  found : r.1 = 1 → Governs g seg rid r.2
  absent : r.1 ≠ 1 → r = (0, idx)

variable {g : Option Mem} {seg rid off j idx : Nat}

theorem mem_segmentMappings {mp : IdMapping} :
    mp ∈ segmentMappings g seg ↔ ∃ k, k < valIommuGetNum g ∧ RootComplexOf g seg k ∧
      ∃ m, m < valIommuGetIdmapNum g k ∧ tableMapping g k m = mp := by
  simp only [segmentMappings, mem_flatMap, mem_range]
  refine exists_congr fun k => and_congr_right fun _ => ?_
  by_cases hk : RootComplexOf g seg k <;> simp

theorem governs_iff :
    Governs g seg rid j ↔
      ∃ mp ∈ segmentMappings g seg, mp.Contains rid ∧ IommuAt g mp.destIommuOffset j := by
  constructor
  · rintro ⟨k, hk, hrc, m, hm, hc, hj⟩
    exact ⟨_, mem_segmentMappings.mpr ⟨k, hk, hrc, m, hm, rfl⟩, hc, hj⟩
  · rintro ⟨mp, hmp, hc, hj⟩
    obtain ⟨k, hk, hrc, m, hm, rfl⟩ := mem_segmentMappings.mp hmp
    exact ⟨k, hk, hrc, m, hm, hc, hj⟩

/-! ## What the search computes -/

theorem segment_eq (bdf : Nat) : (bdf &&& 0xff000000) >>> 24 = pcieExtractBdfSeg bdf := by
  have hmask : bdf &&& 0xff000000 = (bdf / 2 ^ 24 % 2 ^ 8) <<< 24 := and_mask bdf 8 24
  rw [pcieExtractBdfSeg_eq]
  omega

theorem prid_eq {bdf : Nat} (hd : pcieExtractBdfDev bdf < 32) (hf : pcieExtractBdfFunc bdf < 8) :
    prid bdf =
      pcieExtractBdfBus bdf * 256 + pcieExtractBdfDev bdf * 8 + pcieExtractBdfFunc bdf := by
  rw [pcieExtractBdfDev_eq] at hd
  rw [pcieExtractBdfFunc_eq] at hf
  have hbus : (bdf &&& 0x00ff0000) >>> 8 = (bdf / 2 ^ 16 % 2 ^ 8) <<< 8 := by
    rw [show bdf &&& 0x00ff0000 = (bdf / 2 ^ 16 % 2 ^ 8) <<< 16 from and_mask bdf 8 16]
    omega
  have hdev : (bdf &&& 0x0000ff00) >>> 5 = (bdf / 2 ^ 8 % 2 ^ 8) <<< 3 := by
    rw [show bdf &&& 0x0000ff00 = (bdf / 2 ^ 8 % 2 ^ 8) <<< 8 from and_mask bdf 8 8]
    omega
  have hfunc : bdf &&& 0x000000ff = bdf % 256 := and_low bdf 8
  rw [prid, hbus, hdev, hfunc, Nat.or_assoc, shiftLeft_or (show bdf % 256 < 2 ^ 3 from hf),
    shiftLeft_or (by omega), pcieExtractBdfBus_eq, pcieExtractBdfDev_eq,
    pcieExtractBdfFunc_eq]
  omega

/-- The first mapping of the segment whose 32-bit end is not below the requester. -/
def firstEndingAtOrAfter (ms : List IdMapping) (rid : Nat) : Option IdMapping :=
  ms.find? (fun mp => rid ≤ (mp.sourceIdBase + mp.idNumber) % 2 ^ 32)

theorem findSome?_ite {α β : Type} (p : α → Prop) [DecidablePred p] (f : α → β) (l : List α) :
    l.findSome? (fun x => if p x then some (f x) else none) =
      (l.find? (fun x => decide (p x))).map f := by
  rw [← findSome?_guard, map_findSome?]
  congr 1
  funext x
  by_cases hx : p x <;> simp [hx]

theorem valIommuCheckGoverningIommu_eq (g : Option Mem) (bdf idx : Nat) :
    valIommuCheckGoverningIommu g bdf idx =
      match firstEndingAtOrAfter (segmentMappings g (pcieExtractBdfSeg bdf)) (prid bdf) with
      | some mp => valIommuCheckGoverningIommuOffset g mp.destIommuOffset idx
      | none => (0, idx) := by
  have hloops : ∀ k, (if valIommuGetInfo g k .type = typePcieRootComplex then
        if valIommuGetPciercPlatformInfo g k 0 .pcieRcSeg ≠ pcieExtractBdfSeg bdf ∨
            valIommuGetIdmapNum g k = 0 then none
        else (range (valIommuGetIdmapNum g k)).findSome? (fun m =>
          if prid bdf ≤ (valIommuGetPciercPlatformInfo g k m .sourceIdBase +
              valIommuGetPciercPlatformInfo g k m .numIds) % 2 ^ 32 then
            some (valIommuGetPciercPlatformInfo g k m .destIommuOffset)
          else none)
      else none) =
      (firstEndingAtOrAfter (if RootComplexOf g (pcieExtractBdfSeg bdf) k then
        (range (valIommuGetIdmapNum g k)).map (tableMapping g k) else [])
        (prid bdf)).map IdMapping.destIommuOffset := by
    intro k
    by_cases hrc : RootComplexOf g (pcieExtractBdfSeg bdf) k
    · rw [if_pos hrc, if_pos hrc.1, findSome?_ite, firstEndingAtOrAfter, find?_map,
        Option.map_map]
      by_cases hz : valIommuGetIdmapNum g k = 0
      · rw [if_pos (.inr hz), hz]
        rfl
      · rw [if_neg (by simp [hrc.2, hz])]
        rfl
    · rw [if_neg hrc]
      by_cases ht : valIommuGetInfo g k .type = typePcieRootComplex
      · rw [if_pos ht, if_pos (.inl (fun hs => hrc ⟨ht, hs⟩))]
        rfl
      · rw [if_neg ht]
        rfl
  have hfound : (range (valIommuGetNum g)).findSome? (fun k =>
      (firstEndingAtOrAfter (if RootComplexOf g (pcieExtractBdfSeg bdf) k then
        (range (valIommuGetIdmapNum g k)).map (tableMapping g k) else [])
        (prid bdf)).map IdMapping.destIommuOffset) =
      (firstEndingAtOrAfter (segmentMappings g (pcieExtractBdfSeg bdf)) (prid bdf)).map
        IdMapping.destIommuOffset := by
    rw [firstEndingAtOrAfter, segmentMappings, find?_flatMap, map_findSome?]
    rfl
  simp only [valIommuCheckGoverningIommu, segment_eq, hloops, hfound]
  by_cases hnum : valIommuGetNum g = 0
  · have hnil : segmentMappings g (pcieExtractBdfSeg bdf) = [] := by
      rw [segmentMappings, hnum]
      rfl
    simp [hnil, firstEndingAtOrAfter]
  · have hsome : g.isNone = false := by
      cases g with
      | none => exact absurd rfl hnum
      | some t => rfl
    rw [hsome, if_neg hnum]
    cases firstEndingAtOrAfter (segmentMappings g (pcieExtractBdfSeg bdf)) (prid bdf) <;> rfl

def findIommu (g : Option Mem) (off : Nat) : Option Nat :=
  (range (valIommuGetNum g)).find? (fun index =>
    valIommuGetInfo g index .type = typeIommu ∧ off = valIommuGetInfo g index .iommuOffset)

theorem findIommu_some (h : findIommu g off = some j) : IommuAt g off j := by
  have hmem := mem_range.mp (mem_of_find?_eq_some h)
  have hp := find?_some h
  simp only [Bool.decide_and, Bool.and_eq_true, decide_eq_true_eq] at hp
  exact ⟨hmem, hp.1, hp.2.symm⟩

theorem findIommu_none (h : findIommu g off = none) (j : Nat) : ¬ IommuAt g off j := by
  intro hj
  rw [findIommu, find?_eq_none] at h
  exact h j (mem_range.mpr hj.1) (by simp [hj.2.1, hj.2.2])

theorem valIommuCheckGoverningIommuOffset_cases (g : Option Mem) (off idx : Nat) :
    (∃ j, IommuAt g off j ∧ valIommuCheckGoverningIommuOffset g off idx = (1, j)) ∨
      ((∀ j, ¬ IommuAt g off j) ∧ valIommuCheckGoverningIommuOffset g off idx = (0, idx)) := by
  have hrun : valIommuCheckGoverningIommuOffset g off idx =
      match findIommu g off with
      | some j => (1, j)
      | none => (0, idx) := rfl
  cases hfind : findIommu g off with
  | some j => exact .inl ⟨j, findIommu_some hfind, by rw [hrun, hfind]⟩
  | none => exact .inr ⟨findIommu_none hfind, by rw [hrun, hfind]⟩

/-! ## When the answer is right -/

/-- The search stops at the first mapping of the segment that ends at or after the
requester.  It is led right when that mapping and some mapping that contains the
requester share an IOMMU, or when neither it nor any containing mapping has one. -/
def LedRight (g : Option Mem) (seg rid : Nat) : Prop :=
  (∃ c, firstEndingAtOrAfter (segmentMappings g seg) rid = some c ∧
    (∃ j, IommuAt g c.destIommuOffset j) ∧
    ∃ mp ∈ segmentMappings g seg, mp.Contains rid ∧ mp.destIommuOffset = c.destIommuOffset) ∨
  ((∀ c, firstEndingAtOrAfter (segmentMappings g seg) rid = some c →
    ∀ j, ¬ IommuAt g c.destIommuOffset j) ∧
    ∀ mp ∈ segmentMappings g seg, mp.Contains rid → ∀ j, ¬ IommuAt g mp.destIommuOffset j)

theorem governingAnswer_found_iff (hj : IommuAt g off j) :
    GoverningAnswer g seg rid idx (1, j) ↔
      ∃ mp ∈ segmentMappings g seg, mp.Contains rid ∧ mp.destIommuOffset = off := by
  constructor
  · intro h
    obtain ⟨mp, hmp, hc, hmj⟩ := governs_iff.mp (h.found rfl)
    exact ⟨mp, hmp, hc, hmj.2.2.symm.trans hj.2.2⟩
  · rintro ⟨mp, hmp, hc, rfl⟩
    have hgov : Governs g seg rid j := governs_iff.mpr ⟨mp, hmp, hc, hj⟩
    exact ⟨⟨fun _ => ⟨j, hgov⟩, fun _ => rfl⟩, fun _ => hgov, fun h => absurd rfl h⟩

theorem governingAnswer_absent_iff :
    GoverningAnswer g seg rid idx (0, idx) ↔
      ∀ mp ∈ segmentMappings g seg, mp.Contains rid → ∀ j, ¬ IommuAt g mp.destIommuOffset j := by
  constructor
  · intro h mp hmp hc j hj
    have := h.found_iff.mpr ⟨j, governs_iff.mpr ⟨mp, hmp, hc, hj⟩⟩
    cases this
  · intro h
    refine ⟨⟨fun h01 => absurd h01 Nat.zero_ne_one, ?_⟩, fun h01 => absurd h01 Nat.zero_ne_one,
      fun _ => rfl⟩
    rintro ⟨j, hgov⟩
    obtain ⟨mp, hmp, hc, hj⟩ := governs_iff.mp hgov
    exact absurd hj (h mp hmp hc j)

theorem valIommuCheckGoverningIommu_answer_iff (g : Option Mem) {bdf : Nat} (idx : Nat)
    (hdev : pcieExtractBdfDev bdf < 32) (hfunc : pcieExtractBdfFunc bdf < 8) :
    GoverningAnswer g (pcieExtractBdfSeg bdf)
        (pcieExtractBdfBus bdf * 256 + pcieExtractBdfDev bdf * 8 + pcieExtractBdfFunc bdf) idx
        (valIommuCheckGoverningIommu g bdf idx) ↔
      LedRight g (pcieExtractBdfSeg bdf)
        (pcieExtractBdfBus bdf * 256 + pcieExtractBdfDev bdf * 8 + pcieExtractBdfFunc bdf) := by
  rw [valIommuCheckGoverningIommu_eq g bdf idx, prid_eq hdev hfunc]
  generalize pcieExtractBdfSeg bdf = seg
  generalize pcieExtractBdfBus bdf * 256 + pcieExtractBdfDev bdf * 8 + pcieExtractBdfFunc bdf = rid
  cases hc : firstEndingAtOrAfter (segmentMappings g seg) rid with
  | none =>
    simp only [governingAnswer_absent_iff, LedRight, hc]
    simp
  | some c =>
    simp only
    rcases valIommuCheckGoverningIommuOffset_cases g c.destIommuOffset idx with
      ⟨j, hj, hrun⟩ | ⟨hno, hrun⟩
    · rw [hrun, governingAnswer_found_iff hj, LedRight, hc]
      constructor
      · intro hmp
        exact .inl ⟨c, rfl, ⟨j, hj⟩, hmp⟩
      · rintro (⟨c', hc', -, hmp⟩ | ⟨hnone, -⟩)
        · cases hc'
          exact hmp
        · exact absurd hj (hnone c rfl j)
    · rw [hrun, governingAnswer_absent_iff, LedRight, hc]
      constructor
      · intro hmp
        refine .inr ⟨?_, hmp⟩
        rintro c' hc'
        cases hc'
        exact hno
      · rintro (⟨c', hc', ⟨j, hj⟩, -⟩ | ⟨-, hmp⟩)
        · cases hc'
          exact absurd hj (hno j)
        · exact hmp

/-! ## One mapping for the second bus -/

/-- An IOMMU at offset 48 and a root complex of segment 0 that sends the requester ids
0x100 to 0x1ff to it. -/
def secondBusTable : Mem :=
  storeFields (fun _ => 0) 0 [⟨0, 4, 2⟩, ⟨entryBase 0 + offIommuOffset, 4, 48⟩,
    ⟨entryBase 1 + offType, 1, typePcieRootComplex⟩, ⟨entryBase 1 + offIdmapNum, 2, 1⟩,
    ⟨idMappingBase 1 0, 4, 0x100⟩, ⟨idMappingBase 1 0 + 4, 4, 0x100⟩,
    ⟨idMappingBase 1 0 + 12, 4, 48⟩]

theorem valIommuCheckGoverningIommu_secondBus :
    GoverningAnswer (some secondBusTable) 0 0x100 7
      (valIommuCheckGoverningIommu (some secondBusTable) (pcieCreateBdf 0 1 0 0) 7) := by
  have hdev : pcieExtractBdfDev (pcieCreateBdf 0 1 0 0) < 32 := by decide
  have hfunc : pcieExtractBdfFunc (pcieCreateBdf 0 1 0 0) < 8 := by decide
  refine (valIommuCheckGoverningIommu_answer_iff (some secondBusTable) 7 hdev hfunc).mpr
    (.inl ⟨⟨0x100, 0x100, 0, 48⟩, by decide, ⟨0, by decide⟩, ?_⟩)
  exact ⟨_, by decide, ⟨by decide, by decide⟩, rfl⟩

/-- Requester 0 lies below the only mapping and is reported as governed. -/
theorem valIommuCheckGoverningIommu_firstBus :
    valIommuCheckGoverningIommu (some secondBusTable) (pcieCreateBdf 0 0 0 0) 7 = (1, 0) ∧
      (¬ ∃ j, Governs (some secondBusTable) 0 0 j) ∧
      ¬ GoverningAnswer (some secondBusTable) 0 0 7
        (valIommuCheckGoverningIommu (some secondBusTable) (pcieCreateBdf 0 0 0 0) 7) := by
  have hrun : valIommuCheckGoverningIommu (some secondBusTable) (pcieCreateBdf 0 0 0 0) 7 =
      (1, 0) := by
    decide
  have hno : ¬ ∃ j, Governs (some secondBusTable) 0 0 j := by
    rintro ⟨j, hj⟩
    obtain ⟨mp, hmp, hc, -⟩ := governs_iff.mp hj
    rw [show segmentMappings (some secondBusTable) 0 = [⟨0x100, 0x100, 0, 48⟩] by decide,
      mem_singleton] at hmp
    subst hmp
    exact absurd hc.1 (by decide)
  refine ⟨hrun, hno, fun h => hno (h.found_iff.mp ?_)⟩
  rw [hrun]

end ServerSoc.Iommu
