/-
The walks of the capability lists: val_pcie_find_capability (acs_pcie.c), pal_is_bdf_exerciser and
pal_exerciser_find_pcie_capability (pal_uefi_acpi/src/pal_exerciser.c) and check_pcie_cfg_space of
test p021 (test_os_p021.c).

None counts its steps, so each ends for every id exactly when the list it reads does.  Only the
search of the first list in val_pcie_find_capability looks whether the function answers.
-/
import ServerSoc.Pcie.Capability

namespace ServerSoc.Pcie

open Base Option

/-! ## The exerciser -/

/-- A register as the exerciser layer reads it: always in the window of the first MCFG
entry, of which `ecam` is the base. -/
def exerciserWord (ecam : Nat) (rd : MmioRead) (bdf offset : Nat) : Nat :=
  rd .uint32 (cfgAddress ecam (pcieExtractBdfBus bdf) (pcieExtractBdfDev bdf)
    (pcieExtractBdfFunc bdf) offset) % 2 ^ 32

/-- The loop of `pal_exerciser_find_pcie_capability`.  The result is the return value and
`*Offset`. -/
def searchExerciser (word : Nat → Nat) (id idMask ptrMask ptrOffset : Nat) :
    Nat → Nat → Nat → Option (Nat × Nat)
  | 0, _, _ => none
  | fuel + 1, nxtPtr, offset =>
    if nxtPtr = 0 then some (1, offset)
    else
      let data := word nxtPtr
      let tempId := data &&& idMask
      if tempId = id then some (0, nxtPtr)
      else searchExerciser word id idMask ptrMask ptrOffset fuel
        ((data >>> ptrOffset) &&& ptrMask) offset

def palExerciserFindPcieCapability (fuel ecam : Nat) (rd : MmioRead) (id bdf value offset : Nat) :
    Option (Nat × Nat) :=
  if value = 1 then
    searchExerciser (exerciserWord ecam rd bdf) id 0xffff 0x0fff 20 fuel 0x100 offset
  else
    searchExerciser (exerciserWord ecam rd bdf) id 0x00ff 0x00ff 8 fuel
      (exerciserWord ecam rd bdf 0x34 &&& 0x00ff) offset

/-! ## Test p021 -/

def capIdEnd : CidType → Nat
  | .pcieEcap => 0x34
  | _ => 0x15

/-- The two loops of `check_pcie_cfg_space`.  The result is `reg_value` and `err`. -/
def checkCapabilityIds (t : Option (List PcieInfoBlock)) (rd : MmioRead) (bdf : Nat)
    (k : CidType) : Nat → Nat → Nat → Nat → Option (Nat × Nat)
  | 0, _, _, _ => none
  | fuel + 1, nextCap, regValue, err =>
    if nextCap = 0 then some (regValue, err)
    else
      let regValue := (valPcieReadCfg t rd bdf nextCap).getD regValue
      let err := if capIdEnd k < k.cid regValue then 1 else err
      checkCapabilityIds t rd bdf k fuel (k.nextCapOffset regValue) regValue err

/-- Bits 7 to 2 of the capability pointer, the lowest two as zeros. -/
def firstCapAligned (regValue : Nat) : Nat := ((regValue >>> 2) &&& 0x3f) <<< 2

def checkPcieCfgSpace (fuel : Nat) (t : Option (List PcieInfoBlock)) (rd : MmioRead)
    (bdf uninit : Nat) : Option Nat :=
  let regValue := (valPcieReadCfg t rd bdf type01Cpr).getD uninit
  match checkCapabilityIds t rd bdf .pcieCap fuel (firstCapAligned regValue) regValue 0 with
  | none => none
  | some (regValue, err) =>
    match checkCapabilityIds t rd bdf .pcieEcap fuel pcieEcapStart regValue err with
    | none => none
    | some (_, err) => some err

/-! ## Ends of the walks -/

structure WalksEnd (t : Option (List PcieInfoBlock)) (rd : MmioRead) (bdf ecam : Nat) : Prop where
  find : ∀ k cid uninit cidOffset, cid < 2 ^ 32 →
    ∃ fuel r, valPcieFindCapability fuel t rd bdf k cid uninit cidOffset = some r
  exerciser : ∀ id value offset, id < 2 ^ 32 →
    ∃ fuel r, palExerciserFindPcieCapability fuel ecam rd id bdf value offset = some r
  check : ∀ uninit, ∃ fuel err, checkPcieCfgSpace fuel t rd bdf uninit = some err

def ListEnds (word : Nat → Nat) (k : CidType) (start : Nat) : Prop :=
  ∃ l, Chain (fun o => k.nextCapOffset (word o)) start l

structure ListsEnd (t : Option (List PcieInfoBlock)) (rd : MmioRead) (bdf ecam : Nat) : Prop where
  caps : cfgWord t rd bdf type01Cpr = pcieUnknownResponse ∨
    ListEnds (cfgWord t rd bdf) .pcieCap (cfgWord t rd bdf type01Cpr &&& type01CprMask)
  alignedCaps : ListEnds (cfgWord t rd bdf) .pcieCap (firstCapAligned (cfgWord t rd bdf type01Cpr))
  ecaps : ListEnds (cfgWord t rd bdf) .pcieEcap pcieEcapStart
  exerciserCaps : ListEnds (exerciserWord ecam rd bdf) .pcieCap
    (exerciserWord ecam rd bdf 0x34 &&& 0x00ff)
  exerciserEcaps : ListEnds (exerciserWord ecam rd bdf) .pcieEcap 0x100

section

variable {t : Option (List PcieInfoBlock)} {rd : MmioRead} {bdf : Nat}

theorem CidType.cid_lt (k : CidType) (regValue : Nat) : k.cid regValue < 2 ^ 16 := by
  have h8 : regValue &&& 0xff ≤ 0xff := Nat.and_le_right
  have h16 : regValue &&& 0xffff ≤ 0xffff := Nat.and_le_right
  cases k with
  | pcieEcap =>
    show regValue &&& 0xffff < 2 ^ 16
    omega
  | pcieCap =>
    show regValue &&& 0xff < 2 ^ 16
    omega
  | header =>
    show regValue &&& 0xff < 2 ^ 16
    omega

/-- An id of more than 16 bits is on no list, so a search for every id ends exactly when the
list does. -/
theorem walks_end_iff (word : Nat → Nat) (k : CidType) (start : Nat) :
    (∀ cid, cid < 2 ^ 32 → ∃ fuel r, walk (fun o => k.nextCapOffset (word o))
      (fun o => k.cid (word o) = cid) fuel start = some r) ↔ ListEnds word k start := by
  constructor
  · intro h
    rcases walk_ends_iff.mp (h (2 ^ 16) (by decide)) with ⟨o, -, ho⟩ | hchain
    · have hlt := k.cid_lt (word o)
      rw [decide_eq_true_eq.mp ho] at hlt
      exact absurd hlt (lt_irrefl _)
    · exact hchain
  · intro h cid _
    exact walk_ends_iff.mpr (.inr h)

theorem map_ends_iff {α β : Type} {run : Nat → Option α} (f : α → β) :
    (∃ fuel r, (run fuel).map f = some r) ↔ ∃ fuel r, run fuel = some r := by
  constructor
  · rintro ⟨fuel, r, h⟩
    obtain ⟨a, ha, -⟩ := map_eq_some_iff.mp h
    exact ⟨fuel, a, ha⟩
  · rintro ⟨fuel, a, h⟩
    exact ⟨fuel, f a, by rw [h, map_some]⟩

theorem searchExerciser_eq (word : Nat → Nat) (id idMask ptrMask ptrOffset fuel nxtPtr
    offset : Nat) :
    searchExerciser word id idMask ptrMask ptrOffset fuel nxtPtr offset =
      (walk (fun o => (word o >>> ptrOffset) &&& ptrMask) (fun o => word o &&& idMask = id) fuel
        nxtPtr).map (fun found => (found.map (Prod.mk 0)).getD (1, offset)) := by
  induction fuel generalizing nxtPtr with
  | zero => rfl
  | succ fuel ih =>
    rw [searchExerciser, walk]
    by_cases h0 : nxtPtr = 0
    · rw [if_pos h0, if_pos h0]
      rfl
    · rw [if_neg h0, if_neg h0]
      by_cases hid : word nxtPtr &&& idMask = id
      · rw [if_pos hid, if_pos (by simpa using hid)]
        rfl
      · rw [if_neg hid, if_neg (by simpa using hid), ih]

def exerciserKind (value : Nat) : CidType := if value = 1 then .pcieEcap else .pcieCap

def exerciserStart (word : Nat → Nat) (value : Nat) : Nat :=
  if value = 1 then 0x100 else word 0x34 &&& 0x00ff

theorem palExerciserFindPcieCapability_eq (fuel ecam id value offset : Nat) :
    palExerciserFindPcieCapability fuel ecam rd id bdf value offset =
      (walk (fun o => (exerciserKind value).nextCapOffset (exerciserWord ecam rd bdf o))
        (fun o => (exerciserKind value).cid (exerciserWord ecam rd bdf o) = id) fuel
          (exerciserStart (exerciserWord ecam rd bdf) value)).map
            (fun found => (found.map (Prod.mk 0)).getD (1, offset)) := by
  rw [palExerciserFindPcieCapability, exerciserKind, exerciserStart]
  split_ifs <;> exact searchExerciser_eq _ _ _ _ _ _ _ _

theorem exerciser_ends_iff (ecam : Nat) :
    (∀ id value offset, id < 2 ^ 32 →
      ∃ fuel r, palExerciserFindPcieCapability fuel ecam rd id bdf value offset = some r) ↔
    ListEnds (exerciserWord ecam rd bdf) .pcieCap (exerciserWord ecam rd bdf 0x34 &&& 0x00ff) ∧
      ListEnds (exerciserWord ecam rd bdf) .pcieEcap 0x100 := by
  simp only [palExerciserFindPcieCapability_eq, map_ends_iff]
  rw [← walks_end_iff, ← walks_end_iff]
  constructor
  · intro h
    exact ⟨fun id hid => h id 0 0 hid, fun id hid => h id 1 0 hid⟩
  · intro h id value _ hid
    rw [exerciserKind, exerciserStart]
    split_ifs
    · exact h.2 id hid
    · exact h.1 id hid

section

variable (hmap : Mapped t bdf)
include hmap

theorem find_ends_iff :
    (∀ k cid uninit cidOffset, cid < 2 ^ 32 →
      ∃ fuel r, valPcieFindCapability fuel t rd bdf k cid uninit cidOffset = some r) ↔
    (cfgWord t rd bdf type01Cpr = pcieUnknownResponse ∨
      ListEnds (cfgWord t rd bdf) .pcieCap (cfgWord t rd bdf type01Cpr &&& type01CprMask)) ∧
      ListEnds (cfgWord t rd bdf) .pcieEcap pcieEcapStart := by
  have hwalk : ∀ k, k ≠ .header →
      (k = .pcieCap → cfgWord t rd bdf type01Cpr ≠ pcieUnknownResponse) → ∀ cid uninit cidOffset,
      ((∃ fuel r, valPcieFindCapability fuel t rd bdf k cid uninit cidOffset = some r) ↔
        ∃ fuel r, walk (capNext t rd bdf k) (hasCid t rd bdf k cid) fuel
          (capStart t rd bdf k) = some r) := by
    intro k hk hones cid uninit cidOffset
    simp only [valPcieFindCapability_eq_walk hmap hk hones]
    exact map_ends_iff _
  have hecap := hwalk .pcieEcap nofun nofun
  have hcap := fun hones => hwalk .pcieCap nofun fun _ => hones
  rw [← walks_end_iff, ← walks_end_iff]
  constructor
  · intro h
    constructor
    · by_cases hones : cfgWord t rd bdf type01Cpr = pcieUnknownResponse
      · exact .inl hones
      · exact .inr fun cid hcid => (hcap hones cid 0 0).mp (h .pcieCap cid 0 0 hcid)
    · exact fun cid hcid => (hecap cid 0 0).mp (h .pcieEcap cid 0 0 hcid)
  · rintro ⟨hcaps, hecaps⟩ k cid uninit cidOffset hcid
    cases k with
    | header => exact ⟨0, _, rfl⟩
    | pcieEcap => exact (hecap cid uninit cidOffset).mpr (hecaps cid hcid)
    | pcieCap =>
      by_cases hones : cfgWord t rd bdf type01Cpr = pcieUnknownResponse
      · refine ⟨0, (pcieSuccess, cidOffset), ?_⟩
        simp [valPcieFindCapability, valPcieReadCfg_of_mapped hmap, if_pos hones]
      · exact (hcap hones cid uninit cidOffset).mpr (hcaps.resolve_left hones cid hcid)

theorem checkCapabilityIds_isSome (k : CidType) (fuel nextCap regValue
    err : Nat) :
    (checkCapabilityIds t rd bdf k fuel nextCap regValue err).isSome =
      (walk (capNext t rd bdf k) (fun _ => false) fuel nextCap).isSome := by
  induction fuel generalizing nextCap regValue err with
  | zero => rfl
  | succ fuel ih =>
    rw [checkCapabilityIds, walk]
    by_cases h0 : nextCap = 0
    · rw [if_pos h0, if_pos h0]
      rfl
    · rw [if_neg h0, if_neg h0, valPcieReadCfg_of_mapped hmap]
      exact ih _ _ _

theorem checkPcieCfgSpace_isSome (rd : MmioRead) (fuel uninit : Nat) :
    (checkPcieCfgSpace fuel t rd bdf uninit).isSome =
      ((walk (capNext t rd bdf .pcieCap) (fun _ => false) fuel
        (firstCapAligned (cfgWord t rd bdf type01Cpr))).isSome &&
      (walk (capNext t rd bdf .pcieEcap) (fun _ => false) fuel pcieEcapStart).isSome) := by
  rw [checkPcieCfgSpace, valPcieReadCfg_of_mapped hmap, getD_some]
  rw [← checkCapabilityIds_isSome hmap .pcieCap fuel _ (cfgWord t rd bdf type01Cpr) 0]
  cases hcaps : checkCapabilityIds t rd bdf .pcieCap fuel
      (firstCapAligned (cfgWord t rd bdf type01Cpr)) (cfgWord t rd bdf type01Cpr) 0 with
  | none => rfl
  | some r =>
    rw [← checkCapabilityIds_isSome hmap .pcieEcap fuel _ r.1 r.2]
    simp only [isSome_some]
    cases checkCapabilityIds t rd bdf .pcieEcap fuel pcieEcapStart r.1 r.2 with
    | none => rfl
    | some r' => rfl

theorem check_ends_iff :
    (∀ uninit, ∃ fuel err, checkPcieCfgSpace fuel t rd bdf uninit = some err) ↔
    ListEnds (cfgWord t rd bdf) .pcieCap (firstCapAligned (cfgWord t rd bdf type01Cpr)) ∧
      ListEnds (cfgWord t rd bdf) .pcieEcap pcieEcapStart := by
  -- a walk that searches for nothing ends only with the list
  have hidle : ∀ k start fuel, (walk (capNext t rd bdf k) (fun _ => false) fuel start).isSome =
      true → ListEnds (cfgWord t rd bdf) k start := by
    intro k start fuel h
    obtain ⟨r, hr⟩ := isSome_iff_exists.mp h
    rcases walk_ends_iff.mp ⟨fuel, r, hr⟩ with ⟨o, -, hfalse⟩ | hchain
    · cases hfalse
    · exact hchain
  constructor
  · intro h
    obtain ⟨fuel, err, hrun⟩ := h 0
    have hboth := checkPcieCfgSpace_isSome hmap rd fuel 0
    rw [hrun, isSome_some, eq_comm, Bool.and_eq_true] at hboth
    exact ⟨hidle _ _ fuel hboth.1, hidle _ _ fuel hboth.2⟩
  · rintro ⟨⟨l, hl⟩, ⟨l', hl'⟩⟩ uninit
    have hcaps := walk_of_chain (p := fun _ => false) hl
      (show l.length < l.length + l'.length + 1 by omega)
    have hecaps := walk_of_chain (p := fun _ => false) hl'
      (show l'.length < l.length + l'.length + 1 by omega)
    have hboth := checkPcieCfgSpace_isSome hmap rd (l.length + l'.length + 1) uninit
    have hends : (checkPcieCfgSpace (l.length + l'.length + 1) t rd bdf uninit).isSome = true := by
      rw [hboth, Bool.and_eq_true]
      exact ⟨isSome_iff_exists.mpr ⟨_, hcaps⟩, isSome_iff_exists.mpr ⟨_, hecaps⟩⟩
    exact ⟨_, isSome_iff_exists.mp hends⟩

end

end

/-- On a function with a mapping the walks end exactly when its lists do. -/
theorem capabilityWalks_end_iff (t : Option (List PcieInfoBlock)) (rd : MmioRead) (bdf ecam : Nat)
    (hmap : Mapped t bdf) : WalksEnd t rd bdf ecam ↔ ListsEnd t rd bdf ecam := by
  constructor
  · intro h
    obtain ⟨hcaps, hecaps⟩ := (find_ends_iff hmap).mp h.find
    obtain ⟨hexcaps, hexecaps⟩ := (exerciser_ends_iff ecam).mp h.exerciser
    exact ⟨hcaps, ((check_ends_iff hmap).mp h.check).1, hecaps, hexcaps, hexecaps⟩
  · intro h
    exact ⟨(find_ends_iff hmap).mpr ⟨h.caps, h.ecaps⟩,
      (exerciser_ends_iff ecam).mpr ⟨h.exerciserCaps, h.exerciserEcaps⟩,
      (check_ends_iff hmap).mpr ⟨h.alignedCaps, h.ecaps⟩⟩

def constantFunction (value : Nat) : MmioRead := fun _ _ => value

def twoLists : MmioRead := fun _ a =>
  if a = 0x30000034 then 0x40
  else if a = 0x30000040 then 0x5001
  else if a = 0x30000050 then 0x10
  else if a = 0x30000100 then 0x20010001
  else if a = 0x30000200 then 0x1000d
  else 0

/-- Two capabilities and two extended ones. -/
theorem capabilityWalks_end_twoLists : WalksEnd oneSegment twoLists 0 0x30000000 := by
  apply (capabilityWalks_end_iff oneSegment twoLists 0 0x30000000 (by decide)).mpr
  refine ⟨.inr ?_, ?_, ?_, ?_, ?_⟩ <;> exact ⟨_, .cons (by decide) (.cons (by decide) .nil)⟩

/-- Registers that read as all ones, and a capability at 0x40 that points to itself, keep the
walks going for ever. -/
theorem capabilityWalks_endless :
    (Mapped oneSegment 0 ∧
      (∀ fuel, valPcieFindCapability fuel oneSegment (constantFunction 0xffffffff) 0 .pcieEcap 1 0 0
        = none) ∧
      ¬ WalksEnd oneSegment (constantFunction 0xffffffff) 0 0x30000000) ∧
    (∀ fuel, valPcieFindCapability fuel oneSegment (constantFunction 0x4040) 0 .pcieCap 0x10 0 0
        = none) ∧
    ¬ WalksEnd oneSegment (constantFunction 0x4040) 0 0x30000000 := by
  have hmap : Mapped oneSegment 0 := by decide
  have hones : ∀ fuel, valPcieFindCapability fuel oneSegment (constantFunction 0xffffffff) 0
      .pcieEcap 1 0 0 = none := by
    intro fuel
    rw [valPcieFindCapability, searchCapability_of_mapped hmap]
    have hwalk : walk (capNext oneSegment (constantFunction 0xffffffff) 0 .pcieEcap)
        (hasCid oneSegment (constantFunction 0xffffffff) 0 .pcieEcap 1) fuel pcieEcapStart = none :=
      walk_const (by decide) fuel (by decide) (by decide)
    rw [hwalk]
    rfl
  have hself : ∀ fuel, valPcieFindCapability fuel oneSegment (constantFunction 0x4040) 0
      .pcieCap 0x10 0 0 = none := by
    intro fuel
    have hread := valPcieReadCfg_of_mapped hmap (constantFunction 0x4040) type01Cpr
    have hwalk : walk (capNext oneSegment (constantFunction 0x4040) 0 .pcieCap)
        (hasCid oneSegment (constantFunction 0x4040) 0 .pcieCap 0x10) fuel 0x40 = none :=
      walk_stuck (by decide) (by decide) (by decide) fuel
    simp only [valPcieFindCapability, hread]
    rw [searchCapability_of_mapped hmap]
    show (walk _ _ fuel 0x40).map _ = none
    rw [hwalk]
    rfl
  refine ⟨⟨hmap, hones, fun h => ?_⟩, hself, fun h => ?_⟩
  · obtain ⟨fuel, r, hr⟩ := h.find .pcieEcap 1 0 0 (by decide)
    rw [hones] at hr
    cases hr
  · obtain ⟨fuel, r, hr⟩ := h.find .pcieCap 0x10 0 0 (by decide)
    rw [hself] at hr
    cases hr

/-! ## The exerciser layer against the accessors

It reads a function in the window of the first MCFG entry, whatever its segment and bus, and does
not look whether the capability pointer reads as all ones. -/

def exerciserId : Nat := 0xED0113B5

/-- The base of the first MCFG entry, which is the first window of the table. -/
def palPcieGetMcfgEcam (t : Option (List PcieInfoBlock)) : Nat := valPcieGetInfo t .ecam 0

def palIsBdfExerciser (ecam : Nat) (rd : MmioRead) (bdf : Nat) : Nat :=
  if exerciserWord ecam rd bdf 0 = exerciserId then 1 else 0

structure ExerciserAgrees (t : Option (List PcieInfoBlock)) (rd : MmioRead) (bdf : Nat) : Prop where
  id : palIsBdfExerciser (palPcieGetMcfgEcam t) rd bdf = 1 ↔
    valPcieReadCfg t rd bdf type01Vidr = some exerciserId
  capability : ∀ id value uninit offset o,
    (∃ fuel, palExerciserFindPcieCapability fuel (palPcieGetMcfgEcam t) rd id bdf value offset =
      some (0, o)) ↔
    ∃ fuel, valPcieFindCapability fuel t rd bdf (exerciserKind value) id uninit offset =
      some (pcieSuccess, o)

variable {t : Option (List PcieInfoBlock)} {rd : MmioRead} {bdf : Nat}

theorem map_eq_found_iff {f : Option Nat → Nat × Nat} (hsome : ∀ o, f (some o) = (0, o))
    (hnone : (f none).1 ≠ 0) (r : Option (Option Nat)) (o : Nat) :
    r.map f = some (0, o) ↔ r = some (some o) := by
  match r with
  | none => simp
  | some none =>
    simp only [map_some, some_inj, reduceCtorEq, iff_false]
    exact fun h => hnone (congrArg Prod.fst h)
  | some (some o') => simp [hsome]

theorem exerciser_found_iff {ecam id value offset o fuel : Nat} :
    palExerciserFindPcieCapability fuel ecam rd id bdf value offset = some (0, o) ↔
      walk (fun o => (exerciserKind value).nextCapOffset (exerciserWord ecam rd bdf o))
        (fun o => (exerciserKind value).cid (exerciserWord ecam rd bdf o) = id) fuel
          (exerciserStart (exerciserWord ecam rd bdf) value) = some (some o) := by
  rw [palExerciserFindPcieCapability_eq]
  exact map_eq_found_iff (fun _ => rfl) Nat.one_ne_zero _ o

/-- An id of more than eight bits is on no list, and the accessors report it. -/
theorem not_agrees_of_ones (hmap : Mapped t bdf)
    (hones : cfgWord t rd bdf type01Cpr = pcieUnknownResponse) : ¬ ExerciserAgrees t rd bdf := by
  intro h
  have hfind : valPcieFindCapability 0 t rd bdf (exerciserKind 0) (2 ^ 16) 0 0 =
      some (pcieSuccess, 0) := by
    simp [show exerciserKind 0 = .pcieCap from rfl, valPcieFindCapability,
      valPcieReadCfg_of_mapped hmap, if_pos hones]
  obtain ⟨fuel, hfuel⟩ := (h.capability (2 ^ 16) 0 0 0 0).mpr ⟨0, hfind⟩
  have hcid := decide_eq_true_eq.mp (walk_found (exerciser_found_iff.mp hfuel)).2
  exact absurd (hcid ▸ CidType.cid_lt _ _) (lt_irrefl _)

theorem agrees_of_same (hmap : Mapped t bdf)
    (hsame : exerciserWord (palPcieGetMcfgEcam t) rd bdf = cfgWord t rd bdf)
    (hones : cfgWord t rd bdf type01Cpr ≠ pcieUnknownResponse) : ExerciserAgrees t rd bdf := by
  constructor
  · rw [palIsBdfExerciser, hsame, valPcieReadCfg_of_mapped hmap, some_inj]
    split_ifs with hid
    · exact iff_of_true rfl hid
    · exact iff_of_false not_false hid
  · intro id value uninit offset o
    apply exists_congr
    intro fuel
    rw [exerciser_found_iff, hsame,
      valPcieFindCapability_eq_walk hmap (by rw [exerciserKind]; split_ifs <;> decide)
      (fun _ => hones), show pcieSuccess = 0 from rfl,
      map_eq_found_iff (fun _ => rfl) (show pcieCapNotFound ≠ 0 by decide)]
    have hstart : exerciserStart (cfgWord t rd bdf) value =
        capStart t rd bdf (exerciserKind value) := by
      rw [exerciserStart, exerciserKind]
      split_ifs <;> rfl
    rw [hstart]
    rfl

/-- Unless the capability pointer reads as all ones the layers agree, in every memory, exactly
when the function is in the window at the first base. -/
theorem exerciserAgrees_iff (hmap : Mapped t bdf) :
    (∀ rd, ExerciserAgrees t rd bdf ↔ cfgWord t rd bdf type01Cpr ≠ pcieUnknownResponse) ↔
      palPcieGetMcfgEcam t % 2 ^ 64 =
        findEcamBase t (pcieExtractBdfBus bdf) (pcieExtractBdfSeg bdf) % 2 ^ 64 := by
  constructor
  · intro h
    by_contra hne
    -- the memory in which the function is the exerciser and everything else is zero
    obtain ⟨rd, hrd⟩ : ∃ rd : MmioRead, rd = fun _ a =>
        if a = cfgAddress (findEcamBase t (pcieExtractBdfBus bdf) (pcieExtractBdfSeg bdf))
          (pcieExtractBdfBus bdf) (pcieExtractBdfDev bdf) (pcieExtractBdfFunc bdf) 0
        then exerciserId else 0 := ⟨_, rfl⟩
    have hid : cfgWord t rd bdf type01Vidr = exerciserId := by
      rw [hrd]
      exact congrArg (· % 2 ^ 32) (if_pos rfl)
    have hcpr : cfgWord t rd bdf type01Cpr = 0 := by
      rw [hrd]
      refine congrArg (· % 2 ^ 32) (if_neg ?_)
      simp only [cfgAddress, type01Cpr]
      omega
    have hother : exerciserWord (palPcieGetMcfgEcam t) rd bdf 0 = 0 := by
      rw [hrd]
      refine congrArg (· % 2 ^ 32) (if_neg ?_)
      simp only [cfgAddress]
      omega
    have hagrees := ((h rd).mpr (by rw [hcpr]; decide)).id.mpr
      ((valPcieReadCfg_of_mapped hmap rd _).trans (congrArg some hid))
    rw [palIsBdfExerciser, hother] at hagrees
    cases hagrees
  · intro hbase rd
    have hsame : exerciserWord (palPcieGetMcfgEcam t) rd bdf = cfgWord t rd bdf := by
      funext offset
      rw [exerciserWord]
      congr 2
      simp only [cfgAddress]
      omega
    exact ⟨fun h hones => not_agrees_of_ones hmap hones h, agrees_of_same hmap hsame⟩

theorem exerciserAgrees_oneSegment : Mapped oneSegment 0 ∧
    ∀ rd, ExerciserAgrees oneSegment rd 0 ↔ cfgWord oneSegment rd 0 type01Cpr ≠
      pcieUnknownResponse :=
  have hmap : Mapped oneSegment 0 := by decide
  ⟨hmap, (exerciserAgrees_iff hmap).mpr (by decide)⟩

def twoBuses : Option (List PcieInfoBlock) := some [⟨0x30000000, 0, 0, 0⟩, ⟨0x40000000, 0, 1, 1⟩]

theorem exerciser_not_found : Mapped twoBuses 0x010000 ∧
    ¬ ExerciserAgrees twoBuses (fun _ a => if a = 0x40100000 then exerciserId else 0) 0x010000 :=
  ⟨by decide, fun h => absurd (h.id.mpr (by decide)) (by decide)⟩

end ServerSoc.Pcie
