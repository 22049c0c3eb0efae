/-
What the table of PCIe functions lists.

A slot is a bus, device and function number inside one ECAM window.  The enumeration reads a slot
through the packed BDF, which keeps eight bits of the segment.  A failed build leaves the table
pointer set, and every later call reports success.
-/
import ServerSoc.Base.Fold
import ServerSoc.Base.Ranges
import ServerSoc.Pcie.Enumerate

namespace ServerSoc.Pcie

open Base List

/-! ## Slots -/

structure Slot where
  window : PcieInfoBlock
  bus : Nat
  dev : Nat
  func : Nat
  deriving DecidableEq, Repr

def windowSlots (b : PcieInfoBlock) : List Slot :=
  (range' b.startBusNum (b.endBusNum + 1 - b.startBusNum)).flatMap (fun bus =>
    (range pcieMaxDev).flatMap (fun dev =>
      (range pcieMaxFunc).map (fun func => ⟨b, bus, dev, func⟩)))

def slots (blocks : List PcieInfoBlock) : List Slot := blocks.flatMap windowSlots

/-- Segments and buses are in range and no two windows share a bus of a segment. -/
structure InfoTable (blocks : List PcieInfoBlock) : Prop where
  segments : ∀ b ∈ blocks, b.segmentNum < 65536
  buses : ∀ b ∈ blocks, b.endBusNum < 256
  disjoint : blocks.Pairwise (fun a b => a.segmentNum = b.segmentNum → ∀ bus,
    ¬ (a.startBusNum ≤ bus ∧ bus ≤ a.endBusNum ∧ b.startBusNum ≤ bus ∧ bus ≤ b.endBusNum))

namespace Slot

def bdf (x : Slot) : Nat := pcieCreateBdf x.window.segmentNum x.bus x.dev x.func

def ident (x : Slot) : Nat × Nat × Nat × Nat := (x.window.segmentNum, x.bus, x.dev, x.func)

def word (x : Slot) (rd : MmioRead) (o : Nat) : Nat :=
  rd .uint32 (cfgAddress x.window.ecamBase x.bus x.dev x.func o) % 2 ^ 32

def Responds (x : Slot) (rd : MmioRead) : Prop := x.word rd type01Vidr ≠ pcieUnknownResponse

def HostBridge (x : Slot) (rd : MmioRead) : Prop :=
  0x06 = (x.word rd type01Ridr >>> 24) &&& 0xFF ∧ 0x00 = (x.word rd type01Ridr >>> 16) &&& 0xFF

def HasPcieCap (x : Slot) (rd : MmioRead) : Prop :=
  ∃ o, OnChain (fun o => CidType.pcieCap.nextCapOffset (x.word rd o))
      (x.word rd type01Cpr &&& type01CprMask) o ∧
    CidType.pcieCap.cid (x.word rd o) = cidPciecs

def Listed (x : Slot) (rd : MmioRead) (valid : Nat → Nat) : Prop :=
  x.Responds rd ∧ ¬ x.HostBridge rd ∧ x.HasPcieCap rd ∧ valid x.bdf = 0

end Slot

def decodeBdf (bdf : Nat) : Nat × Nat × Nat × Nat :=
  (pcieExtractBdfSeg bdf, pcieExtractBdfBus bdf, pcieExtractBdfDev bdf, pcieExtractBdfFunc bdf)

open Classical in
/-- The table names the functions that belong in it, each once and in order. -/
def Lists (blocks : List PcieInfoBlock) (rd : MmioRead) (valid : Nat → Nat) (table : List Nat) :
    Prop :=
  table.map decodeBdf = ((slots blocks).filter (fun x => x.Listed rd valid)).map Slot.ident

variable {x : Slot}

theorem mem_windowSlots {b : PcieInfoBlock} :
    x ∈ windowSlots b ↔ x.window = b ∧ b.startBusNum ≤ x.bus ∧ x.bus ≤ b.endBusNum ∧
      x.dev < pcieMaxDev ∧ x.func < pcieMaxFunc := by
  obtain ⟨w, bus, dev, func⟩ := x
  simp only [windowSlots, mem_flatMap, mem_map, mem_range, mem_range'_1,
    Slot.mk.injEq]
  constructor
  · rintro ⟨bus', hbus, dev', hdev, func', hfunc, rfl, rfl, rfl, rfl⟩
    exact ⟨rfl, hbus.1, by omega, hdev, hfunc⟩
  · rintro ⟨rfl, hs, he, hdev, hfunc⟩
    exact ⟨bus, ⟨hs, by omega⟩, dev, hdev, func, hfunc, rfl, rfl, rfl, rfl⟩

theorem mem_slots {blocks : List PcieInfoBlock} :
    x ∈ slots blocks ↔ x.window ∈ blocks ∧ x.window.startBusNum ≤ x.bus ∧
      x.bus ≤ x.window.endBusNum ∧ x.dev < pcieMaxDev ∧ x.func < pcieMaxFunc := by
  simp only [slots, mem_flatMap, mem_windowSlots]
  constructor
  · rintro ⟨b, hb, rfl, h⟩
    exact ⟨hb, h⟩
  · rintro ⟨hb, h⟩
    exact ⟨x.window, hb, rfl, h⟩

theorem loopBdfs_eq (blocks : List PcieInfoBlock) :
    loopBdfs (some blocks) = (slots blocks).map Slot.bdf := by
  have hblocks : blocks = (range blocks.length).map (blockAt blocks) :=
    (map_getD_range blocks ⟨0, 0, 0, 0⟩).symm
  unfold loopBdfs slots
  rw [valPcieGetInfo_numEcam]
  conv_rhs => rw [hblocks]
  rw [flatMap_map, map_flatMap]
  congr 1
  funext i
  obtain ⟨-, hseg, hstart, hend⟩ := valPcieGetInfo_blockAt blocks i
  simp only [hseg, hstart, hend, windowSlots, map_flatMap]
  rfl

/-! ## The window of a BDF -/

section

variable {blocks : List PcieInfoBlock} {bus : Nat} {b : PcieInfoBlock}

theorem findEcamBase_some (blocks : List PcieInfoBlock) (bus segment : Nat) :
    findEcamBase (some blocks) bus segment =
      ((blocks.find? (fun b => b.startBusNum ≤ bus ∧ bus ≤ b.endBusNum ∧
        segment = b.segmentNum)).map PcieInfoBlock.ecamBase).getD 0 := by
  have hblocks : blocks = (range blocks.length).map (blockAt blocks) :=
    (map_getD_range blocks ⟨0, 0, 0, 0⟩).symm
  conv_rhs => rw [hblocks, find?_map]
  have hpred : (fun i => decide (valPcieGetInfo (some blocks) .startBus i ≤ bus ∧
      bus ≤ valPcieGetInfo (some blocks) .endBus i ∧
      segment = valPcieGetInfo (some blocks) .segment i)) =
      (fun b : PcieInfoBlock => decide (b.startBusNum ≤ bus ∧ bus ≤ b.endBusNum ∧
        segment = b.segmentNum)) ∘ blockAt blocks := by
    funext i
    obtain ⟨-, hseg, hstart, hend⟩ := valPcieGetInfo_blockAt blocks i
    simp [hseg, hstart, hend]
  rw [findEcamBase, valPcieGetInfo_numEcam, hpred]
  cases (range blocks.length).find? _ with
  | none => rfl
  | some i => exact (valPcieGetInfo_blockAt blocks i).1

section

variable (hdis : blocks.Pairwise (fun a b => a.segmentNum = b.segmentNum → ∀ bus,
  ¬ (a.startBusNum ≤ bus ∧ bus ≤ a.endBusNum ∧ b.startBusNum ≤ bus ∧ bus ≤ b.endBusNum)))
include hdis

theorem eq_of_shared {a : PcieInfoBlock} (ha : a ∈ blocks)
    (hb : b ∈ blocks) (hseg : a.segmentNum = b.segmentNum) (ha1 : a.startBusNum ≤ bus)
    (ha2 : bus ≤ a.endBusNum) (hb1 : b.startBusNum ≤ bus) (hb2 : bus ≤ b.endBusNum) : a = b :=
  Base.eq_of_pairwise hdis ha hb (fun h => h hseg bus ⟨ha1, ha2, hb1, hb2⟩)
    (fun h => h hseg.symm bus ⟨hb1, hb2, ha1, ha2⟩)

theorem findEcamBase_of_mem (hb : b ∈ blocks) (hs : b.startBusNum ≤ bus) (he : bus ≤ b.endBusNum) :
    findEcamBase (some blocks) bus b.segmentNum = b.ecamBase := by
  rw [findEcamBase_some]
  cases hfind : blocks.find? (fun c => c.startBusNum ≤ bus ∧ bus ≤ c.endBusNum ∧
      b.segmentNum = c.segmentNum) with
  | none =>
    rw [find?_eq_none] at hfind
    exact absurd (by simp [hs, he]) (hfind b hb)
  | some c =>
    have hc := find?_some hfind
    simp only [decide_eq_true_eq] at hc
    rw [eq_of_shared hdis hb (mem_of_find?_eq_some hfind) hc.2.2 hs he hc.1 hc.2.1]
    rfl

end

theorem findEcamBase_eq_of_ne_zero {segment : Nat}
    (h : findEcamBase (some blocks) bus segment ≠ 0) :
    ∃ b ∈ blocks, b.segmentNum = segment ∧ b.startBusNum ≤ bus ∧ bus ≤ b.endBusNum ∧
      findEcamBase (some blocks) bus segment = b.ecamBase := by
  rw [findEcamBase_some] at h ⊢
  cases hfind : blocks.find? (fun b => b.startBusNum ≤ bus ∧ bus ≤ b.endBusNum ∧
      segment = b.segmentNum) with
  | none =>
    rw [hfind] at h
    exact absurd rfl h
  | some b =>
    have hb := find?_some hfind
    simp only [decide_eq_true_eq] at hb
    exact ⟨b, mem_of_find?_eq_some hfind, hb.2.2.symm, hb.1, hb.2.1, rfl⟩

section

variable (h : InfoTable blocks) (hx : x ∈ slots blocks)
include h hx

theorem decodeBdf_bdf : decodeBdf x.bdf = (x.window.segmentNum % 256, x.bus, x.dev, x.func) := by
  obtain ⟨hw, -, hbus, hdev, hfunc⟩ := mem_slots.mp hx
  have hend := h.buses x.window hw
  have hdev' : x.dev < 32 := hdev
  have hfunc' : x.func < 8 := hfunc
  rw [decodeBdf, pcieExtractBdfSeg_eq, pcieExtractBdfBus_eq, pcieExtractBdfDev_eq,
    pcieExtractBdfFunc_eq, Slot.bdf, pcieCreateBdf_eq _ _ _ (by omega)]
  ext <;> simp only <;> omega

/-- A slot whose BDF is mapped shares the BDF with the slot of the low segment, and that
slot's registers are the ones read. -/
theorem exists_alias (hmap : Mapped (some blocks) x.bdf) :
    ∃ y ∈ slots blocks, y.bdf = x.bdf ∧ y.window.segmentNum = x.window.segmentNum % 256 ∧
      ∀ rd o, cfgWord (some blocks) rd x.bdf o = y.word rd o := by
  have hdec := decodeBdf_bdf h hx
  simp only [decodeBdf, Prod.mk.injEq] at hdec
  obtain ⟨hseg, hbus, hdev, hfunc⟩ := hdec
  obtain ⟨b, hb, hbseg, hs, he, -⟩ := findEcamBase_eq_of_ne_zero hmap.2.2
  rw [hbus] at hs he
  rw [hseg] at hbseg
  obtain ⟨-, -, -, hxdev, hxfunc⟩ := mem_slots.mp hx
  refine ⟨⟨b, x.bus, x.dev, x.func⟩, mem_slots.mpr ⟨hb, hs, he, hxdev, hxfunc⟩, ?_, hbseg, ?_⟩
  · have hfit : x.func < 256 := hxfunc.trans (by decide)
    rw [Slot.bdf, Slot.bdf, pcieCreateBdf_eq _ _ _ hfit, pcieCreateBdf_eq _ _ _ hfit]
    simp [hbseg]
  · intro rd o
    rw [cfgWord, Slot.word, hseg, hbus, hdev, hfunc, ← hbseg,
      findEcamBase_of_mem h.disjoint hb hs he]

theorem cfgWord_bdf (hseg : x.window.segmentNum < 256) (rd : MmioRead) (o : Nat) :
    cfgWord (some blocks) rd x.bdf o = x.word rd o := by
  have hdec := decodeBdf_bdf h hx
  simp only [decodeBdf, Prod.mk.injEq] at hdec
  obtain ⟨hw, hs, he, -, -⟩ := mem_slots.mp hx
  rw [cfgWord, Slot.word, hdec.1, hdec.2.1, hdec.2.2.1, hdec.2.2.2, Nat.mod_eq_of_lt hseg,
    findEcamBase_of_mem h.disjoint hw hs he]

theorem ident_inj {y : Slot} (hy : y ∈ slots blocks) (hxy : x.ident = y.ident) : x = y := by
  obtain ⟨hxw, hxs, hxe, -, -⟩ := mem_slots.mp hx
  obtain ⟨hyw, hys, hye, -, -⟩ := mem_slots.mp hy
  obtain ⟨w, bus, dev, func⟩ := x
  obtain ⟨w', bus', dev', func'⟩ := y
  simp only [Slot.ident, Prod.mk.injEq] at hxy
  obtain ⟨hseg, rfl, rfl, rfl⟩ := hxy
  have hw : w = w' := eq_of_shared h.disjoint hxw hyw hseg hxs hxe hys hye
  rw [hw]

end

theorem nodup_windowSlots (b : PcieInfoBlock) : (windowSlots b).Nodup := by
  refine nodup_flatMap_of_key Slot.bus nodup_range' (fun bus _ => ?_) ?_
  · refine nodup_flatMap_of_key Slot.dev nodup_range (fun dev _ => ?_) ?_
    · refine nodup_range.map_on (fun f _ f' _ h => ?_)
      exact congrArg Slot.func h
    · intro dev x hx
      obtain ⟨f, -, rfl⟩ := mem_map.mp hx
      rfl
  · intro bus x hx
    obtain ⟨dev, -, hx⟩ := mem_flatMap.mp hx
    obtain ⟨f, -, rfl⟩ := mem_map.mp hx
    rfl

theorem nodup_ident (h : InfoTable blocks) : ((slots blocks).map Slot.ident).Nodup := by
  refine List.Nodup.map_on (fun x hx y hy hxy => ident_inj h hx hy hxy) ?_
  rw [slots, nodup_flatMap]
  refine ⟨fun b _ => nodup_windowSlots b, h.disjoint.imp (fun {a b} hab => ?_)⟩
  intro x hxa hxb
  obtain ⟨rfl, ha1, ha2, -⟩ := mem_windowSlots.mp hxa
  obtain ⟨hb, hb1, hb2, -⟩ := mem_windowSlots.mp hxb
  subst hb
  exact hab rfl x.bus ⟨ha1, ha2, hb1, hb2⟩

end

/-! ## The search for the PCIe capability -/

section

variable {t : Option (List PcieInfoBlock)} {rd : MmioRead} {bdf fuel : Nat} {r : Nat × Nat}

def OnCapList (t : Option (List PcieInfoBlock)) (rd : MmioRead) (bdf : Nat) : Prop :=
  ∃ o, OnChain (capNext t rd bdf .pcieCap) (capStart t rd bdf .pcieCap) o ∧
    hasCid t rd bdf .pcieCap cidPciecs o = true

def EndlessSearch (t : Option (List PcieInfoBlock)) (rd : MmioRead) (bdf : Nat) : Prop :=
  cfgWord t rd bdf type01Cpr ≠ pcieUnknownResponse ∧ ¬ OnCapList t rd bdf ∧
    ∀ l, ¬ CapChain t rd bdf .pcieCap l

section

variable (hmap : Mapped t bdf)
include hmap

theorem pciecsSearch_eq (fuel : Nat) :
    pciecsSearch fuel t rd bdf =
      if cfgWord t rd bdf type01Cpr = pcieUnknownResponse then some (pcieSuccess, 0)
      else (walk (capNext t rd bdf .pcieCap) (hasCid t rd bdf .pcieCap cidPciecs) fuel
        (capStart t rd bdf .pcieCap)).map (searchResult 0) := by
  simp only [pciecsSearch, valPcieFindCapability, valPcieReadCfg_of_mapped hmap,
    searchCapability_of_mapped hmap]
  rfl

theorem pciecsSearch_success_iff (h : pciecsSearch fuel t rd bdf = some r) :
    r.1 = pcieSuccess ↔ cfgWord t rd bdf type01Cpr = pcieUnknownResponse ∨ OnCapList t rd bdf := by
  rw [pciecsSearch_eq hmap] at h
  split_ifs at h with hones
  · cases h
    simp [hones]
  · obtain ⟨w, hw, rfl⟩ := Option.map_eq_some_iff.mp h
    cases w with
    | none =>
      refine iff_of_false (by decide) ?_
      rintro (h1 | ⟨o, hon, hcid⟩)
      · exact hones h1
      · rw [walk_absent hw hon] at hcid
        cases hcid
    | some o => exact iff_of_true rfl (.inr ⟨o, walk_found hw⟩)

theorem pciecsSearch_mono {fuel' : Nat}
    (h : pciecsSearch fuel t rd bdf = some r) (hle : fuel ≤ fuel') :
    pciecsSearch fuel' t rd bdf = some r := by
  rw [pciecsSearch_eq hmap] at h ⊢
  by_cases hones : cfgWord t rd bdf type01Cpr = pcieUnknownResponse
  · rwa [if_pos hones] at h ⊢
  · rw [if_neg hones] at h ⊢
    obtain ⟨w, hw, rfl⟩ := Option.map_eq_some_iff.mp h
    rw [walk_mono hw hle]
    rfl

theorem endlessSearch_iff : EndlessSearch t rd bdf ↔ ∀ fuel, pciecsSearch fuel t rd bdf = none := by
  by_cases hones : cfgWord t rd bdf type01Cpr = pcieUnknownResponse
  · refine iff_of_false (fun h => h.1 hones) (fun h => ?_)
    have h0 := h 0
    rw [pciecsSearch_eq hmap, if_pos hones] at h0
    cases h0
  · have hends : (∃ fuel r, pciecsSearch fuel t rd bdf = some r) ↔
        OnCapList t rd bdf ∨ ∃ l, CapChain t rd bdf .pcieCap l := by
      refine Iff.trans ?_ (walk_ends_iff)
      simp only [pciecsSearch_eq hmap, if_neg hones, Option.map_eq_some_iff]
      constructor
      · rintro ⟨fuel, r, w, hw, -⟩
        exact ⟨fuel, w, hw⟩
      · rintro ⟨fuel, w, hw⟩
        exact ⟨fuel, _, w, hw, rfl⟩
    constructor
    · rintro ⟨-, hno, hchain⟩ fuel
      by_contra hsome
      obtain ⟨r, hr⟩ := Option.ne_none_iff_exists'.mp hsome
      rcases hends.mp ⟨fuel, r, hr⟩ with hon | ⟨l, hl⟩
      · exact hno hon
      · exact hchain l hl
    · intro hnone
      have hno : ¬ ∃ fuel r, pciecsSearch fuel t rd bdf = some r := by
        rintro ⟨fuel, r, hr⟩
        rw [hnone fuel] at hr
        cases hr
      rw [hends, not_or, not_exists] at hno
      exact ⟨hones, hno.1, hno.2⟩

end

end

end ServerSoc.Pcie
