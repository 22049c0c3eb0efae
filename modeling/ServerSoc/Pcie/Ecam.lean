/-
The four accessors of the configuration space (acs_pcie.c).

Each looks for the window of a BDF on its own.  The base of a window is the address of bus 0.  A
rejected access is `none`, or the address 0.
-/
import ServerSoc.Pcie.BdfTable
import ServerSoc.Pcie.Control

namespace ServerSoc.Pcie

open List

/-! ## Accessors -/

abbrev MmioWrite (σ : Type) := σ → PciWidth → Nat → Nat → σ

/-- The data has the type of the width. -/
def valPcieWriteCfgWidth {σ : Type} (wr : MmioWrite σ) (t : Option (List PcieInfoBlock)) (s : σ)
    (bdf offset data : Nat) (width : PciWidth) : σ :=
  let bus := pcieExtractBdfBus bdf
  let dev := pcieExtractBdfDev bdf
  let func := pcieExtractBdfFunc bdf
  let segment := pcieExtractBdfSeg bdf
  if pcieMaxBus ≤ bus ∨ pcieMaxDev ≤ dev ∨ pcieMaxFunc ≤ func then s
  else if t.isNone then s
  else
    let ecamBase := findEcamBase t bus segment
    if ecamBase = 0 then s
    else wr s width (cfgAddress ecamBase bus dev func offset) (data % 2 ^ width.bits)

def valPcieGetBdfConfigAddr (t : Option (List PcieInfoBlock)) (bdf : Nat) : Nat :=
  let bus := pcieExtractBdfBus bdf
  let dev := pcieExtractBdfDev bdf
  let func := pcieExtractBdfFunc bdf
  let segment := pcieExtractBdfSeg bdf
  if pcieMaxBus ≤ bus ∨ pcieMaxDev ≤ dev ∨ pcieMaxFunc ≤ func then 0
  else if t.isNone then 0
  else
    let ecamBase := findEcamBase t bus segment
    if ecamBase = 0 then 0
    else cfgAddress ecamBase bus dev func 0

/-! ## Windows -/

/-- The first and the last address of a window, the latter not included. -/
def PcieInfoBlock.windowStart (b : PcieInfoBlock) : Nat := b.ecamBase + b.startBusNum * 2 ^ 20
def PcieInfoBlock.windowEnd (b : PcieInfoBlock) : Nat := b.ecamBase + (b.endBusNum + 1) * 2 ^ 20

def PcieInfoBlock.Holds (b : PcieInfoBlock) (bdf : Nat) : Prop :=
  b.segmentNum = pcieExtractBdfSeg bdf ∧ b.startBusNum ≤ pcieExtractBdfBus bdf ∧
    pcieExtractBdfBus bdf ≤ b.endBusNum

/-- Windows do not share a bus of a segment, nor an address. -/
structure EcamWindows (blocks : List PcieInfoBlock) : Prop where
  buses : blocks.Pairwise (fun a b => a.segmentNum = b.segmentNum → ∀ bus,
    ¬ (a.startBusNum ≤ bus ∧ bus ≤ a.endBusNum ∧ b.startBusNum ≤ bus ∧ bus ≤ b.endBusNum))
  memory : blocks.Pairwise (fun a b => ∀ address,
    ¬ (a.windowStart ≤ address ∧ address < a.windowEnd ∧
      b.windowStart ≤ address ∧ address < b.windowEnd))
  fits : ∀ b ∈ blocks, b.windowEnd ≤ 2 ^ 64

structure Rejects (t : Option (List PcieInfoBlock)) (bdf offset : Nat) : Prop where
  read : ∀ rd width, valPcieReadCfgWidth t rd bdf offset width = none
  write : ∀ {σ : Type} (hw : CfgHw σ) s data, valPcieWriteCfg hw t s bdf offset data = s
  writeWidth : ∀ {σ : Type} (wr : MmioWrite σ) s data width,
    valPcieWriteCfgWidth wr t s bdf offset data width = s
  configAddr : valPcieGetBdfConfigAddr t bdf = 0

structure Accesses (t : Option (List PcieInfoBlock)) (bdf offset page : Nat) : Prop where
  read : ∀ rd width,
    valPcieReadCfgWidth t rd bdf offset width = some (rd width (page + offset) % 2 ^ width.bits)
  write : ∀ {σ : Type} (hw : CfgHw σ) s data,
    valPcieWriteCfg hw t s bdf offset data = hw.write s (page + offset) data
  writeWidth : ∀ {σ : Type} (wr : MmioWrite σ) s data width,
    valPcieWriteCfgWidth wr t s bdf offset data width =
      wr s width (page + offset) (data % 2 ^ width.bits)
  configAddr : valPcieGetBdfConfigAddr t bdf = page
  ne_zero : page ≠ 0

section

variable {t : Option (List PcieInfoBlock)} {blocks : List PcieInfoBlock} {bdf offset bdf' : Nat}
  {b : PcieInfoBlock}

theorem rejects_of_not_mapped (offset : Nat) (h : ¬ Mapped t bdf) : Rejects t bdf offset := by
  by_cases hrange : pcieMaxBus ≤ pcieExtractBdfBus bdf ∨ pcieMaxDev ≤ pcieExtractBdfDev bdf ∨
      pcieMaxFunc ≤ pcieExtractBdfFunc bdf
  · exact ⟨fun _ _ => if_pos hrange, fun _ _ _ => if_pos hrange, fun _ _ _ _ => if_pos hrange,
      if_pos hrange⟩
  · have hbase : findEcamBase t (pcieExtractBdfBus bdf) (pcieExtractBdfSeg bdf) = 0 := by
      by_contra hne
      exact h ⟨by omega, by omega, hne⟩
    refine ⟨fun rd width => ?_, fun hw s data => ?_, fun wr s data width => ?_, ?_⟩
    · simp [valPcieReadCfgWidth, hbase]
    · simp [valPcieWriteCfg, hbase]
    · simp [valPcieWriteCfgWidth, hbase]
    · simp [valPcieGetBdfConfigAddr, hbase]

def pageOf (b : PcieInfoBlock) (bdf : Nat) : Nat :=
  b.ecamBase + pcieExtractBdfBus bdf * 2 ^ 20 + pcieExtractBdfDev bdf * 2 ^ 15 +
    pcieExtractBdfFunc bdf * 2 ^ 12

theorem pageOf_bounds (hb : b.Holds bdf) (hdev : pcieExtractBdfDev bdf < 32)
    (hfunc : pcieExtractBdfFunc bdf < 8) :
    b.windowStart ≤ pageOf b bdf ∧ pageOf b bdf + 4096 ≤ b.windowEnd := by
  obtain ⟨-, hs, he⟩ := hb
  rw [PcieInfoBlock.windowStart, PcieInfoBlock.windowEnd, pageOf]
  omega

theorem accesses_pageOf (hmap : Mapped (some blocks) bdf) (hoff : offset < 4096)
    (hb : b.Holds bdf) (hfit : b.windowEnd ≤ 2 ^ 64)
    (hbase : findEcamBase (some blocks) (pcieExtractBdfBus bdf) (pcieExtractBdfSeg bdf) =
      b.ecamBase) :
    Accesses (some blocks) bdf offset (pageOf b bdf) := by
  have hrange := hmap.inRange
  obtain ⟨hdev, hfunc, hne⟩ := hmap
  have hbus : pcieExtractBdfBus bdf < 256 := by
    rw [pcieExtractBdfBus_eq]
    exact Nat.mod_lt _ (by decide)
  have hdev' : pcieExtractBdfDev bdf < 32 := hdev
  have hfunc' : pcieExtractBdfFunc bdf < 8 := hfunc
  have hbound := pageOf_bounds hb hdev' hfunc'
  rw [hbase] at hne
  have haddr : ∀ o < 4096, cfgAddress b.ecamBase (pcieExtractBdfBus bdf) (pcieExtractBdfDev bdf)
      (pcieExtractBdfFunc bdf) o = pageOf b bdf + o := by
    intro o ho
    have hcfg : pcieExtractBdfBus bdf * 32 * 8 * 4096 + pcieExtractBdfDev bdf * 8 * 4096 +
        pcieExtractBdfFunc bdf * 4096 < 2 ^ 32 := by omega
    rw [cfgAddress, pcieMaxDev, pcieMaxFunc, Nat.mod_eq_of_lt]
    · rw [pageOf]
      omega
    · rw [pageOf] at hbound
      omega
  refine ⟨fun rd width => ?_, fun hw s data => ?_, fun wr s data width => ?_, ?_, ?_⟩
  · simp [valPcieReadCfgWidth, hrange, hbase, hne, haddr offset hoff]
  · simp [valPcieWriteCfg, hrange, hbase, hne, haddr offset hoff]
  · simp [valPcieWriteCfgWidth, hrange, hbase, hne, haddr offset hoff]
  · simp [valPcieGetBdfConfigAddr, hrange, hbase, hne, haddr 0 (by decide)]
  · rw [pageOf]
    omega

theorem pageOf_inj (h : EcamWindows blocks) {b' : PcieInfoBlock} (hb : b ∈ blocks)
    (hb' : b' ∈ blocks) {offset' : Nat} (hbdf : bdf < 2 ^ 32) (hbdf' : bdf' < 2 ^ 32)
    (hoff : offset < 4096) (hoff' : offset' < 4096) (hh : b.Holds bdf) (hh' : b'.Holds bdf')
    (hdev : pcieExtractBdfDev bdf < 32) (hdev' : pcieExtractBdfDev bdf' < 32)
    (hfunc : pcieExtractBdfFunc bdf < 8) (hfunc' : pcieExtractBdfFunc bdf' < 8)
    (heq : pageOf b bdf + offset = pageOf b' bdf' + offset') : bdf = bdf' ∧ offset = offset' := by
  have hbound := pageOf_bounds hh hdev hfunc
  have hbound' := pageOf_bounds hh' hdev' hfunc'
  have hsame := Base.eq_of_pairwise h.memory hb hb'
    (fun hdis => hdis (pageOf b bdf + offset) (by omega))
    (fun hdis => hdis (pageOf b bdf + offset) (by omega))
  subst hsame
  have hseg := hh.1.symm.trans hh'.1
  rw [pageOf, pageOf] at heq
  rw [pcieExtractBdfSeg_eq, pcieExtractBdfSeg_eq] at hseg
  rw [pcieExtractBdfDev_eq] at hdev hdev'
  rw [pcieExtractBdfFunc_eq] at hfunc hfunc'
  rw [pcieExtractBdfBus_eq, pcieExtractBdfBus_eq, pcieExtractBdfDev_eq, pcieExtractBdfDev_eq,
    pcieExtractBdfFunc_eq, pcieExtractBdfFunc_eq] at heq
  omega

section

variable (h : EcamWindows (t.getD []))
include h

theorem exists_accesses (hmap : Mapped t bdf) :
    ∃ b ∈ t.getD [], b.Holds bdf ∧ ∀ offset < 4096, Accesses t bdf offset (pageOf b bdf) := by
  cases t with
  | none => exact absurd (findEcamBase_none _ _) hmap.2.2
  | some blocks =>
    obtain ⟨b, hb, hseg, hs, he, hbase⟩ := findEcamBase_eq_of_ne_zero hmap.2.2
    exact ⟨b, hb, ⟨hseg, hs, he⟩, fun offset hoff =>
      accesses_pageOf hmap hoff ⟨hseg, hs, he⟩ (h.fits b hb) hbase⟩

theorem exists_page (hmap : Mapped t bdf) :
    ∃ b ∈ t.getD [], b.Holds bdf ∧ pageOf b bdf + 4096 ≤ 2 ^ 64 ∧
      ∀ offset, regAddress t bdf offset = (pageOf b bdf + offset) % 2 ^ 64 := by
  obtain ⟨b, hb, hh, hacc⟩ := exists_accesses h hmap
  have hfit := (pageOf_bounds hh hmap.1 hmap.2.1).2
  have hend := h.fits b hb
  have hpage : regAddress t bdf 0 = pageOf b bdf := by
    have hread := (hacc 0 (by decide)).configAddr
    simp only [valPcieGetBdfConfigAddr, hmap.inRange, hmap.isNone_eq_false, hmap.2.2] at hread
    exact hread
  refine ⟨b, hb, hh, by omega, fun offset => ?_⟩
  rw [← hpage, regAddress, regAddress, cfgAddress, cfgAddress]
  omega

/-- Registers of two functions have different addresses, also when the first lies just
behind its page and the second is not at the start of its own. -/
theorem regAddress_apart {x y : Nat} (hbdf : bdf < 2 ^ 32)
    (hbdf' : bdf' < 2 ^ 32) (hmap : Mapped t bdf) (hmap' : Mapped t bdf') (hne : bdf ≠ bdf')
    (hx : x < 4100) (hy : y < 4096) (hxy : x < 4096 ∨ 4 ≤ y) :
    regAddress t bdf x ≠ regAddress t bdf' y := by
  obtain ⟨b, hb, hh, hfit, haddr⟩ := exists_page h hmap
  obtain ⟨b', hb', hh', hfit', haddr'⟩ := exists_page h hmap'
  have happart : ∀ o < 4096, ∀ o' < 4096, pageOf b bdf + o ≠ pageOf b' bdf' + o' := by
    intro o ho o' ho' heq
    exact hne (pageOf_inj h hb hb' hbdf hbdf' ho ho' hh hh' hmap.1 hmap'.1 hmap.2.1 hmap'.2.1 heq).1
  have hlow := happart 0 (by decide)
  have hhigh := fun o ho => happart o ho 0 (by decide)
  have hdis : pageOf b bdf + 4096 ≤ pageOf b' bdf' ∨ pageOf b' bdf' + 4096 ≤ pageOf b bdf := by
    by_contra hnot
    rcases le_total (pageOf b bdf) (pageOf b' bdf') with hle | hle
    · exact hhigh (pageOf b' bdf' - pageOf b bdf) (by omega) (by omega)
    · exact hlow (pageOf b bdf - pageOf b' bdf') (by omega) (by omega)
  rw [haddr, haddr']
  omega

end

/-- The function is in a window that has a base. -/
def HasWindow (t : Option (List PcieInfoBlock)) (bdf : Nat) : Prop :=
  pcieExtractBdfDev bdf < 32 ∧ pcieExtractBdfFunc bdf < 8 ∧
    ∃ b ∈ t.getD [], b.Holds bdf ∧ b.ecamBase ≠ 0

/-- The bytes an access at an address reaches.  The UEFI layer clears the two low bits of the
address of a 32-bit read. -/
inductive Reaches : PciWidth → Nat → Nat → Prop
  | plain {width : PciWidth} {address a : Nat} (h : address ≤ a ∧ a < address + width.bits / 8) :
    Reaches width address a
  | cleared {address a : Nat} (h : address / 4 * 4 ≤ a ∧ a < address / 4 * 4 + 4) :
    Reaches .uint32 address a

/-- The access ends in the page where it starts, and one of 32 bits is aligned. -/
def StaysInPage (page offset : Nat) (width : PciWidth) : Prop :=
  offset + width.bits / 8 ≤ 4096 ∧ (width = .uint32 → 4 ∣ page + offset)

theorem Reaches.bounds {page a : Nat} {width : PciWidth} (hstay : StaysInPage page offset width)
    (h : Reaches width (page + offset) a) :
    page + offset ≤ a ∧ a < page + offset + width.bits / 8 := by
  cases h with
  | plain h => exact h
  | cleared h =>
    rw [Nat.div_mul_cancel (hstay.2 rfl)] at h
    exact h

theorem mapped_iff (h : EcamWindows (t.getD [])) : Mapped t bdf ↔ HasWindow t bdf := by
  cases t with
  | none => exact iff_of_false (fun h => h.2.2 (findEcamBase_none _ _)) (by simp [HasWindow])
  | some blocks =>
    constructor
    · intro hmap
      obtain ⟨b, hb, hseg, hs, he, hbase⟩ := findEcamBase_eq_of_ne_zero hmap.2.2
      exact ⟨hmap.1, hmap.2.1, b, hb, ⟨hseg, hs, he⟩, hbase ▸ hmap.2.2⟩
    · rintro ⟨hdev, hfunc, b, hb, ⟨hseg, hs, he⟩, hne⟩
      have hbase : findEcamBase (some blocks) _ _ = _ := findEcamBase_of_mem h.buses hb hs he
      exact ⟨hdev, hfunc, by rwa [← hseg, hbase]⟩

/-- A BDF is rejected exactly outside of the windows.  Inside, the accessors agree on the page, and
accesses that end in their page stay in the window and share a byte only if they overlap. -/
theorem valPcie_ecam_accessors (h : EcamWindows (t.getD [])) :
    (∀ bdf, (∀ offset, Rejects t bdf offset) ↔ ¬ HasWindow t bdf) ∧
    (∀ bdf, HasWindow t bdf → ∃ b ∈ t.getD [], b.Holds bdf ∧ ∃ page,
      b.windowStart ≤ page ∧ page + 4096 ≤ b.windowEnd ∧ ∀ offset < 4096,
        Accesses t bdf offset page ∧ ∀ width a, StaysInPage page offset width →
          Reaches width (page + offset) a → page + offset ≤ a ∧ a < page + 4096) ∧
    ∀ bdf < 2 ^ 32, ∀ bdf' < 2 ^ 32, ∀ offset offset' page page' width width' a,
      Accesses t bdf offset page → Accesses t bdf' offset' page' →
      StaysInPage page offset width → StaysInPage page' offset' width' →
      Reaches width (page + offset) a → Reaches width' (page' + offset') a →
        bdf = bdf' ∧ offset < offset' + width'.bits / 8 ∧ offset' < offset + width.bits / 8 := by
  have hmapped : ∀ {bdf offset page}, Accesses t bdf offset page → Mapped t bdf := by
    intro bdf offset page ha
    by_contra hnot
    exact ha.ne_zero (ha.configAddr.symm.trans (rejects_of_not_mapped offset hnot).configAddr)
  refine ⟨fun bdf => ?_, fun bdf hin => ?_, ?_⟩
  · rw [← mapped_iff h]
    refine ⟨fun hrej hmap => ?_, fun hmap offset => rejects_of_not_mapped offset hmap⟩
    obtain ⟨b, -, -, hacc⟩ := exists_accesses h hmap
    have hzero := (hacc 0 (by decide)).configAddr.symm.trans (hrej 0).configAddr
    exact (hacc 0 (by decide)).ne_zero hzero
  · have hmap := (mapped_iff h).mpr hin
    obtain ⟨b, hb, hh, hacc⟩ := exists_accesses h hmap
    obtain ⟨hlo, hhi⟩ := pageOf_bounds hh hmap.1 hmap.2.1
    refine ⟨b, hb, hh, pageOf b bdf, hlo, hhi, fun offset hoff => ⟨hacc offset hoff, ?_⟩⟩
    intro width a hstay hreach
    have hbound := hreach.bounds hstay
    have hend := hstay.1
    omega
  · intro bdf hbdf bdf' hbdf' offset offset' page page' width width' a ha ha' hs hs' hr hr'
    have hmap := hmapped ha
    have hmap' := hmapped ha'
    obtain ⟨b, hb, hh, hacc⟩ := exists_accesses h hmap
    obtain ⟨b', hb', hh', hacc'⟩ := exists_accesses h hmap'
    have hpage := ha.configAddr.symm.trans (hacc 0 (by decide)).configAddr
    have hpage' := ha'.configAddr.symm.trans (hacc' 0 (by decide)).configAddr
    have hbound := hr.bounds hs
    have hbound' := hr'.bounds hs'
    have hend := hs.1
    have hend' := hs'.1
    have hoff : a - page < 4096 := by omega
    have hoff' : a - page' < 4096 := by omega
    have hinj := pageOf_inj h hb hb' hbdf hbdf' hoff hoff' hh hh' hmap.1 hmap'.1 hmap.2.1 hmap'.2.1
      (by omega)
    omega

theorem ecamWindows_two :
    EcamWindows [⟨0x30000000, 0, 0, 0⟩, ⟨0x40000000, 0, 1, 2⟩] := by
  refine ⟨?_, ?_, by decide⟩
  · refine List.Pairwise.cons (fun b hb _ bus hbus => ?_) (pairwise_singleton _ _)
    rw [mem_singleton.mp hb] at hbus
    obtain ⟨-, h1, h2, -⟩ := hbus
    exact absurd (h2.trans h1) (by decide)
  · refine List.Pairwise.cons (fun b hb address haddr => ?_) (pairwise_singleton _ _)
    rw [mem_singleton.mp hb] at haddr
    obtain ⟨-, h1, h2, -⟩ := haddr
    exact absurd (h2.trans_lt h1) (by decide)

/-- Two windows of one segment: the function 1:0.0 is in the second one. -/
theorem valPcie_ecam_accessors_two :
    ¬ (∀ offset, Rejects (some [⟨0x30000000, 0, 0, 0⟩, ⟨0x40000000, 0, 1, 2⟩]) 0x10000 offset) ∧
      valPcieGetBdfConfigAddr (some [⟨0x30000000, 0, 0, 0⟩, ⟨0x40000000, 0, 1, 2⟩]) 0x10000 =
        0x40100000 := by
  refine ⟨fun hrej => ?_, by decide⟩
  refine ((valPcie_ecam_accessors (t := some _) ecamWindows_two).1 0x10000).mp hrej ?_
  exact ⟨by decide, by decide, _, mem_cons_of_mem _ mem_cons_self,
    ⟨by decide, by decide, by decide⟩, by decide⟩

/-- Two bytes at offset 4095 of 0:0.0 reach into 0:0.1, and those of 0:31.7 leave the window. -/
theorem valPcie_ecam_past_page :
    Accesses (some [⟨0x30000000, 0, 0, 0⟩]) 0 4095 0x30000000 ∧
      Accesses (some [⟨0x30000000, 0, 0, 0⟩]) 1 0 0x30001000 ∧
      Reaches .uint16 (0x30000000 + 4095) 0x30001000 ∧ Reaches .uint8 (0x30001000 + 0) 0x30001000 ∧
      Accesses (some [⟨0x30000000, 0, 0, 0⟩]) 0x1f07 4095 0x300ff000 ∧
      Reaches .uint16 (0x300ff000 + 4095) (PcieInfoBlock.windowEnd ⟨0x30000000, 0, 0, 0⟩) := by
  have hacc {bdf offset : Nat} (hoff : offset < 4096)
      (hmap : Mapped (some [⟨0x30000000, 0, 0, 0⟩]) bdf) :
      Accesses (some [⟨0x30000000, 0, 0, 0⟩]) bdf offset (pageOf ⟨0x30000000, 0, 0, 0⟩ bdf) := by
    obtain ⟨b, hb, -, h⟩ := exists_accesses
      ⟨pairwise_singleton _ _, pairwise_singleton _ _, by decide⟩ hmap
    exact mem_singleton.mp hb ▸ h offset hoff
  exact ⟨hacc (by decide) (by decide), hacc (by decide) (by decide), .plain (by decide),
    .plain (by decide), hacc (by decide) (by decide), .plain (by decide)⟩

end

end ServerSoc.Pcie
