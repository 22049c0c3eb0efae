/-
Configuration space reads through the ECAM (acs_pcie.c).

What a memory-mapped read returns is given by `MmioRead`, so every content of the configuration
space is some `MmioRead`.
-/
import ServerSoc.Base.Bits

namespace ServerSoc.Pcie

open Base

/-! ## Packed addresses (val/include/bsa_acs_pcie.h)

Segment, bus, device and function take one byte each, so a segment above 255 does
not fit and is cut. -/

def pcieExtractBdfSeg (bdf : Nat) : Nat := (bdf >>> 24) &&& 0xFF

def pcieExtractBdfBus (bdf : Nat) : Nat := (bdf >>> 16) &&& 0xFF

def pcieExtractBdfDev (bdf : Nat) : Nat := (bdf >>> 8) &&& 0xFF

def pcieExtractBdfFunc (bdf : Nat) : Nat := bdf &&& 0xFF

/-- `PCIE_CREATE_BDF`, assigned to a `uint32_t`. -/
def pcieCreateBdf (seg bus dev func : Nat) : Nat :=
  (seg <<< 24 ||| (bus &&& 0xFF) <<< 16 ||| (dev &&& 0xFF) <<< 8 ||| func) % 2 ^ 32

theorem pcieExtractBdfSeg_eq (bdf : Nat) : pcieExtractBdfSeg bdf = bdf / 2 ^ 24 % 256 :=
  shiftRight_and bdf 8 24

theorem pcieExtractBdfBus_eq (bdf : Nat) : pcieExtractBdfBus bdf = bdf / 2 ^ 16 % 256 :=
  shiftRight_and bdf 8 16

theorem pcieExtractBdfDev_eq (bdf : Nat) : pcieExtractBdfDev bdf = bdf / 2 ^ 8 % 256 :=
  shiftRight_and bdf 8 8

theorem pcieExtractBdfFunc_eq (bdf : Nat) : pcieExtractBdfFunc bdf = bdf % 256 := and_low bdf 8

theorem pcieCreateBdf_eq (seg bus dev : Nat) {func : Nat} (hf : func < 256) :
    pcieCreateBdf seg bus dev func =
      seg % 256 * 2 ^ 24 + bus % 256 * 2 ^ 16 + dev % 256 * 2 ^ 8 + func := by
  have hb : bus &&& 0xFF = bus % 256 := and_low bus 8
  have hd : dev &&& 0xFF = dev % 256 := and_low dev 8
  have hdf : (dev % 256) <<< 8 ||| func = dev % 256 * 2 ^ 8 + func := shiftLeft_or hf
  have hbdf : (bus % 256) <<< 16 ||| (dev % 256 * 2 ^ 8 + func) =
      bus % 256 * 2 ^ 16 + (dev % 256 * 2 ^ 8 + func) := shiftLeft_or (by omega)
  have hall : seg <<< 24 ||| (bus % 256 * 2 ^ 16 + (dev % 256 * 2 ^ 8 + func)) =
      seg * 2 ^ 24 + (bus % 256 * 2 ^ 16 + (dev % 256 * 2 ^ 8 + func)) := shiftLeft_or (by omega)
  rw [pcieCreateBdf, hb, hd, Nat.or_assoc, Nat.or_assoc, hdf, hbdf]
  omega

theorem pcieCreateBdf_fields {seg bus dev func : Nat} (hs : seg < 256) (hb : bus < 256)
    (hd : dev < 256) (hf : func < 256) :
    pcieExtractBdfSeg (pcieCreateBdf seg bus dev func) = seg ∧
      pcieExtractBdfBus (pcieCreateBdf seg bus dev func) = bus ∧
      pcieExtractBdfDev (pcieCreateBdf seg bus dev func) = dev ∧
      pcieExtractBdfFunc (pcieCreateBdf seg bus dev func) = func := by
  rw [pcieCreateBdf_eq seg bus dev hf, pcieExtractBdfSeg_eq, pcieExtractBdfBus_eq,
    pcieExtractBdfDev_eq, pcieExtractBdfFunc_eq]
  omega

theorem pcieExtractBdfSeg_lt (bdf : Nat) : pcieExtractBdfSeg bdf < 256 := by
  rw [pcieExtractBdfSeg_eq]
  exact Nat.mod_lt _ (by decide)

/-! ## The info table

It has one block for each ECAM window of the MCFG. -/

structure PcieInfoBlock where
  ecamBase : Nat
  segmentNum : Nat
  startBusNum : Nat
  endBusNum : Nat
  deriving DecidableEq, Repr

inductive PcieInfo where
  | numEcam | ecam | startBus | endBus | segment
  deriving DecidableEq, Repr

/-- `none` is the NULL `g_pcie_info_table`. -/
def valPcieGetInfo (t : Option (List PcieInfoBlock)) (type : PcieInfo) (index : Nat) : Nat :=
  match t with
  | none => 0
  | some blocks =>
    match blocks[index]? with
    | none => 0
    | some block =>
      match type with
      | .numEcam => blocks.length
      | .ecam => block.ecamBase
      | .startBus => block.startBusNum
      | .endBus => block.endBusNum
      | .segment => block.segmentNum

theorem valPcieGetInfo_numEcam (blocks : List PcieInfoBlock) :
    valPcieGetInfo (some blocks) .numEcam 0 = blocks.length := by
  cases blocks with
  | nil => rfl
  | cons block blocks => rfl

/-- The block an index stands for; past the end every field reads as zero. -/
def blockAt (blocks : List PcieInfoBlock) (index : Nat) : PcieInfoBlock :=
  blocks.getD index ⟨0, 0, 0, 0⟩

theorem valPcieGetInfo_blockAt (blocks : List PcieInfoBlock) (index : Nat) :
    valPcieGetInfo (some blocks) .ecam index = (blockAt blocks index).ecamBase ∧
    valPcieGetInfo (some blocks) .segment index = (blockAt blocks index).segmentNum ∧
    valPcieGetInfo (some blocks) .startBus index = (blockAt blocks index).startBusNum ∧
    valPcieGetInfo (some blocks) .endBus index = (blockAt blocks index).endBusNum := by
  cases h : blocks[index]? with
  | none => simp [valPcieGetInfo, blockAt, h]
  | some b => simp [valPcieGetInfo, blockAt, h]

/-! ## Reads -/

def pcieMaxBus : Nat := 256
def pcieMaxDev : Nat := 32
def pcieMaxFunc : Nat := 8

def pcieSuccess : Nat := 0x00000000
def pcieNoMapping : Nat := 0x10000001
def pcieCapNotFound : Nat := 0x10000010
def pcieUnknownResponse : Nat := 0xFFFFFFFF

inductive PciWidth where
  | uint8 | uint16 | uint32 | uint64
  deriving DecidableEq, Repr

def PciWidth.bits : PciWidth → Nat
  | .uint8 => 8
  | .uint16 => 16
  | .uint32 => 32
  | .uint64 => 64

abbrev MmioRead := PciWidth → Nat → Nat

def findEcamBase (t : Option (List PcieInfoBlock)) (bus segment : Nat) : Nat :=
  match (List.range (valPcieGetInfo t .numEcam 0)).find? (fun i =>
      valPcieGetInfo t .startBus i ≤ bus ∧ bus ≤ valPcieGetInfo t .endBus i ∧
        segment = valPcieGetInfo t .segment i) with
  | some i => valPcieGetInfo t .ecam i
  | none => 0

/-- Address of a register: 8 functions per device, 32 devices per bus and 4 KB each. -/
def cfgAddress (ecamBase bus dev func offset : Nat) : Nat :=
  let cfgAddr := bus * pcieMaxDev * pcieMaxFunc * 4096 + dev * pcieMaxFunc * 4096 + func * 4096
  (ecamBase + cfgAddr % 2 ^ 32 + offset) % 2 ^ 64

/-- `none` is `PCIE_NO_MAPPING`, which leaves `*data` as it was. -/
def valPcieReadCfgWidth (t : Option (List PcieInfoBlock)) (rd : MmioRead) (bdf offset : Nat)
    (width : PciWidth) : Option Nat :=
  let bus := pcieExtractBdfBus bdf
  let dev := pcieExtractBdfDev bdf
  let func := pcieExtractBdfFunc bdf
  let segment := pcieExtractBdfSeg bdf
  if pcieMaxBus ≤ bus ∨ pcieMaxDev ≤ dev ∨ pcieMaxFunc ≤ func then none
  else if t.isNone then none
  else
    let ecamBase := findEcamBase t bus segment
    if ecamBase = 0 then none
    else some (rd width (cfgAddress ecamBase bus dev func offset) % 2 ^ width.bits)

def valPcieReadCfg (t : Option (List PcieInfoBlock)) (rd : MmioRead) (bdf offset : Nat) :
    Option Nat :=
  valPcieReadCfgWidth t rd bdf offset .uint32

/-- The BDF has a function number in range and lies in a window with a base. -/
def Mapped (t : Option (List PcieInfoBlock)) (bdf : Nat) : Prop :=
  pcieExtractBdfDev bdf < pcieMaxDev ∧ pcieExtractBdfFunc bdf < pcieMaxFunc ∧
    findEcamBase t (pcieExtractBdfBus bdf) (pcieExtractBdfSeg bdf) ≠ 0

instance (t : Option (List PcieInfoBlock)) (bdf : Nat) : Decidable (Mapped t bdf) :=
  inferInstanceAs (Decidable (_ ∧ _))

def cfgWord (t : Option (List PcieInfoBlock)) (rd : MmioRead) (bdf offset : Nat) : Nat :=
  rd .uint32 (cfgAddress (findEcamBase t (pcieExtractBdfBus bdf) (pcieExtractBdfSeg bdf))
    (pcieExtractBdfBus bdf) (pcieExtractBdfDev bdf) (pcieExtractBdfFunc bdf) offset) % 2 ^ 32

theorem findEcamBase_none (bus segment : Nat) : findEcamBase none bus segment = 0 := rfl

variable {t : Option (List PcieInfoBlock)} {bdf : Nat}

section

variable (h : Mapped t bdf)
include h

theorem Mapped.inRange :
    ¬ (pcieMaxBus ≤ pcieExtractBdfBus bdf ∨ pcieMaxDev ≤ pcieExtractBdfDev bdf ∨
      pcieMaxFunc ≤ pcieExtractBdfFunc bdf) := by
  have hbus : pcieExtractBdfBus bdf < pcieMaxBus := by
    rw [pcieExtractBdfBus_eq]
    exact Nat.mod_lt _ (by decide)
  obtain ⟨hdev, hfunc, -⟩ := h
  omega

theorem Mapped.isNone_eq_false : t.isNone = false := by
  cases t with
  | none => exact absurd (findEcamBase_none _ _) h.2.2
  | some blocks => rfl

theorem valPcieReadCfgWidth_of_mapped (rd : MmioRead) (offset : Nat) (width : PciWidth) :
    ∃ v, valPcieReadCfgWidth t rd bdf offset width = some (v % 2 ^ width.bits) := by
  simp only [valPcieReadCfgWidth, h.inRange, h.isNone_eq_false, h.2.2]
  exact ⟨_, rfl⟩

theorem valPcieReadCfg_of_mapped (rd : MmioRead) (offset : Nat) :
    valPcieReadCfg t rd bdf offset = some (cfgWord t rd bdf offset) := by
  simp only [valPcieReadCfg, valPcieReadCfgWidth, h.inRange, h.isNone_eq_false, h.2.2]
  rfl

end

theorem valPcieReadCfg_of_not_mapped (h : ¬ Mapped t bdf) (rd : MmioRead) (offset : Nat) :
    valPcieReadCfg t rd bdf offset = none := by
  simp only [valPcieReadCfg, valPcieReadCfgWidth]
  split_ifs with hrange _ hbase
  · rfl
  · rfl
  · rfl
  · exact absurd ⟨by omega, by omega, hbase⟩ h

end ServerSoc.Pcie
