/-
Test iom004: an IOMMU without root ports must have a device directory wide enough for its device
ids (test_os_iom004.c).

The other IOMMUs are compared with the first mapping that leads to them.  As in iom026 the last
write of the payload is PASS or SKIP whatever the checks said.
-/
import ServerSoc.Iommu.Governing
import ServerSoc.Val.Status

namespace ServerSoc.Tests.Iom004

open Memory Iommu Val Pcie

def testNum : Nat := 1200 + 4

def riscvIommuCapMsiflatMsk : Nat := 1 <<< 22
def msiflatEnable : Nat := 1 <<< 22

def ddtpLvl1BaseWidth : Nat := 7
def ddtpLvl2BaseWidth : Nat := 16
def ddtpLvl3BaseWidth : Nat := 24
def ddtpLvl1ExtendedWidth : Nat := 6
def ddtpLvl2ExtendedWidth : Nat := 15
def ddtpLvl3ExtendedWidth : Nat := 24

def rp : Nat := 1 <<< 0b0100

def checkIommuCapDdtpReg (regCap regDdtp maxDeviceid : Nat) : Nat :=
  let (ddtpLvl1Bit, ddtpLvl2Bit, ddtpLvl3Bit) :=
    if regCap &&& riscvIommuCapMsiflatMsk ≠ msiflatEnable then
      (ddtpLvl1BaseWidth, ddtpLvl2BaseWidth, ddtpLvl3BaseWidth)
    else (ddtpLvl1ExtendedWidth, ddtpLvl2ExtendedWidth, ddtpLvl3ExtendedWidth)
  let ddtpLvlBit :=
    if regDdtp &&& riscvIommuDdtpLvlMsk = riscvIommuDdtpLvl1 then ddtpLvl1Bit
    else if regDdtp &&& riscvIommuDdtpLvlMsk = riscvIommuDdtpLvl2 then ddtpLvl2Bit
    else if regDdtp &&& riscvIommuDdtpLvlMsk = riscvIommuDdtpLvl3 then ddtpLvl3Bit
    else 0
  if 2 <<< ddtpLvlBit < maxDeviceid then 0 else 1

def checkGoverningIommuInfo (bus : RegBus) (g : Option Mem) (iommuIndex iommuOffset : Nat) : Nat :=
  let iommuNum := valIommuGetNum g
  if iommuNum ≤ iommuIndex then 0
  else
    let found := (List.range iommuNum).findSome? (fun index =>
      if valIommuGetInfo g index .type ≠ typeIommu then
        (List.range (valIommuGetIdmapNum g index)).findSome? (fun idmapIndex =>
          if valIommuGetPciercPlatformInfo g index idmapIndex .destIommuOffset = iommuOffset then
            let destIdBase := valIommuGetPciercPlatformInfo g index idmapIndex .destIdBase
            let numIds := valIommuGetPciercPlatformInfo g index idmapIndex .numIds
            some (checkIommuCapDdtpReg
              (valIommuReadIommuReg bus g iommuIndex riscvIommuRegCap 2)
              (valIommuReadIommuReg bus g iommuIndex riscvIommuRegDdtp 2)
              ((destIdBase + numIds) % 2 ^ 32))
          else none)
      else none)
    found.getD 0xff

/-- `ret`, `iommu_index` and `iommu_rp_flag` in the loop over the BDF table. -/
structure Locals where
  ret : Nat
  iommuIndex : Nat
  iommuRpFlag : Nat → Nat

def flagRootPort (g : Option Mem) (portType : Nat → Nat) (s : Locals) (bdf : Nat) : Locals :=
  if portType bdf = rp then
    let r := valIommuCheckGoverningIommu g bdf s.iommuIndex
    let s := { s with ret := r.1, iommuIndex := r.2 }
    if s.ret = 1 then { s with iommuRpFlag := Function.update s.iommuRpFlag s.iommuIndex 1 } else s
  else s

def checkIommu (bus : RegBus) (g : Option Mem) (iommuRpFlag : Nat → Nat) (r : Nat × Nat)
    (index : Nat) : Nat × Nat :=
  if iommuRpFlag index = 1 then r
  else
    let iommuOffset := valIommuGetInfo g index .iommuOffset
    let ret := checkGoverningIommuInfo bus g index iommuOffset
    (ret, if ret = 0 then resultFail testNum 1 else r.2)

/-- The status word of the hart after the payload.  `bdfs` is the BDF table and
`portType` what `val_pcie_device_port_type` finds. -/
def payload (bus : RegBus) (g : Option Mem) (bdfs : List Nat) (portType : Nat → Nat)
    (uninit status : Nat) : Nat :=
  let s := bdfs.foldl (flagRootPort g portType) ⟨0xff, uninit, fun _ => 0⟩
  let r := (List.range (valIommuGetNum g)).foldl (checkIommu bus g s.iommuRpFlag) (s.ret, status)
  if r.1 = 1 then resultPass testNum 1 else resultSkip testNum 1

/-! ## The violation the test looks for -/

/-- The device id bits of a directory mode, with and without `MSI_FLAT`. -/
def deviceIdBits (msiFlat : Bool) (mode : Nat) : Option Nat :=
  if mode = riscvIommuDdtpLvl1 then some (if msiFlat then 6 else 7)
  else if mode = riscvIommuDdtpLvl2 then some (if msiFlat then 15 else 16)
  else if mode = riscvIommuDdtpLvl3 then some 24
  else none

def hasMsiFlat (bus : RegBus) (g : Option Mem) (j : Nat) : Bool :=
  (valIommuReadIommuReg bus g j riscvIommuRegCap 2).testBit 22

def GovernsRootPort (g : Option Mem) (bdfs : List Nat) (portType : Nat → Nat) (j : Nat) : Prop :=
  ∃ bdf ∈ bdfs, portType bdf = rp ∧ Governs g (pcieExtractBdfSeg bdf)
    (pcieExtractBdfBus bdf * 256 + pcieExtractBdfDev bdf * 8 + pcieExtractBdfFunc bdf) j

/-- IOMMU `j` governs no root port and a mapping to it ends above its device ids. -/
def TooNarrow (bus : RegBus) (g : Option Mem) (bdfs : List Nat) (portType : Nat → Nat)
    (j : Nat) : Prop :=
  ¬ GovernsRootPort g bdfs portType j ∧
    ∃ k, k < valIommuGetNum g ∧ valIommuGetInfo g k .type ≠ typeIommu ∧
      ∃ m, m < valIommuGetIdmapNum g k ∧ IommuAt g (tableMapping g k m).destIommuOffset j ∧
        ∃ bits, deviceIdBits (hasMsiFlat bus g j) (ddtpMode bus g j) = some bits ∧
          2 ^ bits ≤ (tableMapping g k m).destDeviceIdBase + (tableMapping g k m).idNumber - 1

/-! ## No run ends with FAIL -/

theorem isTestFail_payload (bus : RegBus) (g : Option Mem) (bdfs : List Nat)
    (portType : Nat → Nat) (uninit status : Nat) :
    isTestFail (payload bus g bdfs portType uninit status) = false := by
  unfold payload
  dsimp only
  split <;> decide

theorem payload_reports_tooNarrow_iff (bus : RegBus) (g : Option Mem) (bdfs : List Nat)
    (portType : Nat → Nat) (uninit status : Nat) :
    ((∃ j, TooNarrow bus g bdfs portType j) →
        isTestFail (payload bus g bdfs portType uninit status) = true) ↔
      ¬ ∃ j, TooNarrow bus g bdfs portType j := by
  rw [isTestFail_payload]
  constructor
  · intro h hj
    exact absurd (h hj) (by decide)
  · intro h hj
    exact absurd hj h

/-! ## A platform device with too many ids -/

def wideDeviceTable : Mem :=
  storeFields (fun _ => 0) 0 [⟨0, 4, 2⟩, ⟨entryBase 0 + offIommuOffset, 4, 48⟩,
    ⟨entryBase 1 + offType, 1, typePlatformDevice⟩, ⟨entryBase 1 + offIdmapNum, 2, 1⟩,
    ⟨idMappingBase 1 0 + 4, 4, 0x200⟩, ⟨idMappingBase 1 0 + 12, 4, 48⟩]

def oneLevelBus : RegBus := ⟨fun _ => 2, fun _ => 2, fun _ => 0, fun _ _ => 0⟩

theorem payload_wideDevice :
    TooNarrow oneLevelBus (some wideDeviceTable) [] (fun _ => 0) 0 ∧
      payload oneLevelBus (some wideDeviceTable) [] (fun _ => 0) 0 (resultPending testNum) =
        resultSkip testNum 1 ∧
      isTestFail (payload oneLevelBus (some wideDeviceTable) [] (fun _ => 0) 0
        (resultPending testNum)) = false := by
  refine ⟨⟨?_, 1, by decide, by decide, 0, by decide, by decide, 7, by decide, by decide⟩,
    by decide, by decide⟩
  rintro ⟨bdf, hmem, -⟩
  exact absurd hmem List.not_mem_nil

end ServerSoc.Tests.Iom004
