/-
The IOMMU info table, its accessors and the accesses to IOMMU registers (acs_iommu.c).

`iommu_info[]` and `id_mapping_table[]` are both flexible array members, so the mappings of an entry
lie in the entries after it.  The table is kept as bytes, and `none` is the NULL pointer.
-/
import ServerSoc.Memory.Bytes

namespace ServerSoc.Iommu

open Memory

/-! ## Layout -/

/-- `sizeof(IOMMU_INFO_ENTRY)`: the flexible array contributes nothing. -/
def entrySize : Nat := 48

/-- Address of `iommu_info[k]`.  The 4-byte header is padded to the alignment of
the 8-byte fields of an entry. -/
def entryBase (k : Nat) : Nat := 8 + entrySize * k

def offIommuNum : Nat := 0
def offType : Nat := 4
def offId : Nat := 6
def offIommuOffset : Nat := 8
def offHardwareId : Nat := 16
def offBaseAddress : Nat := 24
def offFlags : Nat := 32
def offPcieSeg : Nat := 36
def offPcieBdf : Nat := 38
def offIdmapOffset : Nat := 40
def offIdmapNum : Nat := 42
def offPcieRcSeg : Nat := 44
def offIdMappingTable : Nat := 48

def idMappingSize : Nat := 16

def idMappingBase (k m : Nat) : Nat := entryBase k + offIdMappingTable + idMappingSize * m

def typeIommu : Nat := 0
def typePcieRootComplex : Nat := 1
def typePlatformDevice : Nat := 2

/-! ## Accessors -/

inductive InfoType where
  | type | baseAddress | flags | pcieSeg | pcieBdf | iommuOffset
  deriving DecidableEq, Repr

inductive PciercPlatformInfo where
  | pcieRcSeg | sourceIdBase | numIds | destIdBase | destIommuOffset
  deriving DecidableEq, Repr

def valIommuGetNum : Option Mem → Nat
  | none => 0
  | some t => load t 0 4

def valIommuGetIdmapNum (g : Option Mem) (index : Nat) : Nat :=
  match g with
  | none => 0
  | some t => load t (entryBase index + offIdmapNum) 2

def valIommuGetInfo (g : Option Mem) (index : Nat) (infoType : InfoType) : Nat :=
  match g with
  | none => 0
  | some t =>
    match infoType with
    | .type => load t (entryBase index + offType) 1
    | .baseAddress => load t (entryBase index + offBaseAddress) 8
    | .flags => load t (entryBase index + offFlags) 4
    | .pcieSeg => load t (entryBase index + offPcieSeg) 2
    | .pcieBdf => load t (entryBase index + offPcieBdf) 2
    | .iommuOffset => load t (entryBase index + offIommuOffset) 4

def valIommuGetPciercPlatformInfo (g : Option Mem) (index idmapIndex : Nat)
    (infoType : PciercPlatformInfo) : Nat :=
  match g with
  | none => 0
  | some t =>
    match infoType with
    | .pcieRcSeg => load t (entryBase index + offPcieRcSeg) 2
    | .sourceIdBase => load t (idMappingBase index idmapIndex) 4
    | .numIds => load t (idMappingBase index idmapIndex + 4) 4
    | .destIdBase => load t (idMappingBase index idmapIndex + 8) 4
    | .destIommuOffset => load t (idMappingBase index idmapIndex + 12) 4

theorem idMappingBase_eq (k m : Nat) :
    idMappingBase k m = entryBase (k + 1 + m / 3) + 16 * (m % 3) := by
  unfold idMappingBase entryBase entrySize offIdMappingTable idMappingSize
  omega

/-! ## Registers

An IOMMU is a platform device with a register page of its own or a PCIe function with the registers
behind a BAR.  What the accesses return is a parameter, `RegBus`. -/

structure RegBus where
  mmioRead : Nat → Nat
  mmioRead64 : Nat → Nat
  mmioBar : Nat → Nat
  barMemRead : Nat → Nat → Nat

def valIommuReadIommuReg (bus : RegBus) (g : Option Mem) (index offset num : Nat) : Nat :=
  if g.isNone then 0
  else if 1024 < offset ∨ 2 < num then 0
  else if valIommuGetInfo g index .type = typeIommu then
    let flags := valIommuGetInfo g index .flags
    if flags &&& 0x01 = 0 then
      let baseAddr := valIommuGetInfo g index .baseAddress
      if num = 1 then bus.mmioRead (baseAddr + offset) % 2 ^ 32
      else if num = 2 then bus.mmioRead64 (baseAddr + offset) % 2 ^ 64
      else 0
    else
      let pcieSeg := valIommuGetInfo g index .pcieSeg
      let pcieBdf := valIommuGetInfo g index .pcieBdf
      let bdf := (pcieSeg <<< 24 ||| (pcieBdf &&& 0xff00) <<< 8 ||| (pcieBdf &&& 0x00f8) <<< 5 |||
        (pcieBdf &&& 0x0007)) % 2 ^ 32
      let baseAddr := bus.mmioBar bdf
      if num = 1 then bus.barMemRead bdf (baseAddr + offset) % 2 ^ 32
      else if num = 2 then
        let datalow := bus.barMemRead bdf (baseAddr + offset)
        let datahigh := bus.barMemRead bdf (baseAddr + offset + 4)
        (datahigh &&& 0xffffffff) <<< 32 ||| (datalow &&& 0xffffffff)
      else 0
  else 0

structure RegStore (σ : Type) where
  mmioWrite : Nat → Nat → σ → σ
  mmioWrite64 : Nat → Nat → σ → σ
  mmioBar : Nat → Nat
  barMemWrite : Nat → Nat → Nat → σ → σ

def valIommuWriteIommuReg {σ : Type} (bus : RegStore σ) (g : Option Mem)
    (index offset num data : Nat) (s : σ) : σ :=
  if g.isNone then s
  else if 1024 < offset ∨ 2 < num then s
  else if valIommuGetInfo g index .type = typeIommu then
    let flags := valIommuGetInfo g index .flags
    if flags &&& 0x01 = 0 then
      let baseAddr := valIommuGetInfo g index .baseAddress
      if num = 1 then bus.mmioWrite (baseAddr + offset) (data % 2 ^ 32) s
      else if num = 2 then bus.mmioWrite64 (baseAddr + offset) data s
      else s
    else
      let pcieSeg := valIommuGetInfo g index .pcieSeg
      let pcieBdf := valIommuGetInfo g index .pcieBdf
      let bdf := (pcieSeg <<< 24 ||| (pcieBdf &&& 0xff00) <<< 8 ||| (pcieBdf &&& 0x00f8) <<< 5 |||
        (pcieBdf &&& 0x0007)) % 2 ^ 32
      let baseAddr := bus.mmioBar bdf
      if num = 1 then bus.barMemWrite bdf (baseAddr + offset) (data % 2 ^ 32) s
      else if num = 2 then
        bus.barMemWrite bdf (baseAddr + offset + 4) ((data &&& 0xffffffff00000000) >>> 32)
          (bus.barMemWrite bdf (baseAddr + offset) (data % 2 ^ 32) s)
      else s
  else s

/-! ## The device directory table pointer -/

def riscvIommuRegCap : Nat := 0x0
def riscvIommuRegDdtp : Nat := 0x10

def riscvIommuDdtpLvlMsk : Nat := 0xf
def riscvIommuDdtpLvl1 : Nat := 2
def riscvIommuDdtpLvl2 : Nat := 3
def riscvIommuDdtpLvl3 : Nat := 4

def ddtpMode (bus : RegBus) (g : Option Mem) (index : Nat) : Nat :=
  valIommuReadIommuReg bus g index riscvIommuRegDdtp 2 &&& riscvIommuDdtpLvlMsk

end ServerSoc.Iommu
