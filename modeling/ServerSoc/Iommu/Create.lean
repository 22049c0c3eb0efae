/-
Filling the IOMMU info table from the RISC-V IO Mapping Table (pal_uefi_acpi/src/pal_iommu.c).

The field offsets are those of the packed structures the UEFI patch adds to Acpi65.h.  `RimtAt img
ds` says that `img` is a well-formed table with the device structures `ds`, in this order.

Both loops of the source are `do ... while` loops over byte lengths read from the table.  They are
modelled with fuel, and `none` is a loop the fuel did not end.  A well-formed table with at least
one structure never runs out (`createEntries_eq`).
-/
import ServerSoc.Iommu.Table

namespace ServerSoc.Iommu

open Memory

/-! ## The table -/

/-- The fields of `EFI_ACPI_6_5_RIMT_ID_MAPPING_STRUCTURE` the info table keeps. -/
structure IdMapping where
  sourceIdBase : Nat
  idNumber : Nat
  destDeviceIdBase : Nat
  destIommuOffset : Nat
  deriving DecidableEq, Repr

/-- `sizeof(EFI_ACPI_6_5_RIMT_ID_MAPPING_STRUCTURE)`, with its trailing flags. -/
def rimtIdMappingSize : Nat := 20

def readIdMapping (img : Mem) (a : Nat) : IdMapping where
  sourceIdBase := load img a 4
  idNumber := load img (a + 4) 4
  destDeviceIdBase := load img (a + 8) 4
  destIommuOffset := load img (a + 12) 4

inductive DeviceInfo where
  | iommu (hardwareId baseAddress flags pcieSegmentNumber pcieBdf : Nat)
  | pcieRootComplex (pcieSegmentNumber idMappingOffset : Nat) (mappings : List IdMapping)
  | platformDevice (idMappingOffset : Nat) (mappings : List IdMapping)
  deriving DecidableEq, Repr

structure Device where
  id : Nat
  length : Nat
  info : DeviceInfo
  deriving DecidableEq, Repr

namespace Device

def type (d : Device) : Nat :=
  match d.info with
  | .iommu .. => typeIommu
  | .pcieRootComplex .. => typePcieRootComplex
  | .platformDevice .. => typePlatformDevice

def mappings (d : Device) : List IdMapping :=
  match d.info with
  | .iommu .. => []
  | .pcieRootComplex _ _ ms => ms
  | .platformDevice _ ms => ms

def idMappingOffset (d : Device) : Nat :=
  match d.info with
  | .iommu .. => 0
  | .pcieRootComplex _ off _ => off
  | .platformDevice off _ => off

def isBinding (d : Device) : Bool :=
  match d.info with
  | .iommu .. => false
  | _ => true

end Device

def IdMappingsAt (img : Mem) (a : Nat) : List IdMapping → Prop
  | [] => True
  | mp :: ms => readIdMapping img a = mp ∧ IdMappingsAt img (a + rimtIdMappingSize) ms

instance decidableIdMappingsAt (img : Mem) :
    ∀ (a : Nat) (ms : List IdMapping), Decidable (IdMappingsAt img a ms)
  | _, [] => isTrue trivial
  | a, mp :: ms =>
    have := decidableIdMappingsAt img (a + rimtIdMappingSize) ms
    inferInstanceAs (Decidable (readIdMapping img a = mp ∧ _))

variable {img : Mem} {a : Nat} {d : Device}

theorem readIdMapping_of_idMappingsAt {ms : List IdMapping} (h : IdMappingsAt img a ms)
    (hne : 0 < ms.length) : readIdMapping img a = ms[0] := by
  cases ms with
  | nil => exact absurd hne (lt_irrefl 0)
  | cons mp ms => exact h.1

def DeviceInfoAt (img : Mem) (a length : Nat) : DeviceInfo → Prop
  | .iommu hardwareId baseAddress flags seg bdf =>
    40 ≤ length ∧ load img (a + 8) 8 = hardwareId ∧ load img (a + 16) 8 = baseAddress ∧
      load img (a + 24) 4 = flags ∧ load img (a + 32) 2 = seg ∧ load img (a + 34) 2 = bdf
  | .pcieRootComplex seg off ms =>
    20 ≤ off ∧ off + rimtIdMappingSize * ms.length ≤ length ∧ load img (a + 14) 2 = seg ∧
      load img (a + 16) 2 = off ∧ load img (a + 18) 2 = ms.length ∧ IdMappingsAt img (a + off) ms
  | .platformDevice off ms =>
    12 ≤ off ∧ off + rimtIdMappingSize * ms.length ≤ length ∧
      load img (a + 8) 2 = off ∧ load img (a + 10) 2 = ms.length ∧ IdMappingsAt img (a + off) ms

instance (img : Mem) (a length : Nat) : ∀ info, Decidable (DeviceInfoAt img a length info)
  | .iommu .. => inferInstanceAs (Decidable (_ ∧ _))
  | .pcieRootComplex .. => inferInstanceAs (Decidable (_ ∧ _))
  | .platformDevice .. => inferInstanceAs (Decidable (_ ∧ _))

def DeviceAt (img : Mem) (a : Nat) (d : Device) : Prop :=
  load img a 1 = d.type ∧ load img (a + 2) 2 = d.length ∧ load img (a + 6) 2 = d.id ∧
    DeviceInfoAt img a d.length d.info

instance (img : Mem) (a : Nat) (d : Device) : Decidable (DeviceAt img a d) :=
  inferInstanceAs (Decidable (_ ∧ _))

def DevicesAt (img : Mem) (a : Nat) : List Device → Nat → Prop
  | [], e => a = e
  | d :: ds, e => DeviceAt img a d ∧ DevicesAt img (a + d.length) ds e

instance decidableDevicesAt (img : Mem) :
    ∀ (a : Nat) (ds : List Device) (e : Nat), Decidable (DevicesAt img a ds e)
  | a, [], e => inferInstanceAs (Decidable (a = e))
  | a, d :: ds, e =>
    have := decidableDevicesAt img (a + d.length) ds e
    inferInstanceAs (Decidable (DeviceAt img a d ∧ _))

def rimtLength (img : Mem) : Nat := load img 4 4
def rimtDeviceNumber (img : Mem) : Nat := load img 36 4
def rimtDeviceOffset (img : Mem) : Nat := load img 40 4

structure RimtAt (img : Mem) (ds : List Device) : Prop where
  number : rimtDeviceNumber img = ds.length
  offset : 48 ≤ rimtDeviceOffset img
  devices : DevicesAt img (rimtDeviceOffset img) ds (rimtLength img)

/-- Byte offset in the table of device structure `k`, the first one being at `a`. -/
def deviceOffset (a : Nat) (ds : List Device) (k : Nat) : Nat :=
  a + ((ds.take k).map Device.length).sum

theorem deviceOffset_cons (a : Nat) (d : Device) (ds : List Device) (k : Nat) :
    deviceOffset a (d :: ds) (k + 1) = deviceOffset (a + d.length) ds k := by
  simp [deviceOffset, add_assoc]

theorem Device.length_pos_of_deviceAt (h : DeviceAt img a d) : 12 ≤ d.length := by
  have hinfo := h.2.2.2
  rcases hd : d.info with _ | _ | _ <;> rw [hd] at hinfo <;> simp only [DeviceInfoAt] at hinfo <;>
    omega

theorem Device.length_lt_of_deviceAt (h : DeviceAt img a d) : d.length < 65536 := by
  rw [← h.2.1]
  exact load_lt img (a + 2) 2

theorem le_of_devicesAt {e : Nat} {ds : List Device} (h : DevicesAt img a ds e) : a ≤ e := by
  induction ds generalizing a with
  | nil => exact h.le
  | cons d ds ih => exact (Nat.le_add_right a d.length).trans (ih h.2)

/-! ## The builder -/

def copyIdMapping (img : Mem) (idMapEntry idMapPtr : Nat) (tbl : Mem) : Mem :=
  let tbl := store tbl idMapPtr 4 (load img idMapEntry 4)
  let tbl := store tbl (idMapPtr + 4) 4 (load img (idMapEntry + 4) 4)
  let tbl := store tbl (idMapPtr + 8) 4 (load img (idMapEntry + 8) 4)
  store tbl (idMapPtr + 12) 4 (load img (idMapEntry + 12) 4)

/-- The inner loop.  `IdMapPtr` moves on and `IdMapEntry` does not. -/
def copyIdMappings : Nat → Mem → Nat → Nat → Nat → Nat → Nat → Mem → Option Mem
  | 0, _, _, _, _, _, _, _ => none
  | fuel + 1, img, entry, idMapEntry, ptr, idMapPtr, nodeLength, tbl =>
    let tbl := copyIdMapping img idMapEntry idMapPtr tbl
    let nodeLength := nodeLength + rimtIdMappingSize
    let tbl := store tbl (ptr + offIdmapNum) 2 (load tbl (ptr + offIdmapNum) 2 + 1)
    if nodeLength < load img (entry + 2) 2 then
      copyIdMappings fuel img entry idMapEntry ptr (idMapPtr + idMappingSize) nodeLength tbl
    else some tbl

/-- The body of the outer loop: the structure at `entry`, `length` bytes into the
table, goes to the info entry at `ptr`. -/
def createEntry (img : Mem) (entry length ptr : Nat) (tbl : Mem) : Option Mem :=
  let tbl := store tbl (ptr + offIommuNum) 4 (load tbl 0 4)
  let tbl := store tbl (ptr + offType) 1 (load img entry 1)
  let tbl := store tbl (ptr + offId) 2 (load img (entry + 6) 2)
  if load img entry 1 = typeIommu then
    let tbl := store tbl (ptr + offIommuOffset) 4 length
    let tbl := store tbl (ptr + offHardwareId) 8 (load img (entry + 8) 8)
    let tbl := store tbl (ptr + offBaseAddress) 8 (load img (entry + 16) 8)
    let tbl := store tbl (ptr + offFlags) 4 (load img (entry + 24) 4)
    let tbl := store tbl (ptr + offPcieSeg) 2 (load img (entry + 32) 2)
    some (store tbl (ptr + offPcieBdf) 2 (load img (entry + 34) 2))
  else if load img entry 1 = typePcieRootComplex then
    let tbl := store tbl (ptr + offPcieRcSeg) 2 (load img (entry + 14) 2)
    let tbl := store tbl (ptr + offIdmapOffset) 2 (load img (entry + 16) 2)
    let tbl := store tbl (ptr + offIdmapNum) 2 0
    copyIdMappings (load img (entry + 2) 2 + 1) img entry (entry + load img (entry + 16) 2) ptr
      (ptr + offIdMappingTable) (load tbl (ptr + offIdmapOffset) 2) tbl
  else if load img entry 1 = typePlatformDevice then
    let tbl := store tbl (ptr + offIdmapOffset) 2 (load img (entry + 8) 2)
    let tbl := store tbl (ptr + offIdmapNum) 2 0
    copyIdMappings (load img (entry + 2) 2 + 1) img entry (entry + load img (entry + 8) 2) ptr
      (ptr + offIdMappingTable) (load tbl (ptr + offIdmapOffset) 2) tbl
  else some tbl

def createEntries : Nat → Mem → Nat → Nat → Nat → Nat → Mem → Option Mem
  | 0, _, _, _, _, _, _ => none
  | fuel + 1, img, tableLength, entry, length, ptr, tbl =>
    match createEntry img entry length ptr tbl with
    | none => none
    | some tbl =>
      let nodeLength := load img (entry + 2) 2
      let length := (length + nodeLength) % 2 ^ 32
      let tbl := store tbl 0 4 (load tbl 0 4 + 1)
      if length < tableLength then
        createEntries fuel img tableLength (entry + nodeLength) length (ptr + entrySize) tbl
      else some tbl

/-- `rimt` is what `pal_get_rimt_ptr` finds, `none` when the XSDT lists no RIMT,
and `tbl` is the buffer the application allocated. -/
def palIommuCreateInfoTable (rimt : Option Mem) (tbl : Mem) : Option Mem :=
  match rimt with
  | none => some tbl
  | some img =>
    createEntries (max 1 (rimtLength img)) img (rimtLength img) (rimtDeviceOffset img)
      (rimtDeviceOffset img) (entryBase 0) (store tbl 0 4 0)

end ServerSoc.Iommu
