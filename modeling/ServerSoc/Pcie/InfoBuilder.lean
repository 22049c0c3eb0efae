/-
Filling the PCIe info table from the MCFG (pal_pcie_create_info_table in
pal_uefi_acpi/src/pal_pcie.c).

The table is a byte buffer: a counter, padded to eight bytes, and blocks of 24 bytes of which 20
are written.  The loop over the windows is a `do ... while` loop with fuel, and `none` is a loop
that the fuel did not end.
-/
import ServerSoc.Memory.Bytes

namespace ServerSoc.Pcie

open Memory

def mcfgHeaderSize : Nat := 44
def mcfgWindowSize : Nat := 16

def mcfgLength (mcfg : Mem) : Nat := load mcfg 4 4

def infoBlockBase (i : Nat) : Nat := 8 + 24 * i

def platformOverridePcieEcamBase : Nat := 0x0
def platformOverridePcieStartBusNum : Nat := 0x0

def createBlock (mcfg : Mem) (entry i : Nat) (tbl : Mem) : Mem :=
  let tbl := store tbl (infoBlockBase i) 8 (load mcfg entry 8)
  let tbl := store tbl (infoBlockBase i + 8) 4 (load mcfg (entry + 8) 2)
  let tbl := store tbl (infoBlockBase i + 12) 4 (load mcfg (entry + 10) 1)
  let tbl := store tbl (infoBlockBase i + 16) 4 (load mcfg (entry + 11) 1)
  store tbl 0 4 (load tbl 0 4 + 1)

def createBlocks (mcfg : Mem) : Nat → Nat → Nat → Nat → Mem → Option Mem
  | 0, _, _, _, _ => none
  | fuel + 1, entry, length, i, tbl =>
    let tbl := createBlock mcfg entry i tbl
    let length := (length + mcfgWindowSize) % 2 ^ 32
    if length < mcfgLength mcfg then
      createBlocks mcfg fuel (entry + mcfgWindowSize) length (i + 1) tbl
    else some tbl

/-- `mcfg` is what the PAL finds in the XSDT. -/
def palPcieCreateInfoTable (mcfg : Option Mem) (tbl : Mem) : Option Mem :=
  let tbl := store tbl 0 4 0
  match mcfg with
  | none => some tbl
  | some mcfg =>
    if platformOverridePcieEcamBase ≠ 0 then
      let tbl := store tbl (infoBlockBase 0) 8 platformOverridePcieEcamBase
      let tbl := store tbl (infoBlockBase 0 + 12) 4 platformOverridePcieStartBusNum
      let tbl := store tbl (infoBlockBase 0 + 8) 4 0
      some (store tbl 0 4 1)
    else
      createBlocks mcfg (mcfgLength mcfg + 1) mcfgHeaderSize mcfgHeaderSize 0 tbl

end ServerSoc.Pcie
