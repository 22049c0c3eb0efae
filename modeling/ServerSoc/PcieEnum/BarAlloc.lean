/-
Addresses for BARs and memory windows (pal_baremetal/pal_pcie_enumeration.c).

Of each of three pools (32-bit non-prefetchable and prefetchable, 64-bit prefetchable) the code
keeps the address given out last, with the size, in 32 bits, and the bus of that BAR.
-/
import ServerSoc.PcieEnum.Enumerate

namespace ServerSoc.PcieEnum

open Base

/-! ## Registers -/

def bar0Offset : Nat := 0x10
def type0BarMaxOff : Nat := 0x24
def type1BarMaxOff : Nat := 0x14
def commandRegOffset : Nat := 0x04
def nonPreFetOffset : Nat := 0x20
def preFetOffset : Nat := 0x24
def barIncrement : Nat := 0x100000
def memBase32LimMask : Nat := 0xFFF00000
def memBase64LimMask : Nat := 0xFFFFFFFFFFF00000
def barMask : Nat := 0xFFFFFFF0
def regAccData : Nat := 0x7

def barReg (value : Nat) : Nat := value >>> 2 &&& 1

def barMem (value : Nat) : Nat := (value &&& 0xF) >>> 3

def regMaskShift (value : Nat) : Nat := (value &&& memBase32LimMask) >>> 16

def palPciCfgRead (offset : Nat) : Access Nat := .read offset .done

def palPciCfgWrite (offset data : Nat) : Access Unit := .write offset (data % 2 ^ 32) (.done ())

@[simp] theorem run_palPciCfgRead (f : Func) (offset : Nat) :
    (palPciCfgRead offset).run funcPort f = ((f offset).value, f) := by
  rw [palPciCfgRead, Access.run_read, Access.run_done, funcPort]

@[simp] theorem run_palPciCfgWrite (f : Func) (offset data : Nat) :
    (palPciCfgWrite offset data).run funcPort f = ((), f.set offset (data % 2 ^ 32)) := by
  rw [palPciCfgWrite, Access.run_write, Access.run_done, funcPort]

theorem run_ite {α : Type} (c : Prop) [Decidable c] (x y : Access α) (f : Func) :
    (if c then x else y).run funcPort f = if c then x.run funcPort f else y.run funcPort f :=
  apply_ite (fun x => Access.run funcPort x f) c x y

def negate (width value : Nat) : Nat := (2 ^ width - value) % 2 ^ width

/-! ## Pools -/

structure Pool where
  start : Nat
  size : Nat
  bus : Nat
  max : Nat
  deriving DecidableEq, Repr

/-- The start for a BAR of a function that has had a BAR of `localSize` from the pool. -/
def Pool.nextStart (pool : Pool) (width bus localSize barSize : Nat) : Nat :=
  if localSize = 0 ∧ pool.bus = bus then
    if pool.size < barSize then (pool.start + barSize) % 2 ^ width
    else (pool.start + pool.size) % 2 ^ width
  else if pool.size < barSize ∧ localSize ≠ 0 then (pool.start + barSize) % 2 ^ width
  else (pool.start + localSize) % 2 ^ width

def Pool.place (pool : Pool) (width bus localSize barSize : Nat) : Pool :=
  { pool with
    start := pool.nextStart width bus localSize barSize
    size := barSize % 2 ^ 32
    bus := bus }

structure Globals where
  np : Pool
  p : Pool
  p64 : Pool
  rpBar32 : Nat
  rpBar64 : Nat
  deriving DecidableEq, Repr

def rdn2Globals : Globals where
  np := ⟨0x60000000, 0, 0, 0⟩
  p := ⟨0x60600000, 0, 0, 0⟩
  p64 := ⟨0x4000100000, 0, 0, 0⟩
  rpBar32 := 0x60850000
  rpBar64 := 0x4000000000

/-! ## BARs of an endpoint -/

/-- The variables of `pal_pcie_program_bar_reg`: the sizes of the last BARs of the function. -/
structure BarState where
  npBarSize : Nat
  pBarSize : Nat
  pBar64Size : Nat
  globals : Globals

def sizeBar32 (offset : Nat) : Access Nat := do
  palPciCfgWrite offset 0xFFFFFFF0
  palPciCfgRead offset

def sizeBar64 (offset : Nat) : Access Nat := do
  palPciCfgWrite offset 0xFFFFFFF0
  palPciCfgWrite (offset + 4) 0xFFFFFFFF
  let barLowerBits ← palPciCfgRead offset
  let barUpperBits ← palPciCfgRead (offset + 4)
  pure (negate 64 (barLowerBits &&& barMask ||| barUpperBits <<< 32))

def programBarP64 (bus offset : Nat) (s : BarState) : Access (Nat × BarState) := do
  let barSize ← sizeBar64 offset
  if barSize = 0 then pure (offset + 8, s)
  else do
    let pool := s.globals.p64.place 64 bus s.pBar64Size barSize
    palPciCfgWrite offset pool.start
    palPciCfgWrite (offset + 4) (pool.start >>> 32)
    pure (offset + 8,
      { s with pBar64Size := barSize % 2 ^ 32, globals := { s.globals with p64 := pool } })

def programBarP32 (bus offset : Nat) (s : BarState) : Access (Nat × BarState) := do
  let barLowerBits ← sizeBar32 offset
  let barSize := negate 32 (barLowerBits &&& barMask)
  if barSize = 0 then pure (offset + 4, s)
  else do
    let pool := s.globals.p.place 32 bus s.pBarSize barSize
    palPciCfgWrite offset pool.start
    pure (offset + 4, { s with pBarSize := barSize, globals := { s.globals with p := pool } })

/-- 64-bit BARs that are not prefetchable are sized and placed as 32-bit ones. -/
def programBarNp (bus offset : Nat) (s : BarState) : Access (Nat × BarState) := do
  let barLowerBits ← sizeBar32 offset
  let barSize := negate 32 (barLowerBits &&& barMask)
  if barSize = 0 then pure (if barReg barLowerBits = 1 then offset + 8 else offset + 4, s)
  else do
    let pool := s.globals.np.place 32 bus s.npBarSize barSize
    palPciCfgWrite offset pool.start
    let s := { s with npBarSize := barSize, globals := { s.globals with np := pool } }
    let barRegValue ← palPciCfgRead offset
    if barReg barRegValue = 1 then do
      palPciCfgWrite (offset + 4) 0
      pure (offset + 8, s)
    else pure (offset + 4, s)

def programBar (bus offset : Nat) (s : BarState) : Access (Nat × BarState) := do
  let barRegValue ← palPciCfgRead offset
  if barMem barRegValue = 1 then
    if barReg barRegValue = 1 then programBarP64 bus offset s else programBarP32 bus offset s
  else programBarNp bus offset s

/-- Each turn moves on by a register at least, so there are no more turns than registers. -/
def programBars (bus : Nat) : Nat → Nat → BarState → Access BarState
  | 0, _, s => pure s
  | turns + 1, offset, s =>
    if offset ≤ type0BarMaxOff then do
      let next ← programBar bus offset s
      programBars bus turns next.1 next.2
    else pure s

def Globals.setMax (g : Globals) : Globals :=
  { g with
    np := { g.np with max := g.np.start }
    p := { g.p with max := g.p.start }
    p64 := { g.p64 with max := g.p64.start } }

def palPcieProgramBarReg (bus : Nat) (g : Globals) : Access Globals := do
  let s ← programBars bus 6 bar0Offset ⟨0, 0, 0, g⟩
  pure s.globals.setMax

/-! ## Windows of a bridge -/

def resourceBase32 (offset base limit : Nat) (pool : Pool) : Access Pool :=
  if base ≠ pool.start then do
    let start :=
      if pool.start <<< 12 % 2 ^ 32 ≠ 0 then
        ((pool.start &&& memBase32LimMask) + barIncrement) % 2 ^ 32
      else pool.start
    let limit := if limit = start then (limit + 2 ^ 32 - barIncrement) % 2 ^ 32 else limit
    let memBar ← palPciCfgRead offset
    palPciCfgWrite offset (limit &&& memBase32LimMask ||| memBar)
    pure { pool with start := start }
  else pure pool

/-- The limit in the register is the one from before the start is moved. -/
def getResourceBase64 (base : Nat) (pool : Pool) : Access Pool :=
  if base ≠ pool.max ∧ pool.start ≤ pool.max then do
    let start :=
      if pool.start <<< 12 % 2 ^ 64 ≠ 0 then
        ((pool.start &&& memBase64LimMask) + barIncrement) % 2 ^ 64
      else pool.start
    let start := ((start &&& memBase64LimMask) + barIncrement) % 2 ^ 64
    palPciCfgWrite preFetOffset
      (regMaskShift (pool.max % 2 ^ 32) <<< 16 ||| regMaskShift (base % 2 ^ 32))
    palPciCfgWrite (preFetOffset + 4) (base >>> 32)
    palPciCfgWrite (preFetOffset + 8) (pool.max >>> 32)
    pure { pool with start := start }
  else pure pool

/-! ## BARs of a bridge -/

def rpProgramBar (offset : Nat) (g : Globals) : Access (Nat × Globals) := do
  let barRegValue ← palPciCfgRead offset
  if barReg barRegValue = 1 then do
    let barSize ← sizeBar64 offset
    if barSize = 0 then pure (offset + 8, g)
    else do
      palPciCfgWrite offset g.rpBar64
      palPciCfgWrite (offset + 4) (g.rpBar64 >>> 32)
      pure (offset + 8, g)
  else do
    let barLowerBits ← sizeBar32 offset
    let barSize := negate 32 (barLowerBits &&& barMask)
    if barSize = 0 then pure (offset + 4, g)
    else do
      palPciCfgWrite offset g.rpBar32
      pure (offset + 4, { g with rpBar32 := (g.rpBar32 + barSize) % 2 ^ 32 })

def rpProgramBars : Nat → Nat → Globals → Access Globals
  | 0, _, g => pure g
  | turns + 1, offset, g =>
    if offset ≤ type1BarMaxOff then do
      let next ← rpProgramBar offset g
      rpProgramBars turns next.1 next.2
    else pure g

def palPcieRpProgramBar (g : Globals) : Access Globals := rpProgramBars 2 bar0Offset g

/-! ## The enumeration -/

structure Bases where
  np : Nat
  p : Nat
  p64 : Nat
  deriving DecidableEq, Repr

def Globals.bases (g : Globals) : Bases := ⟨g.np.start, g.p.start, g.p64.start⟩

/-- "Skip Hostbridge configuration". -/
def isHostBridge (classCode : Nat) : Bool :=
  (classCode >>> 24 &&& 0xFF) == 0x06 && (classCode >>> 16 &&& 0xFF) == 0x00

def skipHostBridge : Access Bool := do
  let classCode ← palPciCfgRead type01Ridr
  pure (isHostBridge classCode)

def palOpenBridge (bus secBus : Nat) (g : Globals) : Access Unit := do
  let comRegValue ← palPciCfgRead commandRegOffset
  palPciCfgWrite commandRegOffset (comRegValue ||| regAccData)
  palPciCfgWrite busNumRegOffset (busNumRegCfg 0xFF secBus bus)
  palPciCfgWrite nonPreFetOffset (g.np.start >>> 16 &&& 0xFFF0)
  palPciCfgWrite preFetOffset (g.p.start >>> 16 &&& 0xFFF0)

def palCloseBridge (bus secBus subBus : Nat) (bases : Bases) (g : Globals) :
    Access (Bases × Globals) := do
  palPciCfgWrite busNumRegOffset (busNumRegCfg subBus secBus bus)
  let np ← resourceBase32 nonPreFetOffset bases.np g.np.max g.np
  let p ← resourceBase32 preFetOffset bases.p g.p.max g.p
  let p64 ← getResourceBase64 bases.p64 g.p64
  let g ← palPcieRpProgramBar { g with np := np, p := p, p64 := p64 }
  pure (g.bases, g)

/-- `pal_pcie_enumerate_device` for an ECAM entry that ends at `endBusNum`. -/
def palVisitor (endBusNum : Nat) : Visitor Globals Bases where
  lastBus := endBusNum + 1
  skip := skipHostBridge
  enter := Globals.bases
  openBridge := palOpenBridge
  closeBridge := palCloseBridge
  endpoint := palPcieProgramBarReg

def palPcieEnumerateDevice (root endBusNum fuel bus secBus : Nat) (tree : Bus) (g : Globals) :
    Option (Nat × Bus × Globals) :=
  enumerateDevice (palVisitor endBusNum) root fuel bus secBus tree g

/-- `pcie_enumerate_device`, which writes nothing but bus numbers. -/
def valVisitor (pcieMaxBus : Nat) : Visitor Unit Unit where
  lastBus := pcieMaxBus - 1
  skip := pure false
  enter := id
  openBridge bus secBus _ := palPciCfgWrite busNumRegOffset (busNumRegCfg 0xFF secBus bus)
  closeBridge bus secBus subBus _ _ := do
    palPciCfgWrite busNumRegOffset (busNumRegCfg subBus secBus bus)
    pure ((), ())
  endpoint _ _ := pure ()

def pcieEnumerateDevice (pcieMaxBus fuel bus secBus : Nat) (tree : Bus) : Option (Nat × Bus) :=
  (enumerateDevice (valVisitor pcieMaxBus) 0 fuel bus secBus tree ()).map fun r => (r.1, r.2.1)

end ServerSoc.PcieEnum
