/-
Setup of the ITS blocks and MSI requests (acs_gic_support.c, with bsa_gic_its.c and
bsa_gic_redistributor.c).

`g_gic_its_info` points to a block that is allocated by `val_gic_its_configure` and freed when the
setup fails; the pointer is not cleared.  Reads through it and the words written to MSI-X tables
are logged.  The array of the block has no end here.
-/
import ServerSoc.Its.Commands
import ServerSoc.Pcie.Control

namespace ServerSoc.Its

open Pcie

def acsStatusErr : Nat := 0xEDCB1234
def acsStatusSkip : Nat := 0x10000000
def acsStatusPass : Nat := 0x0
def acsInvalidIndex : Nat := 0xFFFFFFFF

def armGicdTyper : Nat := 0x0004
def armGicdTyperLpis : Nat := 1 <<< 17
def armGicrTyperOffset : Nat := 0x0008
def armGicrTyperPlpis : Nat := 1 <<< 0
def armGicrTyperVlpis : Nat := 1 <<< 1
def nextDwOffset : Nat := 0x4
def size64Kb : Nat := 0x10000
def armGitsTyperOffset : Nat := 0x0008
def armGitsBaser (n : Nat) : Nat := 0x0100 + 8 * n
def armNumGitsBaser : Nat := 8
def armGitsTblTypeDevice : Nat := 0x1
def armGitsTblTypeClcn : Nat := 0x4
def armGitsTranslater : Nat := 0x10040

def cidMsix : Nat := 0x11
def type01Bar : Nat := 0x10
def barMask : Nat := 0xFFFFFFF0
def msiBirMask : Nat := 0xFFFFFFF8
def msiXEnableShift : Nat := 31
def msiXTorOffset : Nat := 0x4
def msiXTableBirMask : Nat := 0x7
def msiXEntrySize : Nat := 16
def msiXAddrShift : Nat := 32

/-! ## State -/

inductive GicType where
  | cpuif | gicd | giccGicrd | gicrGicrd | gicits | gicMsiFrame | gich
  deriving DecidableEq, Repr

structure GicEntry where
  type : GicType
  base : Nat
  entryId : Nat
  length : Nat
  deriving DecidableEq, Repr

/-- `GIC_ITS_INFO`, with what the later functions use of an ITS. -/
structure ItsInfo where
  gicDBase : Nat
  gicRdBase : Nat
  gicNumIts : Nat
  id : Nat → Nat
  base : Nat → Nat

inductive InfoPointer where
  | null | allocated | freed
  deriving DecidableEq, Repr

/-- The GIC info table up to its end mark, the registers that are read, and what the
allocators return: 0 is a failed allocation.  `atNull` and `afterFree` are what is found through
the pointer when it is NULL or when its block was freed, `uninit` what a new block contains. -/
structure World where
  targetIsDt : Bool
  entries : List GicEntry
  mpidr : Nat
  mmioRead : Nat → Nat
  mmioRead64 : Nat → Nat
  infoAddress : Nat
  cwriterPtrAddress : Nat
  configAddress : Nat
  pendingAddress : Nat
  commandQAddress : Nat → Nat
  tableAddress : Nat → Nat → Nat
  ittAddress : Nat → Nat
  atNull : ItsInfo
  afterFree : ItsInfo
  uninit : ItsInfo
  pcieInfo : Option (List PcieInfoBlock)
  wr : RegWrite
  stack : Nat

structure MsiState where
  pointer : InfoPointer
  info : ItsInfo
  its : State
  regs : CfgMem
  reads : List InfoPointer
  tableWrites : List (Nat × Nat)

variable (w : World)

/-! ## Setup -/

def cpuAffinity : Nat := (w.mpidr &&& 0xFFFFFF ||| (w.mpidr &&& 0xFF <<< 32) >>> 8) % 2 ^ 32

/-- The frames of one redistributor region, of which at most `left` are looked at. -/
def rdbaseLoop (limit rdGranularity : Nat) : Nat → Nat → Nat
  | 0, _ => 0
  | left + 1, currRdBase =>
    if currRdBase < limit then
      if w.mmioRead (currRdBase + armGicrTyperOffset + nextDwOffset) = cpuAffinity w then currRdBase
      else rdbaseLoop limit rdGranularity left (currRdBase + rdGranularity)
    else 0

/-- A length of 0 means that there is one frame. -/
def valItsGetCurrRdbase (rdBase length : Nat) : Nat :=
  let rdGranularity := 2 * size64Kb +
    if w.mmioRead (rdBase + armGicrTyperOffset) &&& armGicrTyperVlpis ≠ 0 then 2 * size64Kb else 0
  if length = 0 then
    if w.mmioRead (rdBase + armGicrTyperOffset + nextDwOffset) = cpuAffinity w then rdBase else 0
  else rdbaseLoop w (rdBase + length) rdGranularity (length / rdGranularity + 1) rdBase

def collectEntry (info : ItsInfo) (e : GicEntry) : ItsInfo :=
  match e.type with
  | .gicd => { info with gicDBase := e.base }
  | .gicrGicrd =>
    if info.gicRdBase = 0 then
      { info with gicRdBase := valItsGetCurrRdbase w e.base (e.length % 2 ^ 32) }
    else info
  | .giccGicrd =>
    if info.gicRdBase = 0 then { info with gicRdBase := valItsGetCurrRdbase w e.base 0 } else info
  | .gicits =>
    { info with
      base := Function.update info.base info.gicNumIts e.base
      id := Function.update info.id info.gicNumIts e.entryId
      gicNumIts := info.gicNumIts + 1 }
  | _ => info

def collect : ItsInfo :=
  w.entries.foldl (collectEntry w) { w.uninit with gicNumIts := 0, gicRdBase := 0, gicDBase := 0 }

def valItsGicdLpiSupport (gicdBase : Nat) : Nat :=
  w.mmioRead (gicdBase + armGicdTyper) &&& armGicdTyperLpis

def valItsGicrLpiSupport (rdBase : Nat) : Nat :=
  w.mmioRead (rdBase + armGicrTyperOffset) &&& armGicrTyperPlpis

def armGicRedistributorConfigurationForLPI : Nat :=
  if w.configAddress = 0 then 1 else if w.pendingAddress = 0 then 1 else 0

def NeedsTable (itsBase it : Nat) : Prop :=
  let tableType := (w.mmioRead64 (itsBase + armGitsBaser it) >>> 56) &&& 0x7
  tableType = armGitsTblTypeDevice ∨ tableType = armGitsTblTypeClcn

instance (itsBase it : Nat) : Decidable (NeedsTable w itsBase it) :=
  inferInstanceAs (Decidable (_ ∨ _))

/-- The tables of the registers and the interrupt translation table, whose address is the
result. -/
def setItsTables (itsIndex itsBase : Nat) : List Nat → Option Nat
  | [] => if w.ittAddress itsIndex = 0 then none else some (w.ittAddress itsIndex)
  | it :: rest =>
    if NeedsTable w itsBase it ∧ w.tableAddress itsIndex it = 0 then none
    else setItsTables itsIndex itsBase rest

def platform (info : ItsInfo) : Platform where
  gicNumIts := info.gicNumIts
  gicdTyper := w.mmioRead (info.gicDBase + armGicdTyper)
  gitsTyper := fun i => w.mmioRead64 (info.base i + armGitsTyperOffset)
  gicRdBase := info.gicRdBase
  gicrTyper := w.mmioRead64 (info.gicRdBase + armGicrTyperOffset) % 2 ^ 32
  redistributorStatus := armGicRedistributorConfigurationForLPI w
  cwriterPtrAddress := w.cwriterPtrAddress
  commandQAddress := w.commandQAddress
  itsTables := fun i => setItsTables w i (info.base i) (List.range armNumGitsBaser)

def itsFail (s : MsiState) : Nat × MsiState := (acsStatusErr, { s with pointer := .freed })

def valGicItsConfigure (s : MsiState) : Nat × MsiState :=
  if w.targetIsDt then (acsStatusSkip, s)
  else if w.infoAddress = 0 then (acsStatusErr, { s with pointer := .null })
  else
    let info := collect w
    let s := { s with pointer := .allocated, info := info }
    if info.gicNumIts = 0 then itsFail s
    else if info.gicRdBase = 0 ∨ info.gicDBase = 0 then itsFail s
    else if valItsGicdLpiSupport w info.gicDBase ≠ 0 ∧
      valItsGicrLpiSupport w info.gicRdBase ≠ 0 then
      let r := valItsInit (platform w info) s.its
      if r.1 ≠ 0 then itsFail { s with its := r.2 } else (0, { s with its := r.2 })
    else itsFail s

/-! ## MSI-X tables -/

section

variable (fuel bdf msiIndex : Nat)

def readCfg (regs : CfgMem) (offset : Nat) : Nat :=
  (valPcieReadCfg w.pcieInfo regs.read bdf offset).getD w.stack

def writeCfg (regs : CfgMem) (offset data : Nat) : CfgMem :=
  valPcieWriteCfg (cfgHw w.wr) w.pcieInfo regs bdf offset data

/-- The result of the search and `msi_cap_offset`; `none` if the fuel did not end it. -/
def findMsix (regs : CfgMem) : Option (Nat × Nat) :=
  valPcieFindCapability fuel w.pcieInfo regs.read bdf .pcieCap cidMsix w.stack w.stack

/-- Where the entry of a message is, by the BAR that the capability names. -/
def tableEntry (regs : CfgMem) (msiCapOffset : Nat) : Nat :=
  let tableOffsetReg := readCfg w bdf regs (msiCapOffset + msiXTorOffset)
  let msiTableBarIndex := tableOffsetReg &&& msiXTableBirMask
  let readValue := readCfg w bdf regs (type01Bar + msiTableBarIndex * 4)
  let tableAddress := readValue &&& barMask
  let tableAddress :=
    if (readValue >>> 2) &&& 0x1 = 0x1 then
      tableAddress ||| readCfg w bdf regs (type01Bar + msiTableBarIndex * 4 + 4) <<< 32
    else tableAddress
  (tableAddress + (tableOffsetReg &&& msiBirMask) + msiIndex * msiXEntrySize % 2 ^ 32) % 2 ^ 64

def entryWords (address lower higher data control : Nat) : List (Nat × Nat) :=
  [(address, lower), (address + 4, higher), (address + 8, data), (address + 12, control)]

def clearMsiXTable (s : MsiState) : Option MsiState :=
  match findMsix w fuel bdf s.regs with
  | none => none
  | some (status, msiCapOffset) =>
    if status ≠ 0 then some s
    else
      let readValue := readCfg w bdf s.regs msiCapOffset
      let regs := writeCfg w bdf s.regs msiCapOffset (readValue &&& (1 <<< msiXEnableShift - 1))
      some { s with
        regs := regs
        tableWrites :=
          s.tableWrites ++ entryWords (tableEntry w bdf msiIndex regs msiCapOffset) 0 0 0 1 }

def fillMsiXTable (msiAddr msiData : Nat) (s : MsiState) : Option (Nat × MsiState) :=
  let commandData := readCfg w bdf s.regs type01Cr
  let regs := writeCfg w bdf s.regs type01Cr
    (commandData ||| 1 <<< crMseShift ||| 1 <<< crBmeShift)
  match findMsix w fuel bdf regs with
  | none => none
  | some (status, msiCapOffset) =>
    if status ≠ 0 then some (acsStatusSkip, { s with regs := regs })
    else
      let readValue := readCfg w bdf regs msiCapOffset
      let regs := writeCfg w bdf regs msiCapOffset (readValue ||| 1 <<< msiXEnableShift)
      some (acsStatusPass, { s with
        regs := regs
        tableWrites := s.tableWrites ++ entryWords (tableEntry w bdf msiIndex regs msiCapOffset)
          (msiAddr % 2 ^ 32) (msiAddr >>> msiXAddrShift % 2 ^ 32) msiData 0 })

end

/-! ## Requests -/

def MsiState.seen (s : MsiState) : ItsInfo :=
  match s.pointer with
  | .null => w.atNull
  | .allocated => s.info
  | .freed => w.afterFree

def MsiState.read (s : MsiState) : MsiState := { s with reads := s.reads ++ [s.pointer] }

def getItsIndex (info : ItsInfo) (itsId : Nat) : Nat :=
  ((List.range info.gicNumIts).find? (fun index => itsId = info.id index)).getD acsInvalidIndex

/-- The arguments of a request, and what the ITS shows while the driver waits for it. -/
structure MsiArgs where
  bdf : Nat
  deviceId : Nat
  itsId : Nat
  intId : Nat
  msiIndex : Nat
  creadr : Nat → Nat

variable (fuel : Nat) (a : MsiArgs)

/-- There is no check of the pointer. -/
def valGicFreeMsi (s : MsiState) : Option MsiState :=
  let info := s.seen w
  let s := s.read
  let itsIndex := getItsIndex info a.itsId
  if info.gicNumIts ≤ itsIndex then some s
  else if info.gicRdBase = 0 ∨ info.gicDBase = 0 then some s
  else
    let its := valItsClearLpiMap (platform w info) a.creadr itsIndex a.deviceId a.intId s.its
    clearMsiXTable w fuel a.bdf a.msiIndex { s with its := its }

def valGicRequestMsi (s : MsiState) : Option (Nat × MsiState) :=
  if s.pointer = .null then some (acsStatusErr, s)
  else
    let info := s.seen w
    let s := s.read
    if info.gicNumIts = 0 then some (acsStatusErr, s)
    else
      let itsIndex := getItsIndex info a.itsId
      if info.gicNumIts ≤ itsIndex then some (acsStatusErr, s)
      else if info.gicRdBase = 0 ∨ info.gicDBase = 0 then some (acsStatusErr, s)
      else
        let its := valItsCreateLpiMap (platform w info) a.creadr itsIndex a.deviceId a.intId s.its
        let msiAddr := (info.base itsIndex + armGitsTranslater) % 2 ^ 64
        fillMsiXTable w fuel a.bdf a.msiIndex msiAddr a.intId { s with its := its }

end ServerSoc.Its
