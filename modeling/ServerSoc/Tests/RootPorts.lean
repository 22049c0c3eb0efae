/-
Tests p003, p005, p007 and p008 (test_os_p003.c, test_os_p005.c, test_os_p007.c and
test_os_p008.c).

Each test changes some registers of root ports and makes loads to see what they return.  These
probing loads have a given outcome, which can be an exception: the handler of p005, p007 and p008
then sets the status and goes on at `exception_return`.
-/
import ServerSoc.Base.Exits
import ServerSoc.Pcie.Ecam
import ServerSoc.Pcie.Lookup
import ServerSoc.Val.Status

namespace ServerSoc.Tests.RootPorts

open Base Pcie Val

def type1HeaderType : Nat := 1
def type1NpMem : Nat := 0x20
def type1PMem : Nat := 0x24
def type1PMemBu : Nat := 0x28
def type1PMemLu : Nat := 0x2C
def memBaShift : Nat := 16
def memBaMask : Nat := 0xFFF0
def memLimLowerBits : Nat := (1 <<< 20) - 1
def memLimMask : Nat := 0xFFF00000
def pMemPacMask : Nat := 0xF
def memOffsetSmall : Nat := 0x10
def memOffsetLarge : Nat := 0x100000
def memShift : Nat := 20

def type01BccShift : Nat := 24
def masCc : Nat := 0x1
def cntrlCc : Nat := 0x2
def dpCntrlCc : Nat := 0x3

def lctrlrOffset : Nat := 0x10
def linkDisable : Nat := 1 <<< 4

inductive Load where
  | value (v : Nat)
  | exception
  deriving DecidableEq, Repr

/-- `table` is the table of functions, `wr` what a write leaves in a register, and `stack`
what a variable holds that is read without being set while a function is looked at. -/
structure Platform where
  info : Option (List PcieInfoBlock)
  table : List Nat
  wr : RegWrite
  onchip : Nat → Bool
  stack : Nat → Nat

def Platform.view (P : Platform) (regs : CfgMem) : CfgView := ⟨P.info, regs.read, P.onchip, P.stack⟩

inductive Exit (σ : Type) where
  | next (s : σ)
  | stop (s : σ)

def Exit.map {σ τ : Type} (f : σ → τ) : Exit σ → Exit τ
  | .next s => .next (f s)
  | .stop s => .stop (f s)

/-- `none` is a search for a capability that the fuel did not end. -/
def overTable {σ : Type} (body : Nat → σ → Option (Exit σ)) : List Nat → σ → Option (Exit σ)
  | [], s => some (.next s)
  | bdf :: table, s =>
    match body bdf s with
    | none => none
    | some (.stop s) => some (.stop s)
    | some (.next s) => overTable body table s

structure St where
  regs : CfgMem
  status : Nat
  testSkip : Bool

def verdict (testNum : Nat) : Exit St → CfgMem × Nat
  | .stop s => (s.regs, s.status)
  | .next s => (s.regs, if s.testSkip then resultSkip testNum 1 else resultPass testNum 1)

section

variable (P : Platform) (fuel : Nat)

def readCfg (regs : CfgMem) (bdf offset regValue : Nat) : Nat :=
  (valPcieReadCfg P.info regs.read bdf offset).getD regValue

def writeCfg (regs : CfgMem) (bdf offset data : Nat) : CfgMem :=
  valPcieWriteCfg (cfgHw P.wr) P.info regs bdf offset data

/-- `cap_base` after the search for the PCIe capability, whose result is not checked. -/
def findPciecs (regs : CfgMem) (bdf : Nat) : Option Nat :=
  (valPcieFindCapability fuel P.info regs.read bdf .pcieCap cidPciecs (P.stack bdf)
    (P.stack bdf)).map Prod.snd

def busFunctions (seg startBus endBus : Nat) : List Nat :=
  (List.range' startBus (endBus + 1 - startBus)).flatMap (fun bus =>
    (List.range pcieMaxDev).flatMap (fun dev =>
      (List.range pcieMaxFunc).map (fun func => pcieCreateBdf seg bus dev func)))

def searchUnder (regs : CfgMem) (rpSeg rpSecBus rpSubBus : Nat) : List Nat → Nat → Nat
  | [], _ => 0
  | devBdf :: rest, regValue =>
    let regValue := readCfg P regs devBdf type01Vidr regValue
    if regValue = pcieUnknownResponse then searchUnder regs rpSeg rpSecBus rpSubBus rest regValue
    else if pcieExtractBdfSeg devBdf = rpSeg ∧ rpSecBus ≤ pcieExtractBdfBus devBdf ∧
        pcieExtractBdfBus devBdf ≤ rpSubBus then
      let regValue := readCfg P regs devBdf type01Ridr regValue
      let baseCc := regValue >>> type01BccShift
      if baseCc ≠ cntrlCc ∧ baseCc ≠ dpCntrlCc ∧ baseCc ≠ masCc then 1
      else searchUnder regs rpSeg rpSecBus rpSubBus rest regValue
    else searchUnder regs rpSeg rpSecBus rpSubBus rest regValue

def checkBdfUnderRp (regs : CfgMem) (rpBdf : Nat) : Nat :=
  let rpSeg := pcieExtractBdfSeg rpBdf
  let regValue := readCfg P regs rpBdf type1Pbn (P.stack rpBdf)
  searchUnder P regs rpSeg (secBus regValue) (subBus regValue)
    (busFunctions rpSeg (secBus regValue) (subBus regValue)) regValue

/-- The end of the loop's body in p005, p007 and p008. -/
def finish (bdf : Nat) (s : St) : Option (Exit St) :=
  if isTestFail s.status then
    match valPcieClearUrd fuel P.info P.wr bdf (P.stack bdf) s.regs with
    | none => none
    | some regs => some (.stop { s with regs := regs })
  else some (.next s)

end

/-! ## p003 -/

namespace P003

def testNum : Nat := 800 + 3

section

variable (P : Platform) (fuel : Nat)

def searchPort (regs : CfgMem) : List Nat → Option (Option Nat)
  | [] => some none
  | bdf :: table =>
    match valPcieDevicePortType (P.view regs) fuel bdf with
    | none => none
    | some dpType =>
      if dpType = rp then
        if checkBdfUnderRp P regs bdf = 0 then searchPort regs table else some (some bdf)
      else searchPort regs table

/-- The second pass compares with the first.  `vendor` is what the loads of the two passes
return. -/
def enumeratePcieDevice (vendor : Bool → Nat → Nat) (segmentNum busNum : Nat) : Bool :=
  (busFunctions segmentNum busNum busNum).all fun bdf => vendor false bdf = vendor true bdf

def payload (vendor : Bool → Nat → Nat) (regs : CfgMem) : Option (CfgMem × Nat) :=
  match searchPort P fuel regs P.table with
  | none => none
  | some none => some (regs, resultSkip testNum 1)
  | some (some bdf) =>
    match findPciecs P fuel regs bdf with
    | none => none
    | some capBase =>
      let offset := (capBase + lctrlrOffset) % 2 ^ 32
      let regValue := readCfg P regs bdf offset 0xFFFFFFFF
      let (regValue, regs) :=
        if regValue &&& linkDisable ≠ linkDisable then
          (regValue ||| linkDisable, writeCfg P regs bdf offset (regValue ||| linkDisable))
        else (regValue, regs)
      let ret := enumeratePcieDevice vendor (pcieExtractBdfSeg bdf) (pcieExtractBdfBus bdf)
      let status := if ret then resultPass testNum 1 else resultFail testNum 1
      if regValue &&& linkDisable = linkDisable then
        some (writeCfg P regs bdf offset (regValue &&& (0xFFFFFFFF ^^^ linkDisable)), status)
      else some (regs, status)

end

end P003

/-! ## p005 -/

namespace P005

def testNum : Nat := 800 + 5

def ecidAf : Nat := 0x0013
def afCapabilityOffset : Nat := 0x3
def flrCapEn : Nat := 1 <<< 1
def afCtrl : Nat := 0x4
def flrEn : Nat := 1 <<< 0
def rtctrlOffset : Nat := 0x1C
def rootcpOffset : Nat := 0x1E
def csrEnable : Nat := 1 <<< 4

/-- The probing loads at a root port: at the function that is not there, the two unaligned
ones, those after each reset, and the one with the link down. -/
inductive Probe where
  | nf | unaligned16 | unaligned32 | resetVendor | retryVendor | retryDevice | linkDown
  | discovery (second : Bool) (i : Nat)
  deriving DecidableEq, Repr

/-- `reg_value` has 32 bits and is used for reads of 16 bits too. -/
structure St extends RootPorts.St where
  regValue : Nat

inductive Abrupt where
  | next (s : St)
  | stop (s : St)
  | raised (s : St)

section

variable (P : Platform) (fuel : Nat)

/-- The loops of this test's `check_bdf_under_rp`: the device has to support the reset. -/
def searchUnder (regs : CfgMem) (rpSeg rpSecBus rpSubBus : Nat) : List Nat → Nat → Option Nat
  | [], _ => some 0
  | devBdf :: rest, regValue =>
    let regValue := readCfg P regs devBdf type01Vidr regValue
    if regValue = pcieUnknownResponse then searchUnder regs rpSeg rpSecBus rpSubBus rest regValue
    else if pcieExtractBdfSeg devBdf = rpSeg ∧ rpSecBus ≤ pcieExtractBdfBus devBdf ∧
        pcieExtractBdfBus devBdf ≤ rpSubBus then
      let regValue := readCfg P regs devBdf type01Ridr regValue
      let baseCc := regValue >>> type01BccShift
      if baseCc ≠ cntrlCc ∧ baseCc ≠ dpCntrlCc ∧ baseCc ≠ masCc then
        match valPcieFindCapability fuel P.info regs.read devBdf .pcieEcap ecidAf (P.stack devBdf)
            (P.stack devBdf) with
        | none => none
        | some (ret, capBase) =>
          let afCap := (valPcieReadCfgWidth P.info regs.read devBdf
            ((capBase + afCapabilityOffset) % 2 ^ 32) .uint8).getD (P.stack devBdf)
          if ret = pcieSuccess ∧ afCap &&& flrCapEn = flrCapEn then some devBdf
          else searchUnder regs rpSeg rpSecBus rpSubBus rest regValue
      else searchUnder regs rpSeg rpSecBus rpSubBus rest regValue
    else searchUnder regs rpSeg rpSecBus rpSubBus rest regValue

def checkBdfUnderRp (regs : CfgMem) (rpBdf : Nat) : Option Nat :=
  let rpSeg := pcieExtractBdfSeg rpBdf
  let regValue := readCfg P regs rpBdf type1Pbn (P.stack rpBdf)
  searchUnder P fuel regs rpSeg (secBus regValue) (subBus regValue)
    (busFunctions rpSeg (secBus regValue) (subBus regValue)) regValue

def getNfBdf (table : List Nat) (segment bus : Nat) : Nat :=
  let maxDevNum := table.foldl (fun maxDevNum bdf =>
    if segment = pcieExtractBdfSeg bdf ∧ pcieExtractBdfBus bdf = bus ∧
        maxDevNum < pcieExtractBdfDev bdf then pcieExtractBdfDev bdf else maxDevNum) 0
  let maxFuncNum :=
    if maxDevNum = pcieMaxDev - 1 then
      table.foldl (fun maxFuncNum bdf =>
        if segment = pcieExtractBdfSeg bdf ∧ pcieExtractBdfBus bdf = bus ∧
            pcieExtractBdfDev bdf = maxDevNum ∧ maxFuncNum < pcieExtractBdfFunc bdf then
          pcieExtractBdfFunc bdf
        else maxFuncNum) 0
    else 0
  if maxDevNum ≠ pcieMaxDev - 1 then pcieCreateBdf segment bus (maxDevNum + 1) maxFuncNum
  else if maxFuncNum ≠ pcieMaxFunc - 1 then pcieCreateBdf segment bus maxDevNum (maxFuncNum + 1)
  else 0

def writeCfgWidth (regs : CfgMem) (bdf offset data : Nat) (width : PciWidth) : CfgMem :=
  valPcieWriteCfgWidth (fun regs _ a data =>
    Function.update regs a (P.wr a (regs a) (BitVec.ofNat 32 data)))
      P.info regs bdf offset data width

/-- A read of 16 bits leaves the upper half of the variable as it was. -/
def setLow16 (regValue v : Nat) : Nat := regValue / 2 ^ 16 * 2 ^ 16 + v

def readCfg16 (regs : CfgMem) (bdf offset regValue : Nat) : Nat :=
  match valPcieReadCfgWidth P.info regs.read bdf offset .uint16 with
  | none => regValue
  | some v => setLow16 regValue v

/-- A probing load of the configuration space, `none` for a BDF without mapping. -/
def load (l : Load) (bdf offset : Nat) (width : PciWidth) (s : St) : Exits Abrupt (Option Nat) :=
  match valPcieReadCfgWidth P.info s.regs.read bdf offset width with
  | none => pure none
  | some _ =>
    match l with
    | .value v => pure (some (v % 2 ^ width.bits))
    | .exception => throw (.raised s)

def fail {α : Type} (checkpoint : Nat) (s : St) : Exits Abrupt α :=
  throw (.stop { s with status := resultFail testNum checkpoint })

def expect16 (l : Load) (bdf offset expected checkpoint : Nat) (s : St) : Exits Abrupt St := do
  let v ← load P l bdf offset .uint16 s
  let s := { s with regValue := v.elim s.regValue (setLow16 s.regValue) }
  if s.regValue ≠ expected then fail checkpoint s else pure s

def waitDeviceDiscovery (l : Nat → Load) (bdf : Nat) (s : St) : Nat → Nat → Exits Abrupt Bool
  | 0, _ => pure false
  | retry + 1, i => do
    let v ← load P (l i) bdf type01Vidr .uint32 s
    if v.getD 0 ≠ 0xFFFFFFFF then pure true else waitDeviceDiscovery l bdf s retry (i + 1)

def setFlr (devBdf afCapBase : Nat) (s : St) : St :=
  let offset := (afCapBase + afCtrl) % 2 ^ 32
  let flrReg := (valPcieReadCfgWidth P.info s.regs.read devBdf offset .uint8).getD (P.stack devBdf)
  { s with regs := writeCfgWidth P s.regs devBdf offset (flrReg ||| flrEn) .uint8 }

def disableCsr (bdf capBase : Nat) (s : St) : St :=
  let offset := (capBase + rtctrlOffset) % 2 ^ 32
  let regValue := readCfg16 P s.regs bdf offset s.regValue
  if regValue &&& csrEnable = csrEnable then
    let regValue := regValue &&& (0xFFFFFFFF ^^^ csrEnable)
    { s with regValue := regValue, regs := writeCfgWidth P s.regs bdf offset regValue .uint16 }
  else { s with regValue := regValue }

def enableCsr (bdf capBase : Nat) (s : St) : St :=
  let offset := (capBase + rtctrlOffset) % 2 ^ 32
  let regValue := readCfg16 P s.regs bdf offset s.regValue
  if regValue &&& csrEnable ≠ csrEnable then
    let regValue := regValue ||| csrEnable
    { s with regValue := regValue, regs := writeCfgWidth P s.regs bdf offset regValue .uint16 }
  else { s with regValue := regValue }

end

section

variable (P : Platform) (fuel : Nat) (probe : Nat → Probe → Load)

/-- Step 2: the vendor of a function that is not there. -/
def checkNf (bdf : Nat) (s : St) : Exits Abrupt St :=
  let nfBdf := getNfBdf P.table (pcieExtractBdfSeg bdf) (pcieExtractBdfBus bdf)
  if nfBdf = 0 then pure s
  else do
    let v ← load P (probe bdf .nf) nfBdf type01Vidr .uint32 s
    let s := { s with regValue := v.getD s.regValue }
    if v.isNone ∨ s.regValue ≠ 0xFFFFFFFF then fail 2 s
    else pure { s with regs := valPcieEnableBme (cfgHw P.wr) P.info s.regs nfBdf }

/-- Steps 1 to 3: the header, the function that is not there and the unaligned reads. -/
def checkAccess (bdf : Nat) (s : St) : Exits Abrupt St := do
  let s := { s with testSkip := false }
  if valPcieFunctionHeaderType (P.view s.regs) bdf ≠ type1HeaderType then fail 1 s
  else
    let s ← checkNf P probe bdf s
    let v ← load P (probe bdf .unaligned16) bdf (type01Vidr + 1) .uint16 s
    if v.getD (P.stack bdf) ≠ 0xFFFF then fail 3 s
    else
      let v ← load P (probe bdf .unaligned32) bdf (type01Vidr + 3) .uint32 s
      let s := { s with regValue := v.getD s.regValue }
      if s.regValue ≠ 0xFFFFFFFF then fail 4 s else pure s

/-- Steps 4 to 6: a device that supports the reset, and the port's capability. -/
def chooseDevice (bdf : Nat) (s : St) : Exits Abrupt (Nat × Nat × St) := do
  let devBdf ← ExceptT.lift (checkBdfUnderRp P fuel s.regs bdf)
  if devBdf = 0 then throw (.next s)
  else
    let capBase ← ExceptT.lift (findPciecs P fuel s.regs bdf)
    let s :=
      { s with regValue := readCfg16 P s.regs bdf ((capBase + rootcpOffset) % 2 ^ 32) s.regValue }
    if s.regValue &&& 0x01 ≠ 0x01 then throw (.next s)
    else if valPcieFunctionHeaderType (P.view s.regs) devBdf ≠ type0HeaderType then fail 5 s
    else pure (devBdf, capBase, s)

/-- Step 7: the reset without retry status. -/
def resetDevice (bdf devBdf capBase : Nat) (s : St) : Exits Abrupt (Nat × St) := do
  let s := disableCsr P bdf capBase s
  let (_, afCapBase) ← ExceptT.lift (valPcieFindCapability fuel P.info s.regs.read devBdf .pcieEcap
    ecidAf (P.stack devBdf) (P.stack devBdf))
  let s := setFlr P devBdf afCapBase s
  let s ← expect16 P (probe bdf .resetVendor) bdf type01Vidr 0xFFFF 6 s
  let ret ← waitDeviceDiscovery P (fun i => probe bdf (.discovery false i)) devBdf s 1000 0
  if ret = false then fail 6 s else pure (afCapBase, s)

/-- Step 8: the reset with retry status. -/
def retryDevice (bdf devBdf capBase afCapBase : Nat) (s : St) : Exits Abrupt St := do
  let s := enableCsr P bdf capBase s
  let s := setFlr P devBdf afCapBase s
  let s ← expect16 P (probe bdf .retryVendor) bdf type01Vidr 0x0001 7 s
  let s ← expect16 P (probe bdf .retryDevice) bdf (type01Vidr + 2) 0xFFFF 7 s
  let ret ← waitDeviceDiscovery P (fun i => probe bdf (.discovery true i)) devBdf s 1000 0
  if ret = false then fail 11 s else pure s

/-- Step 9: the link is disabled and enabled again. -/
def cutLink (bdf : Nat) (s : St) : Exits Abrupt St := do
  let capBase ← ExceptT.lift (findPciecs P fuel s.regs bdf)
  let offset := (capBase + lctrlrOffset) % 2 ^ 32
  let s := { s with regValue := readCfg P s.regs bdf offset s.regValue }
  let s :=
    if s.regValue &&& linkDisable ≠ linkDisable then
      { s with
        regValue := s.regValue ||| linkDisable
        regs := writeCfg P s.regs bdf offset (s.regValue ||| linkDisable) }
    else s
  let s ← expect16 P (probe bdf .linkDown) bdf type01Vidr 0xFFFF 12 s
  if s.regValue &&& linkDisable = linkDisable then
    let regValue := s.regValue &&& (0xFFFFFFFF ^^^ linkDisable)
    pure { s with regValue := regValue, regs := writeCfg P s.regs bdf offset regValue }
  else pure s

def testPort (bdf : Nat) (s : St) : Exits Abrupt St := do
  let s ← checkAccess P probe bdf s
  let (devBdf, capBase, s) ← chooseDevice P fuel bdf s
  let (afCapBase, s) ← resetDevice P fuel probe bdf devBdf capBase s
  let s ← retryDevice P probe bdf devBdf capBase afCapBase s
  cutLink P fuel probe bdf s

def finishPort (bdf : Nat) (s : St) : Option (Exit St) :=
  (finish P fuel bdf s.toSt).map (Exit.map (fun t => { s with toSt := t }))

def body (bdf : Nat) (s : St) : Option (Exit St) :=
  match valPcieDevicePortType (P.view s.regs) fuel bdf with
  | none => none
  | some dpType =>
    if dpType = rp then
      match (testPort P fuel probe bdf s).run with
      | none => none
      | some (.ok s) => finishPort P fuel bdf s
      | some (.error (.next s)) => some (.next s)
      | some (.error (.stop s)) => some (.stop s)
      | some (.error (.raised s)) => finishPort P fuel bdf { s with status := resultFail testNum 1 }
    else finishPort P fuel bdf s

/-- `uninit` is what the stack holds in `reg_value`. -/
def payload (esrStatus uninit : Nat) (regs : CfgMem) : Option (CfgMem × Nat) :=
  if esrStatus ≠ 0 then some (regs, resultFail testNum 1)
  else
    (overTable (body P fuel probe) P.table ⟨⟨regs, resultPending testNum, true⟩, uninit⟩).map
      (fun e => verdict testNum (e.map St.toSt))

end

end P005

/-! ## What p007 and p008 share -/

section

variable (P : Platform) (fuel : Nat)

/-- Bus mastering and memory space are enabled and the unsupported request bit cleared. -/
def prepare (regs : CfgMem) (bdf : Nat) : Option CfgMem :=
  let regs := valPcieEnableBme (cfgHw P.wr) P.info regs bdf
  let regs := valPcieEnableMsa (cfgHw P.wr) P.info regs bdf
  valPcieClearUrd fuel P.info P.wr bdf (P.stack bdf) regs

def memBaseOf (regValue : Nat) : Nat := (regValue &&& memBaMask) <<< memBaShift
def memLimOf (regValue : Nat) : Nat := regValue &&& memLimMask ||| memLimLowerBits

/-- From the first probing load, behind the narrowed window, to `exception_return`.
`probe` gives the outcome of the first and the second load, at their address. -/
def probeOutside (testNum : Nat) (probe : Nat → Nat → Load) (bdf newMemLim : Nat) (regs : CfgMem)
    (status : Nat) : Option (CfgMem × Nat) :=
  match probe 0 (newMemLim + memOffsetSmall) with
  | .exception => some (regs, resultFail testNum 1)
  | .value value =>
    let status := if value ≠ pcieUnknownResponse then resultFail testNum 3 else status
    match findPciecs P fuel regs bdf with
    | none => none
    | some capBase =>
      let offset := (capBase + lctrlrOffset) % 2 ^ 32
      let regValue := readCfg P regs bdf offset (P.stack bdf)
      if regValue &&& linkDisable ≠ linkDisable then
        let regs := writeCfg P regs bdf offset (regValue ||| linkDisable)
        match probe 1 (newMemLim + memOffsetSmall) with
        | .exception => some (regs, resultFail testNum 1)
        | .value value =>
          some (regs, if value ≠ pcieUnknownResponse then resultFail testNum 3 else status)
      else some (regs, status)

/-- "Write back original value", which both tests write to the prefetchable window. -/
def writeBack (regs : CfgMem) (bdf memLim oriMemBase : Nat) : CfgMem :=
  let regs := writeCfg P regs bdf type1PMem (memLim &&& memLimMask ||| oriMemBase >>> 16)
  writeCfg P regs bdf type1PMemLu (memLim >>> 32)

end

/-! ## p007 -/

namespace P007

def testNum : Nat := 800 + 7

section

variable (P : Platform) (fuel : Nat) (probe : Nat → Nat → Nat → Load)

def testWindow (bdf regValue : Nat) (s : St) : Option (Exit St) :=
  let memBase := memBaseOf regValue
  let memLim := memLimOf regValue
  if memLim < memBase then some (.next s)
  else
    let s := { s with testSkip := false }
    if memLim < memBase + memOffsetSmall then
      some (.stop { s with status := resultFail testNum 2 })
    else if memBase >>> memShift < memLim >>> memShift then
      let regs := writeCfg P s.regs bdf type1NpMem (memBase ||| memBase >>> 16)
      match probeOutside P fuel testNum (probe bdf) bdf (memBase + memOffsetLarge)
        regs s.status with
      | none => none
      | some (regs, status) =>
        finish P fuel bdf { s with regs := writeBack P regs bdf memLim memBase, status := status }
    else finish P fuel bdf s

def body (bdf : Nat) (s : St) : Option (Exit St) :=
  match valPcieDevicePortType (P.view s.regs) fuel bdf with
  | none => none
  | some dpType =>
    if dpType ≠ rp then some (.next s)
    else if checkBdfUnderRp P s.regs bdf = 0 then some (.next s)
    else
      match prepare P fuel s.regs bdf with
      | none => none
      | some regs =>
        let s := { s with regs := regs }
        let regValue := readCfg P regs bdf type1NpMem (P.stack bdf)
        if regValue = 0 then some (.next s) else testWindow P fuel probe bdf regValue s

/-- `esrStatus` is the joined result of installing the exception handlers. -/
def payload (esrStatus : Nat) (regs : CfgMem) : Option (CfgMem × Nat) :=
  if esrStatus ≠ 0 then some (regs, resultFail testNum 1)
  else
    (overTable (body P fuel probe) P.table ⟨regs, resultPending testNum, true⟩).map
      (verdict testNum)

end

end P007

/-! ## p008 -/

namespace P008

def testNum : Nat := 800 + 8

/-- The upper halves of base and limit are set before the loop and outlive an iteration. -/
structure St extends RootPorts.St where
  memBaseUpper : Nat
  memLimUpper : Nat

section

variable (P : Platform) (fuel : Nat) (probe : Nat → Nat → Nat → Load)

/-- The upper halves are read when the window in `regValue` has 64-bit addresses. -/
def readUppers (bdf regValue : Nat) (s : St) : St :=
  if regValue &&& pMemPacMask = 0x1 then
    let memBaseUpper := readCfg P s.regs bdf type1PMemBu regValue
    { s with
      memBaseUpper := memBaseUpper
      memLimUpper := readCfg P s.regs bdf type1PMemLu memBaseUpper }
  else s

/-- The range becomes 1 MB, and the upper halves are read again. -/
def narrow (bdf memBase : Nat) (s : St) : St :=
  let newValue := readCfg P s.regs bdf type1PMem (P.stack bdf)
  let regs :=
    if newValue &&& pMemPacMask = 0x1 then writeCfg P s.regs bdf type1PMemLu (memBase >>> 32)
    else s.regs
  let memBase := memBase % 2 ^ 32 ||| (memBase % 2 ^ 32) >>> 16
  let regs := writeCfg P regs bdf type1PMem memBase
  readUppers P bdf (readCfg P regs bdf type1PMem (P.stack bdf)) { s with regs := regs }

def finishWindow (bdf : Nat) (s : St) : Option (Exit St) :=
  (finish P fuel bdf s.toSt).map (Exit.map (fun t => { s with toSt := t }))

def testWindow (bdf regValue : Nat) (s : St) : Option (Exit St) :=
  let s := readUppers P bdf regValue s
  let memBase := memBaseOf regValue ||| s.memBaseUpper <<< 32
  let memLim := memLimOf regValue ||| s.memLimUpper <<< 32
  if memLim < memBase then some (.next s)
  else
    let s := { s with testSkip := false }
    if memLim < memBase + memOffsetSmall then
      some (.stop { s with status := resultFail testNum 2 })
    else if memBase >>> memShift < memLim >>> memShift then
      let s := narrow P bdf memBase s
      match probeOutside P fuel testNum (probe bdf) bdf (memBase + memOffsetLarge)
        s.regs s.status with
      | none => none
      | some (regs, status) =>
        finishWindow P fuel bdf
          { s with regs := writeBack P regs bdf memLim memBase, status := status }
    else finishWindow P fuel bdf s

def body (bdf : Nat) (s : St) : Option (Exit St) :=
  match valPcieDevicePortType (P.view s.regs) fuel bdf with
  | none => none
  | some dpType =>
    if dpType ≠ rp then some (.next s)
    else if checkBdfUnderRp P s.regs bdf = 0 then some (.next s)
    else
      match prepare P fuel s.regs bdf with
      | none => none
      | some regs =>
        let s := { s with regs := regs }
        let regValue := readCfg P regs bdf type1PMem (P.stack bdf)
        if regValue = 0 then some (.next s) else testWindow P fuel probe bdf regValue s

def payload (esrStatus : Nat) (regs : CfgMem) : Option (CfgMem × Nat) :=
  if esrStatus ≠ 0 then some (regs, resultFail testNum 1)
  else
    (overTable (body P fuel probe) P.table ⟨⟨regs, resultPending testNum, true⟩, 0, 0⟩).map
      (fun e => verdict testNum (e.map St.toSt))

end

end P008

end ServerSoc.Tests.RootPorts
