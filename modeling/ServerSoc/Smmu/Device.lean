/-
The stream table of an SMMU (smmu_v3.c, smmu_v3.h, smmu_reg.h).

The tables are words of a heap whose owners are these objects.  Physical and virtual addresses are
the same.  The list of masters only grows at its head, so it is numbered from its end.  A master
that is not in use is all zero.
-/
import ServerSoc.Base.Bits
import ServerSoc.Base.Heap

namespace ServerSoc.Smmu

open Base Function

/-! ## Words -/

def strtabSplit : Nat := 8
def strtabSteDwords : Nat := 8
def strtabL1DescDwords : Nat := 1
def strtabL1DescSize : Nat := 8

def strtabL1DescSpan (v : Nat) : Nat := setField 5 0 v
def strtabL1DescL2PtrMask : Nat := (2 ^ 46 - 1) <<< 6

def strtabSte0V : Nat := 1 <<< 0
def strtabSte0Config (v : Nat) : Nat := setField 3 1 v
def strtabSte0ConfigAbort : Nat := 0
def strtabSte0ConfigS1Trans : Nat := 5
def strtabSte0ConfigS2Trans : Nat := 6
def strtabSte0S1Fmt (v : Nat) : Nat := setField 2 4 v
def strtabSte0S1FmtLinear : Nat := 0
def strtabSte0S1Fmt64kL2 : Nat := 2
def strtabSte0S1ContextPtrMask : Nat := (2 ^ 46 - 1) <<< 6
def strtabSte0S1CdMax (v : Nat) : Nat := setField 5 59 v

def strtabSte1S1Dss (v : Nat) : Nat := setField 2 0 v
def strtabSte1S1Cir (v : Nat) : Nat := setField 2 2 v
def strtabSte1S1Cor (v : Nat) : Nat := setField 2 4 v
def strtabSte1S1Csh (v : Nat) : Nat := setField 2 6 v
def strtabSte1Eats (v : Nat) : Nat := setField 2 28 v
def strtabSte1Strw (v : Nat) : Nat := setField 2 30 v
def strtabSte1Shcfg (v : Nat) : Nat := setField 2 44 v
def strtabSte1S1DssSsid0 : Nat := 2
def strtabSte1S1cCacheWbra : Nat := 1
def strtabSte1ShcfgIncoming : Nat := 1
def smmuShIsh : Nat := 3

def strtabSte2S2Vmid (v : Nat) : Nat := setField 16 0 v
def strtabSte2Vtcr (v : Nat) : Nat := setField 19 32 v
def strtabSte2S2Aa64 : Nat := 1 <<< 51
def strtabSte2S2Ptw : Nat := 1 <<< 54
def strtabSte2S2R : Nat := 1 <<< 58

/-- The mask of the field, which the source uses without the shift. -/
def strtabSte3S2TtbMask : Nat := 2 ^ 48 - 1

def cdtabSplit : Nat := 10
def cdtabL2EntryCount : Nat := 1 <<< cdtabSplit
def cdtabCdDwords : Nat := 8
def cdtabL1DescDwords : Nat := 1
def cdtabL1DescV : Nat := 1 <<< 0
def cdtabL1DescL2PtrMask : Nat := (2 ^ 40 - 1) <<< 12

def cdtabCd0Epd1 : Nat := 1 <<< 30
def cdtabCd0V : Nat := 1 <<< 31
def cdtabCd0Aa64 : Nat := 1 <<< 41
def cdtabCd0R : Nat := 1 <<< 45
def cdtabCd0A : Nat := 1 <<< 46
def cdtabCd0Aset : Nat := 1 <<< 47
def cdtabCd0Asid (v : Nat) : Nat := setField 16 48 v
def cdtabCd1Ttb0Mask : Nat := 2 ^ 48 - 1

/-! ## Arguments -/

structure Tcr where
  ps : Fin 8
  tg : Fin 4
  sh : Fin 4
  orgn : Fin 4
  irgn : Fin 4
  tsz : Fin 64
  sl : Fin 4
  deriving DecidableEq, Repr

structure PgtDescriptor where
  pgtBase : Nat
  mair : Nat
  tcr : Tcr
  deriving DecidableEq, Repr

structure MasterAttributes where
  streamid : Nat
  substreamid : Nat
  ssidBits : Nat
  stage2 : Bool
  deriving DecidableEq, Repr

/-- What the allocator returns to the calls of `val_smmu_map`: for the level 2 table,
the context descriptor table and its leaf table. -/
structure Allocations where
  level2 : Nat
  cdtab : Nat
  leaf : Nat
  deriving DecidableEq, Repr

/-! ## State -/

inductive Owner where
  | strtab
  | level2 (i : Nat)
  | cdtab (k : Nat)
  | leaf (k i : Nat)
  deriving DecidableEq, Repr

inductive Stage where
  | s1 | s2
  deriving DecidableEq, Repr

/-- `smmu` says that the pointer is set, `cdtab64` is set with `cdtab_ptr`, and `l1Desc`
has the leaf tables of a context descriptor table of two levels. -/
structure Master where
  smmu : Bool
  stage : Stage
  cdtab64 : Option Nat
  l1Desc : Nat → Option Nat
  s1fmt : Nat
  s1cdmax : Nat
  sid : Nat
  ssid : Nat
  ssidBits : Nat

def Master.zero : Master where
  smmu := false
  stage := .s1
  cdtab64 := none
  l1Desc := fun _ => none
  s1fmt := 0
  s1cdmax := 0
  sid := 0
  ssid := 0
  ssidBits := 0

/-- An SMMU after `smmu_probe`, and where its stream table was allocated. -/
structure SmmuDev where
  sidBits : Nat
  stLevel2lvl : Bool
  cd2l : Bool
  s1p : Bool
  s2p : Bool
  strtabPtr : Nat
  deriving DecidableEq, Repr

/-- `level1` has the addresses of the level 2 tables that `l1_desc` points to, and the
masters are numbered in the order they were added. -/
structure State where
  heap : Heap Owner
  level1 : Nat → Option Nat
  count : Nat
  master : Nat → Master

def State.setMaster (d : State) (k : Nat) (m : Master) : State :=
  { d with master := update d.master k m }

def alignToSize (addr size : Nat) : Nat := (size - (addr &&& (size - 1)) + addr) &&& (2 ^ 64 - size)

/-- `val_memory_calloc`: the product is a 32-bit number. -/
def calloc (h : Heap Owner) (num size ptr : Nat) (o : Owner) : Heap Owner :=
  (h.claim ptr (num * size % 2 ^ 32) o).zero ptr (num * size % 2 ^ 32)

def SmmuDev.l1EntCount (smmu : SmmuDev) : Nat :=
  if smmu.stLevel2lvl then 1 <<< (smmu.sidBits - strtabSplit) else 1 <<< smmu.sidBits

def SmmuDev.strtabSize (smmu : SmmuDev) : Nat :=
  if smmu.stLevel2lvl then smmu.l1EntCount * strtabL1DescSize % 2 ^ 32
  else (1 <<< smmu.sidBits) * (strtabSteDwords <<< 3) % 2 ^ 32

def SmmuDev.strtab64 (smmu : SmmuDev) : Nat := alignToSize smmu.strtabPtr smmu.strtabSize

/-! ## Stream table -/

inductive StageConfig where
  | stage1 (cdtabPhys s1cdmax s1fmt : Nat)
  | stage2 (vmid vttbr vtcr : Nat)
  deriving DecidableEq, Repr

/-- `none` is the call without a master. -/
def smmuStrtabWriteSte (cfg : Option StageConfig) (ste : Nat) (h : Heap Owner) : Heap Owner :=
  match cfg with
  | none =>
    ((h.set ste (strtabSte0V ||| strtabSte0Config strtabSte0ConfigAbort)).set (ste + 8)
      (strtabSte1Shcfg strtabSte1ShcfgIncoming)).set (ste + 16) 0
  | some (.stage2 vmid vttbr vtcr) =>
    (((h.set (ste + 8) (h.mem (ste + 8) ||| (strtabSte1Strw 2 ||| strtabSte1Eats 1))).set (ste + 16)
      (strtabSte2S2Vmid vmid ||| strtabSte2Vtcr vtcr ||| strtabSte2S2Ptw ||| strtabSte2S2Aa64 |||
        strtabSte2S2R)).set (ste + 24) (vttbr &&& strtabSte3S2TtbMask)).set ste
      (strtabSte0V ||| strtabSte0Config strtabSte0ConfigS2Trans)
  | some (.stage1 cdtabPhys s1cdmax s1fmt) =>
    (h.set (ste + 8) (strtabSte1S1Dss strtabSte1S1DssSsid0 |||
      strtabSte1S1Cir strtabSte1S1cCacheWbra ||| strtabSte1S1Cor strtabSte1S1cCacheWbra |||
      strtabSte1S1Csh smmuShIsh ||| strtabSte1Eats 1)).set ste
      (strtabSte0V ||| (cdtabPhys &&& strtabSte0S1ContextPtrMask |||
        strtabSte0Config strtabSte0ConfigS1Trans ||| strtabSte0S1CdMax s1cdmax |||
        strtabSte0S1Fmt s1fmt))

def abortEntries (base n : Nat) (h : Heap Owner) : Heap Owner :=
  (List.range n).foldl (fun h i => smmuStrtabWriteSte none (base + i * (strtabSteDwords * 8)) h) h

/-- `smmu_strtab_init`.  The level 1 table is not cleared. -/
def smmuStrtabInit (smmu : SmmuDev) (h : Heap Owner) : State where
  heap :=
    if smmu.stLevel2lvl then h.claim smmu.strtabPtr (2 * smmu.strtabSize % 2 ^ 32) .strtab
    else abortEntries smmu.strtab64 smmu.l1EntCount
      (calloc h 2 smmu.strtabSize smmu.strtabPtr .strtab)
  level1 := fun _ => none
  count := 0
  master := fun _ => Master.zero

def smmuStrtabWriteLevel1Desc (dst span l2descPhys : Nat) (h : Heap Owner) : Heap Owner :=
  h.set dst (strtabL1DescSpan span ||| l2descPhys &&& strtabL1DescL2PtrMask)

def level2Size : Nat := (1 <<< strtabSplit) * strtabSteDwords * 8

def smmuStrtabInitLevel2 (smmu : SmmuDev) (d : State) (sid l2ptr : Nat) : State :=
  match d.level1 (sid >>> strtabSplit) with
  | some _ => d
  | none =>
    let strtab := smmu.strtab64 + (sid >>> strtabSplit) * strtabL1DescDwords * 8
    let l2desc64 := alignToSize l2ptr level2Size
    { d with
      heap := smmuStrtabWriteLevel1Desc strtab (strtabSplit + 1) l2desc64
        (abortEntries l2desc64 (1 <<< strtabSplit)
          (calloc d.heap 2 level2Size l2ptr (.level2 (sid >>> strtabSplit))))
      level1 := update d.level1 (sid >>> strtabSplit) (some l2desc64) }

def smmuStrtabGetSteForSid (smmu : SmmuDev) (d : State) (sid : Nat) : Nat :=
  if smmu.stLevel2lvl then
    (d.level1 ((sid >>> strtabSplit) * strtabL1DescDwords)).getD 0 +
      (sid &&& (1 <<< strtabSplit) - 1) * strtabSteDwords * 8
  else smmu.strtab64 + sid * strtabSteDwords % 2 ^ 32 * 8

/-! ## Masters -/

def findMaster (master : Nat → Master) (sid : Nat) : Nat → Option Nat
  | 0 => none
  | k + 1 => if (master k).sid = sid then some k else findMaster master sid k

/-- `smmu_master_at`.  The new node has stream id 0, whatever the argument. -/
def smmuMasterAt (d : State) (sid : Nat) : Nat × State :=
  match findMaster d.master sid d.count with
  | some k => (k, d)
  | none =>
    (d.count, { d with count := d.count + 1, master := update d.master d.count Master.zero })

/-! ## Context descriptors -/

structure CtxDesc where
  asid : Nat
  ttbr : Nat
  tcr : Nat
  mair : Nat
  deriving DecidableEq, Repr

/-- The context descriptor table of a master with this `s1cdmax` has two levels. -/
def SmmuDev.cdTwoLevel (smmu : SmmuDev) (s1cdmax : Nat) : Bool :=
  smmu.cd2l && decide (cdtabL2EntryCount < 1 <<< s1cdmax)

def SmmuDev.cdtabSize (smmu : SmmuDev) (s1cdmax : Nat) : Nat :=
  if smmu.cdTwoLevel s1cdmax then
    ((1 <<< s1cdmax) + cdtabL2EntryCount - 1) / cdtabL2EntryCount * (cdtabL1DescDwords <<< 3)
  else (1 <<< s1cdmax) * (cdtabCdDwords <<< 3)

def smmuCdtabAlloc (smmu : SmmuDev) (d : State) (k ptr : Nat) : State :=
  let m := d.master k
  let size := smmu.cdtabSize m.s1cdmax
  let m := { m with
    s1fmt := if smmu.cdTwoLevel m.s1cdmax then strtabSte0S1Fmt64kL2 else strtabSte0S1FmtLinear
    l1Desc := if smmu.cdTwoLevel m.s1cdmax then fun _ => none else m.l1Desc
    cdtab64 := some (alignToSize ptr size) }
  ({ d with heap := calloc d.heap 2 size ptr (.cdtab k) }).setMaster k m

def leafSize : Nat := cdtabL2EntryCount * (cdtabCdDwords <<< 3)

/-- The address of the descriptor, and the state with the leaf table it may need. -/
def smmuCdtabGetCtxDesc (d : State) (k leafPtr : Nat) : Nat × State :=
  let m := d.master k
  let cdtab64 := m.cdtab64.getD 0
  if m.s1fmt = strtabSte0S1FmtLinear then (cdtab64 + m.ssid * cdtabCdDwords % 2 ^ 32 * 8, d)
  else
    let idx := m.ssid >>> cdtabSplit
    let offset := (m.ssid &&& cdtabL2EntryCount - 1) * cdtabCdDwords * 8
    match m.l1Desc idx with
    | some l2desc64 => (l2desc64 + offset, d)
    | none =>
      let l2desc64 := alignToSize leafPtr leafSize
      let h := (d.heap.claim leafPtr (leafSize * 2 % 2 ^ 32) (.leaf k idx)).set
        (cdtab64 + idx * cdtabL1DescDwords * 8)
        (l2desc64 &&& cdtabL1DescL2PtrMask ||| cdtabL1DescV)
      (l2desc64 + offset,
        ({ d with heap := h }).setMaster k
          { m with l1Desc := update m.l1Desc idx (some l2desc64) })

def toInt32 (n : Nat) : Int := if n < 2 ^ 31 then n else (n : Int) - 2 ^ 32

/-- `none` is the return without success. -/
def smmuCdtabWriteCtxDesc (d : State) (k ssid leafPtr : Nat) (cd : CtxDesc) : Option State :=
  if toInt32 ssid ≥ ((1 <<< (d.master k).s1cdmax : Nat) : Int) then none
  else
    let cdptr := (smmuCdtabGetCtxDesc d k leafPtr).1
    let d := (smmuCdtabGetCtxDesc d k leafPtr).2
    some { d with heap :=
      (((d.heap.set (cdptr + 8) (cd.ttbr &&& cdtabCd1Ttb0Mask)).set (cdptr + 16) 0).set (cdptr + 24)
        cd.mair).set cdptr (cd.tcr ||| cdtabCd0R ||| cdtabCd0A ||| cdtabCd0Aset ||| cdtabCd0Aa64 |||
          cdtabCd0Asid cd.asid ||| cdtabCd0V) }

def smmuCdtabFree (h : Heap Owner) (k : Nat) : Heap Owner :=
  h.release (fun o =>
    match o with
    | .cdtab k' => k' = k
    | .leaf k' _ => k' = k
    | _ => false)

/-! ## Calls -/

def stage2Vtcr (tcr : Tcr) : Nat :=
  setField 6 0 tcr.tsz ||| setField 2 6 tcr.sl ||| setField 2 8 tcr.irgn |||
    setField 2 10 tcr.orgn |||
    setField 2 12 tcr.sh ||| setField 2 14 tcr.tg ||| setField 3 16 tcr.ps

def stage1Tcr (tcr : Tcr) : Nat :=
  setField 6 0 tcr.tsz ||| setField 2 6 tcr.tg ||| setField 2 8 tcr.irgn |||
    setField 2 10 tcr.orgn |||
    setField 2 12 tcr.sh ||| setField 3 32 tcr.ps ||| cdtabCd0Epd1 ||| cdtabCd0Aa64

def State.writeStream (smmu : SmmuDev) (d : State) (sid : Nat) (cfg : StageConfig) : State :=
  { d with heap := smmuStrtabWriteSte (some cfg) (smmuStrtabGetSteForSid smmu d sid) d.heap }

/-- The stage 1 configuration of master `k`, with a table allocated where it has none. -/
def prepareStage1 (smmu : SmmuDev) (d : State) (k cdtabPtr : Nat) : State :=
  let m := d.master k
  let d := d.setMaster k { m with s1cdmax := m.ssidBits % 2 ^ 8 }
  if m.cdtab64.isNone then smmuCdtabAlloc smmu d k cdtabPtr else d

def prepareLevel2 (smmu : SmmuDev) (d : State) (sid l2ptr : Nat) : State :=
  if smmu.stLevel2lvl then smmuStrtabInitLevel2 smmu d sid l2ptr else d

def mapStream (smmu : SmmuDev) (d : State) (k : Nat) (attr : MasterAttributes) (pgt : PgtDescriptor)
    (al : Allocations) : Nat × State :=
  if 1 <<< smmu.sidBits ≤ attr.streamid then (1, d)
  else
    let d := prepareLevel2 smmu d (d.master k).sid al.level2
    match (d.master k).stage with
    | .s2 => (0, d.writeStream smmu (d.master k).sid (.stage2 0 pgt.pgtBase (stage2Vtcr pgt.tcr)))
    | .s1 =>
      let d := prepareStage1 smmu d k al.cdtab
      match smmuCdtabWriteCtxDesc d k (d.master k).ssid al.leaf
          ⟨0, pgt.pgtBase, stage1Tcr pgt.tcr, pgt.mair⟩ with
      | none => (1, d)
      | some d =>
        let m := d.master k
        (0, d.writeStream smmu m.sid (.stage1 (m.cdtab64.getD 0) m.s1cdmax m.s1fmt))

def takeMaster (d : State) (attr : MasterAttributes) : Nat × State :=
  let k := (smmuMasterAt d attr.streamid).1
  let d := (smmuMasterAt d attr.streamid).2
  let m := d.master k
  (k, if m.smmu then d
    else d.setMaster k { m with smmu := true, sid := attr.streamid, ssidBits := attr.ssidBits })

def setStage (d : State) (k : Nat) (attr : MasterAttributes) : State :=
  d.setMaster k { d.master k with
    stage := if attr.stage2 then .s2 else .s1
    ssid := if attr.stage2 then (d.master k).ssid else attr.substreamid }

/-- `val_smmu_map` on an initialised SMMU, where the allocations succeed. -/
def valSmmuMap (smmu : SmmuDev) (d : State) (attr : MasterAttributes) (pgt : PgtDescriptor)
    (al : Allocations) : Nat × State :=
  let k := (takeMaster d attr).1
  let d := (takeMaster d attr).2
  if attr.stage2 && !smmu.s2p then (1, d)
  else if !attr.stage2 && !smmu.s1p then (1, d)
  else mapStream smmu (setStage d k attr) k attr pgt al

def valSmmuUnmap (smmu : SmmuDev) (d : State) (attr : MasterAttributes) : State :=
  let k := (smmuMasterAt d attr.streamid).1
  let d := (smmuMasterAt d attr.streamid).2
  if (d.master k).smmu then
    if 1 <<< smmu.sidBits ≤ attr.streamid then d
    else
      let h := smmuStrtabWriteSte none
        (smmu.strtab64 + attr.streamid * strtabSteDwords % 2 ^ 32 * 8) d.heap
      ({ d with heap := smmuCdtabFree h k }).setMaster k Master.zero
  else d

/-! ## What the SMMU finds in memory for a stream

`fetch` is the stream table entry the hardware reads for a stream id, and `fetchCd` the context
descriptor an entry leads to.  A `Config` is what a caller of `val_smmu_map` asks for. -/

abbrev Words := Fin 8 → Nat

def wordsAt (mem : Nat → Nat) (a : Nat) : Words := fun i => mem (a + 8 * i)

def SmmuDev.strtabBase (smmu : SmmuDev) : Nat := smmu.strtab64 &&& ((2 ^ 46 - 1) <<< 6)

def spanInvalid (desc : Nat) : Prop := getField 5 0 desc = 0 ∨ strtabSplit + 1 < getField 5 0 desc

instance (desc : Nat) : Decidable (spanInvalid desc) := inferInstanceAs (Decidable (_ ∨ _))

def entryAddr (smmu : SmmuDev) (mem : Nat → Nat) (sid : Nat) : Option Nat :=
  if smmu.stLevel2lvl then
    let desc := mem (smmu.strtabBase + sid / 256 * 8)
    if spanInvalid desc then none
    else if sid % 256 < 2 ^ (getField 5 0 desc - 1) then
      some ((desc &&& strtabL1DescL2PtrMask) + sid % 256 * 64)
    else none
  else some (smmu.strtabBase + sid * 64)

/-- `none` for an entry that is invalid or aborts. -/
def fetch (smmu : SmmuDev) (mem : Nat → Nat) (sid : Nat) : Option Words :=
  match entryAddr smmu mem sid with
  | none => none
  | some a =>
    let ste := wordsAt mem a
    if getField 1 0 (ste 0) = 0 ∨ getField 3 1 (ste 0) = strtabSte0ConfigAbort then none
    else some ste

/-- `none` for a descriptor that is invalid or has no leaf table. -/
def fetchCd (mem : Nat → Nat) (ste : Words) (ssid : Nat) : Option Words :=
  let ptr := ste 0 &&& strtabSte0S1ContextPtrMask
  let addr :=
    if getField 2 4 (ste 0) = strtabSte0S1FmtLinear then some (ptr + ssid * 64)
    else
      let desc := mem (ptr + ssid / 1024 * 8)
      if getField 1 0 desc = 0 then none
      else some ((desc &&& cdtabL1DescL2PtrMask) + ssid % 1024 * 64)
  match addr with
  | none => none
  | some a => if getField 1 31 (mem a) = 0 then none else some (wordsAt mem a)

inductive Config where
  | stage1 (ssidBits ssid : Nat) (pgt : PgtDescriptor)
  | stage2 (pgt : PgtDescriptor)
  deriving DecidableEq, Repr

def samplePgt : PgtDescriptor := ⟨0x80000, 0xff, ⟨5, 1, 3, 1, 1, 16, 2⟩⟩

structure Stage1Entry (ssidBits : Nat) (ste : Words) : Prop where
  config : getField 3 1 (ste 0) = strtabSte0ConfigS1Trans
  cdMax : getField 5 59 (ste 0) = ssidBits
  dss : getField 2 0 (ste 1) = strtabSte1S1DssSsid0
  inner : getField 2 2 (ste 1) = strtabSte1S1cCacheWbra
  outer : getField 2 4 (ste 1) = strtabSte1S1cCacheWbra
  shareability : getField 2 6 (ste 1) = smmuShIsh
  eats : getField 2 28 (ste 1) = 1

structure CtxDescFor (pgt : PgtDescriptor) (cd : Words) : Prop where
  t0sz : getField 6 0 (cd 0) = pgt.tcr.tsz
  tg0 : getField 2 6 (cd 0) = pgt.tcr.tg
  irgn0 : getField 2 8 (cd 0) = pgt.tcr.irgn
  orgn0 : getField 2 10 (cd 0) = pgt.tcr.orgn
  sh0 : getField 2 12 (cd 0) = pgt.tcr.sh
  epd1 : getField 1 30 (cd 0) = 1
  ips : getField 3 32 (cd 0) = pgt.tcr.ps
  aa64 : getField 1 41 (cd 0) = 1
  asid : getField 16 48 (cd 0) = 0
  ttb0 : cd 1 = pgt.pgtBase
  mair : cd 3 = pgt.mair

structure Stage2Entry (pgt : PgtDescriptor) (ste : Words) : Prop where
  config : getField 3 1 (ste 0) = strtabSte0ConfigS2Trans
  eats : getField 2 28 (ste 1) = 1
  strw : getField 2 30 (ste 1) = 2
  shcfg : getField 2 44 (ste 1) = strtabSte1ShcfgIncoming
  vmid : getField 16 0 (ste 2) = 0
  t0sz : getField 6 32 (ste 2) = pgt.tcr.tsz
  sl0 : getField 2 38 (ste 2) = pgt.tcr.sl
  ir0 : getField 2 40 (ste 2) = pgt.tcr.irgn
  or0 : getField 2 42 (ste 2) = pgt.tcr.orgn
  sh0 : getField 2 44 (ste 2) = pgt.tcr.sh
  tg : getField 2 46 (ste 2) = pgt.tcr.tg
  ps : getField 3 48 (ste 2) = pgt.tcr.ps
  aa64 : getField 1 51 (ste 2) = 1
  ttb : ste 3 = pgt.pgtBase

def Translates (smmu : SmmuDev) (mem : Nat → Nat) (sid : Nat) : Config → Prop
  | .stage1 ssidBits ssid pgt => ∃ ste, fetch smmu mem sid = some ste ∧ Stage1Entry ssidBits ste ∧
      ∃ cd, fetchCd mem ste ssid = some cd ∧ CtxDescFor pgt cd
  | .stage2 pgt => ∃ ste, fetch smmu mem sid = some ste ∧ Stage2Entry pgt ste

/-- The fetched entries are those of the table: a translation for a mapped stream, and
nothing but an invalid or aborting entry for the others. -/
def Refines (smmu : SmmuDev) (mem : Nat → Nat) (table : Nat → Option Config) : Prop :=
  ∀ sid < 2 ^ smmu.sidBits,
    match table sid with
    | none => fetch smmu mem sid = none
    | some c => Translates smmu mem sid c

/-! ## The words of an entry -/

def abortWord0 : Nat := strtabSte0V ||| strtabSte0Config strtabSte0ConfigAbort

def abortWord1 : Nat := strtabSte1Shcfg strtabSte1ShcfgIncoming

def stage1Word0 (cdtabPhys s1cdmax s1fmt : Nat) : Nat :=
  strtabSte0V ||| (cdtabPhys &&& strtabSte0S1ContextPtrMask |||
    strtabSte0Config strtabSte0ConfigS1Trans ||| strtabSte0S1CdMax s1cdmax |||
    strtabSte0S1Fmt s1fmt)

def stage1Word1 : Nat :=
  strtabSte1S1Dss strtabSte1S1DssSsid0 ||| strtabSte1S1Cir strtabSte1S1cCacheWbra |||
    strtabSte1S1Cor strtabSte1S1cCacheWbra ||| strtabSte1S1Csh smmuShIsh ||| strtabSte1Eats 1

def stage2Word0 : Nat := strtabSte0V ||| strtabSte0Config strtabSte0ConfigS2Trans

def stage2Word1 : Nat := abortWord1 ||| (strtabSte1Strw 2 ||| strtabSte1Eats 1)

def stage2Word2 (tcr : Tcr) : Nat :=
  strtabSte2S2Vmid 0 ||| strtabSte2Vtcr (stage2Vtcr tcr) ||| strtabSte2S2Ptw |||
    strtabSte2S2Aa64 ||| strtabSte2S2R

def cdWord0 (tcr : Tcr) : Nat :=
  stage1Tcr tcr ||| cdtabCd0R ||| cdtabCd0A ||| cdtabCd0Aset ||| cdtabCd0Aa64 ||| cdtabCd0Asid 0 |||
    cdtabCd0V

section

variable {ste cd : Words} {pgt : PgtDescriptor} {p s1cdmax s1fmt : Nat}

theorem stage1Word0_eq (p s1cdmax s1fmt : Nat) :
    stage1Word0 p s1cdmax s1fmt = setField 1 0 1 |||
      (setField 46 6 (p / 2 ^ 6) ||| setField 3 1 5 |||
      setField 5 59 s1cdmax ||| setField 2 4 s1fmt) := by
  rw [stage1Word0, strtabSte0S1ContextPtrMask, and_mask_eq_setField]
  rfl

theorem stage1Word0_valid (p s1cdmax s1fmt : Nat) :
    getField 1 0 (stage1Word0 p s1cdmax s1fmt) = 1 := by
  rw [stage1Word0_eq]
  simp (disch := decide)

theorem stage1Word0_config (p s1cdmax s1fmt : Nat) :
    getField 3 1 (stage1Word0 p s1cdmax s1fmt) = strtabSte0ConfigS1Trans := by
  rw [stage1Word0_eq]
  simp (disch := decide)
  rfl

theorem stage1Word0_cdMax (p : Nat) (h : s1cdmax < 2 ^ 5) (s1fmt : Nat) :
    getField 5 59 (stage1Word0 p s1cdmax s1fmt) = s1cdmax := by
  rw [stage1Word0_eq]
  simp (disch := decide)
  exact h

theorem stage1Word0_fmt (p s1cdmax : Nat) (h : s1fmt < 2 ^ 2) :
    getField 2 4 (stage1Word0 p s1cdmax s1fmt) = s1fmt := by
  rw [stage1Word0_eq]
  simp (disch := decide)
  exact h

theorem stage1Word0_ptrField (hlt : p < 2 ^ 52) (s1cdmax s1fmt : Nat) :
    getField 46 6 (stage1Word0 p s1cdmax s1fmt) = p / 2 ^ 6 := by
  rw [stage1Word0_eq]
  simp (disch := decide)
  omega

theorem stage1Word0_ptr (hal : p % 2 ^ 6 = 0) (hlt : p < 2 ^ 52) (s1cdmax s1fmt : Nat) :
    stage1Word0 p s1cdmax s1fmt &&& strtabSte0S1ContextPtrMask = p := by
  rw [strtabSte0S1ContextPtrMask, and_mask_eq_getField, stage1Word0_ptrField hlt]
  omega

theorem stage1Entry_of_words (h0 : ste 0 = stage1Word0 p s1cdmax s1fmt) (h1 : ste 1 = stage1Word1)
    (hmax : s1cdmax < 2 ^ 5) : Stage1Entry s1cdmax ste := by
  constructor
  · rw [h0, stage1Word0_config]
  · rw [h0, stage1Word0_cdMax p hmax]
  all_goals
    rw [h1]
    decide

theorem stage2Entry_of_words (h0 : ste 0 = stage2Word0) (h1 : ste 1 = stage2Word1)
    (h2 : ste 2 = stage2Word2 pgt.tcr) (h3 : ste 3 = pgt.pgtBase) : Stage2Entry pgt ste := by
  have hfields : ste 2 = setField 16 0 0 ||| setField 19 32 (setField 6 0 pgt.tcr.tsz |||
      setField 2 6 pgt.tcr.sl ||| setField 2 8 pgt.tcr.irgn ||| setField 2 10 pgt.tcr.orgn |||
      setField 2 12 pgt.tcr.sh ||| setField 2 14 pgt.tcr.tg ||| setField 3 16 pgt.tcr.ps) |||
      setField 1 54 1 ||| setField 1 51 1 ||| setField 1 58 1 := h2
  refine ⟨?_, ?_, ?_, ?_, ?_, ?_, ?_, ?_, ?_, ?_, ?_, ?_, ?_, h3⟩
  · rw [h0]
    decide
  · rw [h1]
    decide
  · rw [h1]
    decide
  · rw [h1]
    decide
  all_goals
    rw [hfields]
    simp (disch := decide)

theorem cdWord0_eq (tcr : Tcr) : cdWord0 tcr = setField 6 0 tcr.tsz ||| setField 2 6 tcr.tg |||
    setField 2 8 tcr.irgn ||| setField 2 10 tcr.orgn ||| setField 2 12 tcr.sh |||
      setField 3 32 tcr.ps |||
    setField 1 30 1 ||| setField 1 41 1 ||| setField 1 45 1 ||| setField 1 46 1 |||
      setField 1 47 1 |||
    setField 1 41 1 ||| setField 16 48 0 ||| setField 1 31 1 := rfl

theorem ctxDescFor_of_words (h0 : cd 0 = cdWord0 pgt.tcr) (h1 : cd 1 = pgt.pgtBase)
    (h3 : cd 3 = pgt.mair) : CtxDescFor pgt cd := by
  refine ⟨?_, ?_, ?_, ?_, ?_, ?_, ?_, ?_, ?_, h1, h3⟩
  all_goals
    rw [h0, cdWord0_eq]
    simp (disch := decide)

theorem cdWord0_valid (tcr : Tcr) : getField 1 31 (cdWord0 tcr) = 1 := by
  rw [cdWord0_eq]
  simp (disch := decide)

end

end ServerSoc.Smmu
