/-
What the tests of the root ports leave in their registers.

A test writes registers at a few offsets of the functions it looks at, and never changes one that
is read-only, as the headers of the capabilities are.  So what it does at a port depends on the
registers from before the test.
-/
import ServerSoc.Memory.Masked
import ServerSoc.Tests.RootPorts

namespace ServerSoc.Tests.RootPorts

open Base Memory Pcie Val Function List Nat

/-! ## Root ports -/

def windowRegisters : List Nat := [type1NpMem, type1PMem, type1PMemBu, type1PMemLu]

def windowMask : BitVec 32 := 0xFFF0FFF0

def ReadOnly (wr : RegWrite) (a : Nat) : Prop := ∀ old data, wr a old data = old

section

variable (P : Platform) (regs regs' : CfgMem) (bdf : Nat)

def word (offset : Nat) : BitVec 32 := regs (regAddress P.info bdf offset)

/-- Link Disable, for the PCIe capability at `o`. -/
def linkBit (o : Nat) : Bool := (word P regs bdf (o + lctrlrOffset)).getLsbD 4

def IsRootPort : Prop := HasType (P.view regs) bdf rp

structure Kept : Prop where
  link : ∀ o, PcieCapability P.info regs bdf o →
    linkBit P regs' bdf o = linkBit P regs bdf o
  windows : ∀ x ∈ windowRegisters, word P regs' bdf x = word P regs bdf x

def PortsKept : Prop := ∀ bdf ∈ P.table, IsRootPort P regs bdf → Kept P regs regs' bdf

structure FunctionHw (o : Nat) : Prop where
  capability : PcieCapability P.info regs bdf o
  offset : 0x40 ≤ o
  pointer : ReadOnly P.wr (regAddress P.info bdf type01Cpr)
  headers : ∀ l, CapChain P.info regs.read bdf .pcieCap l →
    ∀ x ∈ l, ReadOnly P.wr (regAddress P.info bdf x)

/-- What a write does to the registers of a root port: Link Disable and the addresses of
the windows are stored, the attributes of the windows are not, and the upper limit is
there for windows with 64-bit addresses. -/
structure PortHw (o : Nat) : Prop where
  header : valPcieFunctionHeaderType (P.view regs) bdf = type1HeaderType
  link : ∀ old data,
    (P.wr (regAddress P.info bdf (o + lctrlrOffset)) old data).getLsbD 4 = data.getLsbD 4
  windows : ∀ x ∈ [type1NpMem, type1PMem], ∀ old data,
    P.wr (regAddress P.info bdf x) old data = maskedWrite windowMask old data
  upper : if (word P regs bdf type1PMem).toNat &&& pMemPacMask = 0x1 then
      ∀ old data, P.wr (regAddress P.info bdf type1PMemLu) old data = data
    else ReadOnly P.wr (regAddress P.info bdf type1PMemLu)

structure Conforming : Prop where
  windows : EcamWindows (P.info.getD [])
  nodup : P.table.Nodup
  lt : ∀ bdf ∈ P.table, bdf < 2 ^ 32
  functions : ∀ bdf ∈ P.table, ∃ o, FunctionHw P regs bdf o
  ports : ∀ bdf ∈ P.table, ∀ o, PcieCapability P.info regs bdf o → IsRootPort P regs bdf →
    PortHw P regs bdf o

end

/-! ## Writes to a function -/

/-- Nothing changes but the registers of this function at the offsets `xs`, and nothing
that is read-only. -/
structure Frame (P : Platform) (bdf : Nat) (xs : List Nat) (regs regs' : CfgMem) : Prop where
  others : ∀ a, (∀ x ∈ xs, a ≠ regAddress P.info bdf x) → regs' a = regs a
  fixed : ∀ a, ReadOnly P.wr a → regs' a = regs a

variable {P : Platform} {regs regs' regs0 : CfgMem} {bdf o : Nat} {xs l : List Nat}

section

variable {regs1 : CfgMem} {y q : Nat} {ys : List Nat}

theorem Frame.refl (P : Platform) (bdf : Nat) (xs : List Nat) (regs : CfgMem) :
    Frame P bdf xs regs regs :=
  ⟨fun _ _ => rfl, fun _ _ => rfl⟩

theorem Frame.trans (h : Frame P bdf xs regs regs1) (h' : Frame P bdf xs regs1 regs') :
    Frame P bdf xs regs regs' :=
  ⟨fun a ha => (h'.others a ha).trans (h.others a ha),
    fun a ha => (h'.fixed a ha).trans (h.fixed a ha)⟩

theorem Frame.mono (h : Frame P bdf xs regs regs') (hsub : xs ⊆ ys) : Frame P bdf ys regs regs' :=
  ⟨fun a ha => h.others a (fun x hx => ha x (hsub hx)), h.fixed⟩

theorem frame_update (x : Nat) (data : BitVec 32) :
    Frame P bdf [x] regs (update regs (regAddress P.info bdf x)
      (P.wr (regAddress P.info bdf x) (regs (regAddress P.info bdf x)) data)) := by
  constructor
  · intro a ha
    exact update_of_ne (ha x mem_cons_self) _ _
  · intro a ha
    by_cases heq : a = regAddress P.info bdf x
    · subst heq
      rw [update_self, ha]
    · exact update_of_ne heq _ _

theorem Frame.word_eq (h : Frame P bdf xs regs regs') (hy : y < 2 ^ 32)
    (hxs : ∀ x ∈ xs, x < 2 ^ 32 ∧ y ≠ x) : word P regs' bdf y = word P regs bdf y :=
  h.others _ fun x hx => regAddress_ne _ _ hy (hxs x hx).1 (hxs x hx).2

theorem Frame.word_apart (h : Frame P bdf xs regs regs') (hw : EcamWindows (P.info.getD []))
    (hbdf : bdf < 2 ^ 32) (hmap : Mapped P.info bdf) (hxs : ∀ x ∈ xs, x < 4096) (hq : q < 2 ^ 32)
    (hmapq : Mapped P.info q) (hne : q ≠ bdf) (hy : y < 4096) :
    word P regs' q y = word P regs q y :=
  h.others _ (fun x hx => regAddress_apart hw hq hbdf hmapq hmap hne (by omega) (hxs x hx)
    (.inl hy))

section

variable (hmap : Mapped P.info bdf)
include hmap

theorem writeCfg_of_mapped (x data : Nat) :
    writeCfg P regs bdf x data = update regs (regAddress P.info bdf x)
      (P.wr (regAddress P.info bdf x) (regs (regAddress P.info bdf x)) (BitVec.ofNat 32 data)) :=
  valPcieWriteCfg_of_mapped hmap x data

theorem frame_writeCfg (x data : Nat) : Frame P bdf [x] regs (writeCfg P regs bdf x data) := by
  rw [writeCfg_of_mapped hmap]
  exact frame_update x _

theorem word_writeCfg (x data : Nat) :
    word P (writeCfg P regs bdf x data) bdf x =
      P.wr (regAddress P.info bdf x) (word P regs bdf x) (BitVec.ofNat 32 data) := by
  rw [word, writeCfg_of_mapped hmap, update_self]
  rfl

theorem readCfg_of_mapped (x regValue : Nat) :
    readCfg P regs bdf x regValue = (word P regs bdf x).toNat := by
  rw [readCfg, valPcieReadCfg_of_mapped hmap]
  exact mod_eq_of_lt (BitVec.isLt _)

end

theorem readCfg_congr {x : Nat} (h : Mapped P.info bdf → word P regs' bdf x = word P regs bdf x)
    (regValue : Nat) : readCfg P regs' bdf x regValue = readCfg P regs bdf x regValue := by
  by_cases hmap : Mapped P.info bdf
  · rw [readCfg_of_mapped hmap, readCfg_of_mapped hmap, h hmap]
  · rw [readCfg, readCfg, valPcieReadCfg_of_not_mapped hmap, valPcieReadCfg_of_not_mapped hmap]

/-! ## The capability and the type of a function -/

section

variable (hf : FunctionHw P regs bdf o)
include hf

theorem FunctionHw.lt : o < 256 := by
  obtain ⟨l, hl, -, hfind⟩ := hf.capability.found
  exact capChain_lt (and_le_right.trans_lt (by decide)) hl o
    (mem_of_find?_eq_some hfind)

theorem FunctionHw.mapped : Mapped P.info bdf := hf.capability.mapped

theorem FunctionHw.header_fixed : ReadOnly P.wr (regAddress P.info bdf o) := by
  obtain ⟨l, hl, -, hfind⟩ := hf.capability.found
  exact hf.headers l hl o (mem_of_find?_eq_some hfind)

theorem FunctionHw.of_fixed (hfixed : ∀ a, ReadOnly P.wr a → regs' a = regs a) :
    FunctionHw P regs' bdf o := by
  have hlist : ∀ l, CapChain P.info regs.read bdf .pcieCap l → ∀ x ∈ l,
      cfgWord P.info regs'.read bdf x = cfgWord P.info regs.read bdf x :=
    fun l hl x hx => cfgWord_congr (hfixed _ (hf.headers l hl x hx))
  have hcpr : cfgWord P.info regs'.read bdf type01Cpr = cfgWord P.info regs.read bdf type01Cpr :=
    cfgWord_congr (hfixed _ hf.pointer)
  have hcap := hf.capability.of_same hcpr fun l hl _ => hlist l hl
  refine ⟨hcap, hf.offset, hf.pointer, fun l hl => ?_⟩
  -- the list is the same one
  obtain ⟨l0, hl0, -⟩ := hf.capability.found
  have hl1 : CapChain P.info regs'.read bdf .pcieCap l0 := by
    rw [CapChain, capStart, hcpr]
    exact hl0.congr fun x hx => by rw [capNext, capNext, hlist l0 hl0 x hx]
  rw [Chain.unique hl hl1]
  exact hf.headers l0 hl0

variable {fuel : Nat}

theorem FunctionHw.find {capBase : Nat} (h : findPciecs P fuel regs bdf = some capBase) :
    capBase = o := by
  rw [findPciecs, Option.map_eq_some_iff] at h
  obtain ⟨r, hr, rfl⟩ := h
  rw [(hf.capability.search (P.stack bdf) (P.stack bdf)).2 fuel r hr]

theorem capability_unique {o' : Nat} (h : PcieCapability P.info regs bdf o') : o' = o := by
  obtain ⟨⟨fuel, hfuel⟩, -⟩ := h.search (P.stack bdf) (P.stack bdf)
  exact congrArg Prod.snd ((hf.capability.search _ _).2 fuel _ hfuel)

theorem portType_unique (hfixed : ∀ a, ReadOnly P.wr a → regs' a = regs a) {fuel' d d' : Nat}
    (h : valPcieDevicePortType (P.view regs) fuel bdf = some d)
    (h' : valPcieDevicePortType (P.view regs') fuel' bdf = some d') : d = d' := by
  have hf' := hf.of_fixed hfixed
  have hword : cfgWord P.info regs'.read bdf ((o + cidrOffset) % 2 ^ 32) =
      cfgWord P.info regs.read bdf ((o + cidrOffset) % 2 ^ 32) := by
    have ho := hf.lt
    rw [cidrOffset, mod_eq_of_lt (by omega)]
    exact cfgWord_congr (hfixed _ hf.header_fixed)
  have hsearch := (hf.capability.search (P.stack bdf) (P.stack bdf)).2
  have hsearch' := (hf'.capability.search (P.stack bdf) (P.stack bdf)).2
  rw [valPcieDevicePortType] at h h'
  split at h
  · cases h
  · rename_i ret base heq
    cases hsearch _ _ heq
    split at h'
    · cases h'
    · rename_i ret' base' heq'
      cases hsearch' _ _ heq'
      simp only [Platform.view, valPcieReadCfg_of_mapped hf.mapped, hword] at h h'
      exact Option.some.inj (h.symm.trans h')

end

theorem exists_portType (v : CfgView) {r : Nat × Nat}
    (h : valPcieFindCapability fuel v.info v.read bdf .pcieCap cidPciecs (v.stack bdf)
      (v.stack bdf) = some r) : ∃ d, valPcieDevicePortType v fuel bdf = some d := by
  obtain ⟨ret, capBase⟩ := r
  rw [← Option.isSome_iff_exists, valPcieDevicePortType, h]
  dsimp only
  cases valPcieReadCfg v.info v.read bdf ((capBase + cidrOffset) % 2 ^ 32) with
  | none => rfl
  | some regValue => simp only [apply_ite Option.isSome, Option.isSome_some, ite_self]

theorem portType_eq_rp_iff (hf : FunctionHw P regs bdf o)
    (hfixed : ∀ a, ReadOnly P.wr a → regs' a = regs a) {d : Nat}
    (h : valPcieDevicePortType (P.view regs') fuel bdf = some d) :
    d = rp ↔ IsRootPort P regs bdf := by
  constructor
  · rintro rfl
    obtain ⟨⟨fuel0, hfuel0⟩, -⟩ := hf.capability.search (P.stack bdf) (P.stack bdf)
    obtain ⟨d, hd⟩ := exists_portType (P.view regs) hfuel0
    exact ⟨fuel0, portType_unique hf hfixed hd h ▸ hd⟩
  · rintro ⟨fuel0, hd⟩
    exact (portType_unique hf hfixed hd h).symm

/-! ## The helpers -/

theorem frame_clearUrd (hf : FunctionHw P regs bdf o) {uninit : Nat}
    (h : valPcieClearUrd fuel P.info P.wr bdf uninit regs = some regs') :
    Frame P bdf [o + dctlrOffset] regs regs' := by
  rw [← (hf.capability.modifyDctlr uninit _ regs').mp ⟨fuel, h⟩, modifyCfg_of_mapped hf.mapped]
  exact frame_update _ _

theorem frame_prepare (hf : FunctionHw P regs bdf o) (h : prepare P fuel regs bdf = some regs') :
    Frame P bdf [type01Cr, o + dctlrOffset] regs regs' := by
  have hbme : Frame P bdf [type01Cr] regs (valPcieEnableBme (cfgHw P.wr) P.info regs bdf) :=
    frame_writeCfg hf.mapped type01Cr _
  have hmsa := hbme.trans (frame_writeCfg hf.mapped type01Cr _ :
    Frame P bdf [type01Cr] _ (valPcieEnableMsa (cfgHw P.wr) P.info _ bdf))
  have hurd := frame_clearUrd (hf.of_fixed hmsa.fixed) h
  exact (hmsa.mono (by simp)).trans (hurd.mono (by simp))

theorem frame_finish {s : St} {e : Exit St} (hf : FunctionHw P s.regs bdf o)
    (h : finish P fuel bdf s = some e) :
    (isTestFail s.status = false ∧ e = .next s) ∨
      (isTestFail s.status = true ∧ ∃ regs', e = .stop { s with regs := regs' } ∧
        Frame P bdf [o + dctlrOffset] s.regs regs') := by
  rw [finish] at h
  cases hfail : isTestFail s.status with
  | false =>
    rw [hfail] at h
    exact .inl ⟨rfl, (Option.some.inj h).symm⟩
  | true =>
    rw [hfail, if_pos rfl] at h
    split at h
    · cases h
    · rename_i regs' heq
      exact .inr ⟨rfl, regs', (Option.some.inj h).symm, frame_clearUrd hf heq⟩

theorem and_linkDisable (n : Nat) : n &&& linkDisable = linkDisable ↔ n.testBit 4 = true := by
  rw [show linkDisable = 2 ^ 4 from rfl, and_two_pow]
  cases n.testBit 4 <;> decide

theorem isTestFail_resultFail {testNum n : Nat} (htest : testNum < 2 ^ 16) (hn : n < 2 ^ 28) :
    isTestFail (resultFail testNum n) = true := by
  rw [isTestFail, resultFail, stateOf_result .fail htest hn]
  rfl

/-- The link is disabled, unless an exception comes first or it was disabled before.  In
these cases the status fails exactly when the first load did not return all ones. -/
theorem probeOutside_spec (hf : FunctionHw P regs bdf o) (hlink : ∀ old data,
      (P.wr (regAddress P.info bdf (o + lctrlrOffset)) old data).getLsbD 4 = data.getLsbD 4)
    {testNum a status status' : Nat} {probe : Nat → Nat → Load} (htest : testNum < 2 ^ 16)
    (h : probeOutside P fuel testNum probe bdf a regs status = some (regs', status')) :
    Frame P bdf [o + lctrlrOffset] regs regs' ∧
      (linkBit P regs' bdf o = linkBit P regs bdf o ↔
        linkBit P regs bdf o = true ∨ probe 0 (a + memOffsetSmall) = .exception) ∧
      (linkBit P regs bdf o = true ∨ probe 0 (a + memOffsetSmall) = .exception →
        isTestFail status = false →
        (isTestFail status' = false ↔ probe 0 (a + memOffsetSmall) =
          .value pcieUnknownResponse)) := by
  rw [probeOutside] at h
  cases hprobe : probe 0 (a + memOffsetSmall) with
  | exception =>
    rw [hprobe] at h
    cases h
    refine ⟨.refl _ _ _ _, iff_of_true rfl (.inr rfl), fun _ _ => ?_⟩
    simp [isTestFail_resultFail htest (show 1 < 2 ^ 28 by decide)]
  | value v =>
    rw [hprobe] at h
    dsimp only at h
    split at h
    · cases h
    · rename_i capBase hfind
      have ho := hf.lt
      cases hf.find hfind
      rw [mod_eq_of_lt (by rw [lctrlrOffset]; omega),
        readCfg_of_mapped hf.mapped] at h
      by_cases hbit : linkBit P regs bdf o = true
      · -- the link is disabled already
        rw [if_neg (not_not.mpr ((and_linkDisable _).mpr hbit))] at h
        cases h
        refine ⟨.refl _ _ _ _, iff_of_true rfl (.inl hbit), fun _ hstatus => ?_⟩
        by_cases hv : v = pcieUnknownResponse
        · simp [hv, hstatus]
        · simp [hv, isTestFail_resultFail htest (show 3 < 2 ^ 28 by decide)]
      · rw [if_pos (fun heq => hbit ((and_linkDisable _).mp heq))] at h
        have hregs : regs' = writeCfg P regs bdf (o + lctrlrOffset)
            ((word P regs bdf (o + lctrlrOffset)).toNat ||| linkDisable) := by
          split at h <;> cases h <;> rfl
        have hset : linkBit P regs' bdf o = true := by
          rw [linkBit, hregs, word_writeCfg hf.mapped, hlink, BitVec.getLsbD_ofNat, testBit_or,
            show linkDisable.testBit 4 = true by decide]
          simp
        refine ⟨hregs ▸ frame_writeCfg hf.mapped _ _, ?_, ?_⟩
        · rw [hset]
          simp
        · rintro (hyes | hyes)
          · exact absurd hyes hbit
          · cases hyes

/-! ## Functions that the loop has not reached -/

def portOffsets (o : Nat) : List Nat :=
  [type01Cr, o + dctlrOffset, o + lctrlrOffset, type1NpMem, type1PMem, type1PMemLu]

theorem portOffsets_spec (hf : FunctionHw P regs bdf o) :
    ∀ x ∈ portOffsets o, x < 4096 ∧ x ≠ type01Vidr ∧ x ≠ type01Ridr := by
  have hlt := hf.lt
  have hge := hf.offset
  simp only [portOffsets, dctlrOffset, lctrlrOffset, forall_mem_cons, not_mem_nil,
    false_imp_iff, implies_true]
  refine ⟨by decide, ⟨by omega, ?_, ?_⟩, ⟨by omega, ?_, ?_⟩, by decide, by decide, by decide⟩
  all_goals simp only [type01Vidr, type01Ridr]; omega

structure Pending (P : Platform) (regs0 : CfgMem) (l : List Nat) (regs : CfgMem) : Prop where
  ident : ∀ q < 2 ^ 32, Mapped P.info q → ∀ x ∈ [type01Vidr, type01Ridr],
    word P regs q x = word P regs0 q x
  rest : ∀ q ∈ l, ∀ x < 4096, word P regs q x = word P regs0 q x
  fixed : ∀ a, ReadOnly P.wr a → regs a = regs0 a

theorem Pending.refl (P : Platform) (regs : CfgMem) (l : List Nat) : Pending P regs l regs :=
  ⟨fun _ _ _ _ _ => rfl, fun _ _ _ _ => rfl, fun _ _ => rfl⟩

theorem Pending.step (hc : Conforming P regs0) (hbdf : bdf ∈ P.table)
    (h : Pending P regs0 (bdf :: l) regs) (hf : FunctionHw P regs0 bdf o) (hnot : bdf ∉ l)
    (hl : ∀ q ∈ l, q ∈ P.table) (hframe : Frame P bdf (portOffsets o) regs regs') :
    Pending P regs0 l regs' := by
  have hspec := portOffsets_spec hf
  refine ⟨fun q hq hmap x hx => ?_, fun q hq x hx => ?_, fun a ha => ?_⟩
  · rw [← h.ident q hq hmap x hx]
    have hlow : x < 4096 ∧ (x = type01Vidr ∨ x = type01Ridr) := by
      simp only [mem_cons, not_mem_nil, or_false] at hx
      rcases hx with rfl | rfl <;> decide
    by_cases heq : q = bdf
    · subst heq
      refine hframe.word_eq (by omega) fun y hy => ?_
      obtain ⟨hylt, hy0, hy8⟩ := hspec y hy
      omega
    · exact hframe.word_apart hc.windows (hc.lt bdf hbdf) hf.mapped (fun y hy => (hspec y hy).1) hq
        hmap heq hlow.1
  · rw [← h.rest q (mem_cons_of_mem _ hq) x hx]
    obtain ⟨o', hf'⟩ := hc.functions q (hl q hq)
    exact hframe.word_apart hc.windows (hc.lt bdf hbdf) hf.mapped (fun y hy => (hspec y hy).1)
      (hc.lt q (hl q hq)) hf'.mapped (fun heq => hnot (heq ▸ hq)) hx
  · rw [hframe.fixed a ha, h.fixed a ha]

theorem searchUnder_congr {seg sec sub : Nat}
    (h : ∀ q ∈ l, Mapped P.info q → ∀ x ∈ [type01Vidr, type01Ridr],
      word P regs q x = word P regs0 q x) (regValue : Nat) :
    searchUnder P regs seg sec sub l regValue = searchUnder P regs0 seg sec sub l regValue := by
  induction l generalizing regValue with
  | nil => rfl
  | cons q rest ih =>
    have hv := fun r => readCfg_congr (fun hmap => h q mem_cons_self hmap type01Vidr (by simp)) r
    have hr := fun r => readCfg_congr (fun hmap => h q mem_cons_self hmap type01Ridr (by simp)) r
    have ih := ih fun q hq => h q (mem_cons_of_mem _ hq)
    simp [searchUnder, hv, hr, ih]

theorem lt_of_mem_busFunctions {seg a b : Nat} (h : q ∈ busFunctions seg a b) : q < 2 ^ 32 := by
  simp only [busFunctions, mem_flatMap, mem_map] at h
  obtain ⟨bus, -, dev, -, func, -, rfl⟩ := h
  exact mod_lt _ (by decide)

theorem Pending.checkBdfUnderRp (h : Pending P regs0 (bdf :: l) regs) :
    checkBdfUnderRp P regs bdf = checkBdfUnderRp P regs0 bdf := by
  have hpbn : ∀ r, readCfg P regs bdf type1Pbn r = readCfg P regs0 bdf type1Pbn r :=
    readCfg_congr fun _ => h.rest bdf mem_cons_self _ (by decide)
  simp only [RootPorts.checkBdfUnderRp, hpbn]
  exact searchUnder_congr (fun q hq hmap => h.ident q (lt_of_mem_busFunctions hq) hmap) _

end

/-! ## Windows -/

theorem memBaseOf_eq (w : Nat) : memBaseOf w = w / 16 % 4096 * 2 ^ 20 := by
  have hmask : w &&& memBaMask = (w / 2 ^ 4 % 2 ^ 12) <<< 4 := and_mask w 12 4
  rw [memBaseOf, memBaShift]
  omega

theorem memLimOf_eq (w : Nat) : memLimOf w = w / 2 ^ 20 % 4096 * 2 ^ 20 + (2 ^ 20 - 1) := by
  have hmask : w &&& memLimMask = (w / 2 ^ 20 % 2 ^ 12) <<< 20 := and_mask w 12 20
  rw [memLimOf, hmask]
  exact shiftLeft_or (by decide)

def Wide (memBase memLim : Nat) : Prop := memBase >>> memShift < memLim >>> memShift

instance (memBase memLim : Nat) : Decidable (Wide memBase memLim) :=
  inferInstanceAs (Decidable (_ < _))

theorem wide_iff (w : Nat) :
    Wide (memBaseOf w) (memLimOf w) ↔ w / 16 % 4096 < w / 2 ^ 20 % 4096 := by
  rw [Wide, memBaseOf_eq, memLimOf_eq, memShift]
  omega

/-- A window register stores its base and its limit, and not the attributes below them. -/
structure Stored (old data new : Nat) : Prop where
  base : getField 12 4 data = getField 12 4 new
  baseAttr : getField 4 0 old = getField 4 0 new
  limit : getField 12 20 data = getField 12 20 new
  limitAttr : getField 4 16 old = getField 4 16 new

theorem maskedWrite_eq_iff (old w : BitVec 32) (data : Nat) :
    maskedWrite windowMask old (BitVec.ofNat 32 data) = w ↔ Stored old.toNat data w.toNat := by
  generalize hnew : maskedWrite windowMask old (BitVec.ofNat 32 data) = new
  have hset : ∀ i < 32, windowMask.getLsbD i = true → data.testBit i = new.getLsbD i := by
    intro i hi h
    simp [← hnew, maskedWrite, h, hi, BitVec.getLsbD_ofNat, -BitVec.getLsbD_eq_getElem]
  have hclear : ∀ i < 32, windowMask.getLsbD i = false → old.getLsbD i = new.getLsbD i := by
    intro i hi h
    simp [← hnew, maskedWrite, h, hi, -BitVec.getLsbD_eq_getElem]
  have hstored : Stored old.toNat data new.toNat :=
    ⟨getField_congr (fun i hi => hset _ (by omega) (by revert i; decide)),
      getField_congr (fun i hi => hclear _ (by omega) (by revert i; decide)),
      getField_congr (fun i hi => hset _ (by omega) (by revert i; decide)),
      getField_congr (fun i hi => hclear _ (by omega) (by revert i; decide))⟩
  constructor
  · rintro rfl
    exact hstored
  · intro h
    have hlt := w.isLt
    have hlt' := new.isLt
    obtain ⟨hbase, hattr, hlimit, hattr'⟩ := h
    rw [hstored.base, getField_eq, getField_eq] at hbase
    rw [hstored.baseAttr, getField_eq, getField_eq] at hattr
    rw [hstored.limit, getField_eq, getField_eq] at hlimit
    rw [hstored.limitAttr, getField_eq, getField_eq] at hattr'
    exact BitVec.eq_of_toNat_eq (by omega)

theorem narrowed_ne {w : BitVec 32} (h : Wide (memBaseOf w.toNat) (memLimOf w.toNat)) :
    maskedWrite windowMask w
      (BitVec.ofNat 32 (memBaseOf w.toNat ||| memBaseOf w.toNat >>> 16)) ≠ w := by
  intro heq
  have hlim := ((maskedWrite_eq_iff _ _ _).mp heq).limit
  have hzero : getField 12 20 (memBaseOf w.toNat >>> 16) = 0 := by
    rw [getField_eq, memBaseOf_eq]
    omega
  rw [getField_or, hzero, Nat.or_zero, memBaseOf_eq, getField_eq, getField_eq] at hlim
  rw [wide_iff] at h
  omega

def Exit.state {σ : Type} : Exit σ → σ
  | .next s => s
  | .stop s => s

theorem Exit.forall_next {σ : Type} {s : σ} {Q : σ → Prop} :
    (∀ s', Exit.next s = .next s' → Q s') ↔ Q s :=
  ⟨fun h => h s rfl, by rintro h s' ⟨⟩; exact h⟩

/-! ## Ports that a test takes -/

section

variable (P : Platform) (regs : CfgMem) (bdf : Nat)

def Tested : Prop := IsRootPort P regs bdf ∧ checkBdfUnderRp P regs bdf ≠ 0

def LinkDisabled : Prop :=
  ∃ o, PcieCapability P.info regs bdf o ∧ linkBit P regs bdf o = true

def windowBase (offset : Nat) : Nat := memBaseOf (word P regs bdf offset).toNat
def windowLimit (offset : Nat) : Nat := memLimOf (word P regs bdf offset).toNat

end

section

variable {fuel : Nat} {σ : Type} {regsOf : σ → CfgMem} {body : Nat → σ → Option (Exit σ)}
  {C : List Nat → σ → Prop} {e : Exit σ} {s : σ}

theorem linkDisabled_iff (hf : FunctionHw P regs bdf o) :
    LinkDisabled P regs bdf ↔ linkBit P regs bdf o = true := by
  constructor
  · rintro ⟨o', hcap, hbit⟩
    rwa [capability_unique hf hcap] at hbit
  · intro h
    exact ⟨o, hf.capability, h⟩

theorem kept_iff (hf : FunctionHw P regs bdf o) :
    Kept P regs regs' bdf ↔
      linkBit P regs' bdf o = linkBit P regs bdf o ∧
        ∀ x ∈ windowRegisters, word P regs' bdf x = word P regs bdf x := by
  constructor
  · intro h
    exact ⟨h.link o hf.capability, h.windows⟩
  · rintro ⟨hlink, hwin⟩
    refine ⟨fun o' hcap => ?_, hwin⟩
    rw [capability_unique hf hcap]
    exact hlink

def portRegisters (o : Nat) : List Nat := (o + lctrlrOffset) :: windowRegisters

section

variable (hf : FunctionHw P regs bdf o)
include hf

theorem portRegisters_spec :
    ∀ x ∈ portRegisters o, x < 4096 ∧ x ≠ type01Cr ∧ x ≠ o + dctlrOffset := by
  have hlt := hf.lt
  have hge := hf.offset
  have hwin : ∀ x ∈ windowRegisters, x < 0x30 ∧ x ≠ type01Cr := by decide
  intro x hx
  rcases mem_cons.mp hx with rfl | hx
  · rw [lctrlrOffset, dctlrOffset, type01Cr]
    omega
  · have hsmall := hwin x hx
    omega

theorem kept_of_words
    (h : ∀ x ∈ portRegisters o, word P regs' bdf x = word P regs bdf x) :
    Kept P regs regs' bdf := by
  refine (kept_iff hf).mpr ⟨?_, fun x hx => h x (mem_cons_of_mem _ hx)⟩
  rw [linkBit, linkBit, h _ mem_cons_self]

theorem kept_of_same
    (h : ∀ x < 4096, word P regs' bdf x = word P regs bdf x) : Kept P regs regs' bdf :=
  kept_of_words hf fun x hx => h x (portRegisters_spec hf x hx).1

end

theorem portsKept_refl (hc : Conforming P regs) : PortsKept P regs regs := by
  intro bdf hbdf _
  obtain ⟨o, hf⟩ := hc.functions bdf hbdf
  exact kept_of_same hf fun _ _ => rfl

theorem Pending.own (hp : Pending P regs0 (bdf :: l) regs) (hf : FunctionHw P regs0 bdf o) :
    ∀ x ∈ portRegisters o, word P regs bdf x = word P regs0 bdf x :=
  fun x hx => hp.rest bdf mem_cons_self x (portRegisters_spec hf x hx).1

theorem prepare_words (hf : FunctionHw P regs bdf o) (h : prepare P fuel regs bdf = some regs') :
    ∀ x ∈ portRegisters o, word P regs' bdf x = word P regs bdf x := by
  have hlt := hf.lt
  intro x hx
  obtain ⟨hx4, hcr, hdctlr⟩ := portRegisters_spec hf x hx
  refine (frame_prepare hf h).word_eq (by omega) fun y hy => ?_
  simp only [mem_cons, not_mem_nil, or_false] at hy
  rcases hy with rfl | rfl
  · exact ⟨by decide, hcr⟩
  · exact ⟨by rw [dctlrOffset]; omega, hdctlr⟩

theorem same_of_frame (hc : Conforming P regs0) (hbdf : bdf ∈ P.table) {q : Nat}
    (hq : q ∈ P.table) (hne : q ≠ bdf) (hxs : ∀ x ∈ xs, x < 4096)
    (hframe : Frame P bdf xs regs regs') : ∀ x < 4096, word P regs' q x = word P regs q x := by
  obtain ⟨o, hf⟩ := hc.functions bdf hbdf
  obtain ⟨o', hf'⟩ := hc.functions q hq
  exact fun x hx => hframe.word_apart hc.windows (hc.lt bdf hbdf) hf.mapped hxs (hc.lt q hq)
    hf'.mapped hne hx

/-! ## The loop over the table -/

/-- What one round of the loop has to show, with the invariant `I` and with `C` as the
condition on the functions that are left: only this function is written, and the condition
asks for the port to be kept and for the condition of the next round. -/
structure RoundEffect {σ : Type} (P : Platform) (regs0 : CfgMem) (regsOf : σ → CfgMem)
    (I C : List Nat → σ → Prop) (bdf : Nat) (l : List Nat) (s : σ) (e : Exit σ) : Prop where
  frame : ∃ o, FunctionHw P regs0 bdf o ∧ Frame P bdf (portOffsets o) (regsOf s) (regsOf e.state)
  next : ∀ s', e = .next s' → I l s'
  cond : C (bdf :: l) s ↔ (IsRootPort P regs0 bdf → Kept P regs0 (regsOf e.state) bdf) ∧
    ∀ s', e = .next s' → C l s'

theorem overTable_kept_iff {I : List Nat → σ → Prop} (hc : Conforming P regs0)
    (hpend : ∀ l s, I l s → Pending P regs0 l (regsOf s)) (hnil : ∀ s, C [] s)
    (hround : ∀ bdf l s e, bdf ∈ P.table → bdf ∉ l → (∀ q ∈ l, q ∈ P.table) → I (bdf :: l) s →
      body bdf s = some e → RoundEffect P regs0 regsOf I C bdf l s e) (hl : ∀ q ∈ l, q ∈ P.table)
    (hnodup : l.Nodup) (hI : I l s) (h : overTable body l s = some e) :
    (∀ q ∈ P.table, q ∉ l → ∀ x < 4096,
        word P (regsOf e.state) q x = word P (regsOf s) q x) ∧
      ((∀ q ∈ l, IsRootPort P regs0 q → Kept P regs0 (regsOf e.state) q) ↔ C l s) := by
  induction l generalizing s with
  | nil =>
    cases h
    exact ⟨fun _ _ _ _ _ => rfl, iff_of_true nofun (hnil s)⟩
  | cons bdf rest ih =>
    have hbdf := hl bdf mem_cons_self
    have hrest := fun q hq => hl q (mem_cons_of_mem bdf hq)
    rw [nodup_cons] at hnodup
    rw [overTable] at h
    cases hbody : body bdf s with
    | none =>
      rw [hbody] at h
      cases h
    | some e1 =>
      rw [hbody] at h
      have heff := hround bdf rest s e1 hbdf hnodup.1 hrest hI hbody
      obtain ⟨o, hf, hframe⟩ := heff.frame
      have hothers : ∀ q ∈ P.table, q ≠ bdf → ∀ x < 4096,
          word P (regsOf e1.state) q x = word P (regsOf s) q x :=
        fun q hq hne => same_of_frame hc hbdf hq hne (fun x hx => (portOffsets_spec hf x hx).1)
          hframe
      have hne : ∀ q, q ∉ bdf :: rest → q ≠ bdf := fun q hq heq => hq (heq ▸ mem_cons_self)
      rw [heff.cond, forall_mem_cons]
      cases e1 with
      | stop s1 =>
        cases h
        refine ⟨fun q hq hnot => hothers q hq (hne q hnot), and_congr_right (fun _ => ?_)⟩
        -- the functions behind it are as they were
        refine iff_of_true (fun q hq _ => ?_) (by nofun)
        obtain ⟨o', hf'⟩ := hc.functions q (hrest q hq)
        refine kept_of_same hf' fun x hx => ?_
        rw [hothers q (hrest q hq) (fun heq => hnodup.1 (heq ▸ hq)) x hx]
        exact (hpend _ s hI).rest q (mem_cons_of_mem _ hq) x hx
      | next s1 =>
        obtain ⟨hkeep, hiff⟩ := ih hrest hnodup.2 (heff.next s1 rfl) h
        refine ⟨fun q hq hnot x hx => ?_, ?_⟩
        · rw [hkeep q hq (fun hmem => hnot (mem_cons_of_mem _ hmem)) x hx]
          exact hothers q hq (hne q hnot) x hx
        · -- the rounds behind it leave the port alone
          have hself : Kept P regs0 (regsOf e.state) bdf ↔ Kept P regs0 (regsOf s1) bdf := by
            rw [kept_iff hf, kept_iff hf]
            have hsame := fun x hx =>
              hkeep bdf hbdf hnodup.1 x (portRegisters_spec hf x hx).1
            rw [linkBit, hsame _ mem_cons_self, ← linkBit]
            refine and_congr_right fun _ => forall₂_congr fun x hx => ?_
            rw [hsame x (mem_cons_of_mem _ hx)]
          rw [hiff, hself, Exit.forall_next]
          rfl

theorem payload_kept_iff (statusOf : σ → Nat) (hc : Conforming P regs0) (hnil : ∀ s, C [] s)
    (hround : ∀ bdf l s e, bdf ∈ P.table → bdf ∉ l → (∀ q ∈ l, q ∈ P.table) →
      Pending P regs0 (bdf :: l) (regsOf s) ∧ isTestFail (statusOf s) = false →
      body bdf s = some e → RoundEffect P regs0 regsOf
        (fun l s => Pending P regs0 l (regsOf s) ∧ isTestFail (statusOf s) = false) C bdf l s e)
    {s0 : σ} {out : Exit σ → CfgMem × Nat} {esrStatus early status : Nat}
    (h : (if esrStatus ≠ 0 then some (regs0, early) else (overTable body P.table s0).map out) =
      some (regs', status)) (hregs : regsOf s0 = regs0)
    (hstatus : isTestFail (statusOf s0) = false) (hout : ∀ e, (out e).1 = regsOf e.state) :
    PortsKept P regs0 regs' ↔ esrStatus ≠ 0 ∨ C P.table s0 := by
  by_cases hesr : esrStatus = 0
  · rw [if_neg (not_not.mpr hesr), Option.map_eq_some_iff] at h
    obtain ⟨e, hrun, hverdict⟩ := h
    have hend : regs' = regsOf e.state := (congrArg Prod.fst hverdict).symm.trans (hout e)
    rw [or_iff_right (not_not.mpr hesr), hend]
    exact (overTable_kept_iff (I := fun l s => Pending P regs0 l (regsOf s) ∧
      isTestFail (statusOf s) = false) hc (fun _ _ hI => hI.1) hnil hround (fun _ hq => hq) hc.nodup
      ⟨hregs ▸ .refl P regs0 _, hstatus⟩ hrun).2
  · rw [if_pos hesr] at h
    cases h
    exact iff_of_true (portsKept_refl hc) (.inl hesr)

/-! ## The body of p007 and p008 -/

/-- The body, with the register of the window and what is done with its value. -/
def windowBody {σ : Type} (P : Platform) (fuel offset : Nat) (regsOf : σ → CfgMem)
    (put : σ → CfgMem → σ) (test : Nat → σ → Option (Exit σ)) (bdf : Nat) (s : σ) :
    Option (Exit σ) :=
  match valPcieDevicePortType (P.view (regsOf s)) fuel bdf with
  | none => none
  | some dpType =>
    if dpType ≠ rp then some (.next s)
    else if checkBdfUnderRp P (regsOf s) bdf = 0 then some (.next s)
    else
      match prepare P fuel (regsOf s) bdf with
      | none => none
      | some regs =>
        let regValue := readCfg P regs bdf offset (P.stack bdf)
        if regValue = 0 then some (.next (put s regs)) else test regValue (put s regs)

structure Prepared (P : Platform) (regs0 : CfgMem) (bdf o : Nat) (regs regs' : CfgMem) : Prop where
  frame : Frame P bdf (portOffsets o) regs regs'
  fixed : ∀ a, ReadOnly P.wr a → regs' a = regs0 a
  own : ∀ x ∈ portRegisters o, word P regs' bdf x = word P regs0 bdf x

theorem Prepared.windows (h : Prepared P regs0 bdf o regs regs') :
    ∀ x ∈ windowRegisters, word P regs' bdf x = word P regs0 bdf x :=
  fun x hx => h.own x (mem_cons_of_mem _ hx)

theorem windowBody_cases {offset : Nat} {put : σ → CfgMem → σ} {test : Nat → σ → Option (Exit σ)}
    (h : windowBody P fuel offset regsOf put test bdf s = some e)
    (hoff : offset ∈ windowRegisters) (hp : Pending P regs0 (bdf :: l) (regsOf s))
    (hf : FunctionHw P regs0 bdf o) :
    (¬ Tested P regs0 bdf ∧ e = .next s) ∨
      Tested P regs0 bdf ∧ ∃ regs', Prepared P regs0 bdf o (regsOf s) regs' ∧
        (if (word P regs0 bdf offset).toNat = 0 then some (.next (put s regs'))
          else test (word P regs0 bdf offset).toNat (put s regs')) = some e := by
  rw [windowBody] at h
  split at h
  · cases h
  · rename_i dpType htype
    have hrp := portType_eq_rp_iff hf hp.fixed htype
    by_cases hport : dpType = rp
    · rw [if_neg (not_not.mpr hport), hp.checkBdfUnderRp] at h
      split_ifs at h with hunder
      · exact .inl ⟨fun ht => ht.2 hunder, (Option.some.inj h).symm⟩
      · split at h
        · cases h
        · rename_i regs' hprep
          have hf1 := hf.of_fixed hp.fixed
          have hframe := frame_prepare hf1 hprep
          have hown : ∀ x ∈ portRegisters o, word P regs' bdf x = word P regs0 bdf x :=
            fun x hx => (prepare_words hf1 hprep x hx).trans (hp.own hf x hx)
          rw [readCfg_of_mapped hf.mapped, hown _ (mem_cons_of_mem _ hoff)] at h
          exact .inr ⟨⟨hrp.mp hport, hunder⟩, regs', ⟨hframe.mono (by simp [portOffsets]),
            fun a ha => (hframe.fixed a ha).trans (hp.fixed a ha), hown⟩, h⟩
    · rw [if_pos hport] at h
      exact .inl ⟨fun ht => hport (hrp.mpr ht.1), (Option.some.inj h).symm⟩

/-- A port is tested in its round, and the condition is of what the test leaves, or it is
skipped. -/
theorem windowBody_round {offset : Nat} {put : σ → CfgMem → σ} {test : Nat → σ → Option (Exit σ)}
    (statusOf : σ → Nat) (hc : Conforming P regs0) (hbdf : bdf ∈ P.table) (hnot : bdf ∉ l)
    (hl : ∀ q ∈ l, q ∈ P.table)
    (hI : Pending P regs0 (bdf :: l) (regsOf s) ∧ isTestFail (statusOf s) = false)
    (h : windowBody P fuel offset regsOf put test bdf s = some e) (hoff : offset ∈ windowRegisters)
    (hskip : ¬ Tested P regs0 bdf → (C (bdf :: l) s ↔ C l s))
    (htest : ∀ o regs', FunctionHw P regs0 bdf o → Tested P regs0 bdf →
      Prepared P regs0 bdf o (regsOf s) regs' →
      (if (word P regs0 bdf offset).toNat = 0 then some (.next (put s regs'))
        else test (word P regs0 bdf offset).toNat (put s regs')) = some e →
      Frame P bdf (portOffsets o) regs' (regsOf e.state) ∧
        (∀ s', e = .next s' → isTestFail (statusOf s') = false) ∧
        (C (bdf :: l) s ↔ Kept P regs0 (regsOf e.state) bdf ∧ ∀ s', e = .next s' → C l s')) :
    RoundEffect P regs0 regsOf
      (fun l s => Pending P regs0 l (regsOf s) ∧ isTestFail (statusOf s) = false) C bdf l s e := by
  obtain ⟨o, hf⟩ := hc.functions bdf hbdf
  obtain ⟨hno, rfl⟩ | ⟨htested, regs', hprep, hend⟩ := windowBody_cases h hoff hI.1 hf
  · refine ⟨⟨o, hf, .refl _ _ _ _⟩,
      Exit.forall_next.mpr ⟨hI.1.step hc hbdf hf hnot hl (.refl _ _ _ _), hI.2⟩, ?_⟩
    rw [hskip hno, Exit.forall_next]
    exact (and_iff_right (fun _ => kept_of_words hf (hI.1.own hf))).symm
  · obtain ⟨hframe, hrun, hcond⟩ := htest o regs' hf htested hprep hend
    have hall := hprep.frame.trans hframe
    refine ⟨⟨o, hf, hall⟩, ?_, by rw [hcond, imp_iff_right htested.1]⟩
    rintro s' rfl
    exact ⟨hI.1.step hc hbdf hf hnot hl hall, hrun s' rfl⟩

end

/-! ## The write back -/

theorem frame_writeBack (hmap : Mapped P.info bdf) (memLim oriMemBase : Nat) :
    Frame P bdf [type1PMem, type1PMemLu] regs (writeBack P regs bdf memLim oriMemBase) := by
  refine Frame.trans ?_ ((frame_writeCfg hmap type1PMemLu (memLim >>> 32)).mono (by simp))
  exact (frame_writeCfg hmap type1PMem _).mono (by simp)

end ServerSoc.Tests.RootPorts
