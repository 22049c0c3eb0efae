/-
Helpers that change control and status bits of a function (acs_pcie.c).

The registers are halves of control and of status bits, and the hardware decides what a write to an
address leaves there: `wr a old data`.
-/
import ServerSoc.Base.Bits
import ServerSoc.Pcie.Enumerate

namespace ServerSoc.Pcie

open Base BitVec Function List Nat Option

/-! ## Registers -/

def type1SecSta : Nat := 0x1C
def dctlrOffset : Nat := 0x8

def crMseShift : Nat := 1
def crBmeShift : Nat := 2
def crSerreShift : Nat := 8
def srStaShift : Nat := 27
def ssrStaShift : Nat := 27
def dctlrCereShift : Nat := 0
def dctlrNfereShift : Nat := 1
def dctlrFereShift : Nat := 2
def dctlrUrreShift : Nat := 3
def dctlrDsrShift : Nat := 16
def dsrUrdShift : Nat := 3
def dctlrMask : BitVec 32 := 0xffff

abbrev CfgMem := Nat → BitVec 32

abbrev RegWrite := Nat → BitVec 32 → BitVec 32 → BitVec 32

def CfgMem.read (regs : CfgMem) : MmioRead := fun _ a => (regs a).toNat

def cfgHw (wr : RegWrite) : CfgHw CfgMem where
  read := CfgMem.read
  write := fun regs a data => update regs a (wr a (regs a) (BitVec.ofNat 32 data))

/-! ## The helpers -/

section

variable (fuel : Nat) (t : Option (List PcieInfoBlock)) (wr : RegWrite) (bdf uninit : Nat)

/-- A register is read, changed and written back.  `uninit` is what the stack holds in
`reg_value`. -/
def modifyCfg (offset : Nat) (f : BitVec 32 → BitVec 32) (regs : CfgMem) : CfgMem :=
  let regValue := BitVec.ofNat 32 ((valPcieReadCfg t regs.read bdf offset).getD uninit)
  valPcieWriteCfg (cfgHw wr) t regs bdf offset (f regValue).toNat

def valPcieDisableBme (regs : CfgMem) : CfgMem :=
  modifyCfg t wr bdf uninit type01Cr (fun regValue => regValue &&& ~~~(1#32 <<< crBmeShift)) regs

def valPcieDisableMsa (regs : CfgMem) : CfgMem :=
  modifyCfg t wr bdf uninit type01Cr (fun regValue => regValue &&& ~~~(1#32 <<< crMseShift)) regs

def valPcieClearSigTargetAbort (regs : CfgMem) : CfgMem :=
  let regs :=
    modifyCfg t wr bdf uninit type01Cr (fun statusVal => statusVal ||| 1#32 <<< srStaShift) regs
  modifyCfg t wr bdf uninit type1SecSta
    (fun secStatusVal => secStatusVal ||| 1#32 <<< ssrStaShift) regs

/-- The Device Control register is changed.  The result of the search is not checked. -/
def modifyDctlr (f : BitVec 32 → BitVec 32) (regs : CfgMem) : Option CfgMem :=
  match valPcieFindCapability fuel t regs.read bdf .pcieCap cidPciecs uninit uninit with
  | none => none
  | some (_, pciecsBase) =>
    some (modifyCfg t wr bdf uninit ((pciecsBase + dctlrOffset) % 2 ^ 32) f regs)

def valPcieClearUrd (regs : CfgMem) : Option CfgMem :=
  modifyDctlr fuel t wr bdf uninit
    (fun regValue => regValue &&& dctlrMask ||| 1#32 <<< (dctlrDsrShift + dsrUrdShift)) regs

def dctlrErrorEnables : BitVec 32 :=
  1#32 <<< dctlrCereShift ||| 1#32 <<< dctlrNfereShift ||| 1#32 <<< dctlrFereShift |||
    1#32 <<< dctlrUrreShift

def valPcieEnableEru (regs : CfgMem) : Option CfgMem :=
  let regs :=
    modifyCfg t wr bdf uninit type01Cr (fun regValue => regValue ||| 1#32 <<< crSerreShift) regs
  modifyDctlr fuel t wr bdf uninit (fun regValue => regValue ||| dctlrErrorEnables) regs

def valPcieDisableEru (regs : CfgMem) : Option CfgMem :=
  let regs :=
    modifyCfg t wr bdf uninit type01Cr
      (fun regValue => regValue &&& ~~~(1#32 <<< crSerreShift)) regs
  modifyDctlr fuel t wr bdf uninit (fun regValue => regValue &&& ~~~dctlrErrorEnables) regs

end

inductive Helper where
  | disableBme | enableBme | disableMsa | enableMsa | enableEru | disableEru | clearUrd
  | clearSigTargetAbort
  deriving DecidableEq, Repr

def Helper.run (fuel : Nat) (t : Option (List PcieInfoBlock)) (wr : RegWrite) (bdf uninit : Nat)
    (regs : CfgMem) : Helper → Option CfgMem
  | .disableBme => some (valPcieDisableBme t wr bdf uninit regs)
  | .enableBme => some (valPcieEnableBme (cfgHw wr) t regs bdf)
  | .disableMsa => some (valPcieDisableMsa t wr bdf uninit regs)
  | .enableMsa => some (valPcieEnableMsa (cfgHw wr) t regs bdf)
  | .enableEru => valPcieEnableEru fuel t wr bdf uninit regs
  | .disableEru => valPcieDisableEru fuel t wr bdf uninit regs
  | .clearUrd => valPcieClearUrd fuel t wr bdf uninit regs
  | .clearSigTargetAbort => some (valPcieClearSigTargetAbort t wr bdf uninit regs)

/-! ## What their names state -/

structure Change where
  offset : Nat
  set : Bool
  bits : BitVec 32

def Change.apply (c : Change) (w : BitVec 32) : BitVec 32 :=
  if c.set then w ||| c.bits else w &&& ~~~c.bits

def Helper.changes (o : Nat) : Helper → List Change
  | .disableBme => [⟨type01Cr, false, 1#32 <<< crBmeShift⟩]
  | .enableBme => [⟨type01Cr, true, 1#32 <<< crBmeShift⟩]
  | .disableMsa => [⟨type01Cr, false, 1#32 <<< crMseShift⟩]
  | .enableMsa => [⟨type01Cr, true, 1#32 <<< crMseShift⟩]
  | .enableEru => [⟨type01Cr, true, 1#32 <<< crSerreShift⟩,
    ⟨o + dctlrOffset, true, dctlrErrorEnables⟩]
  | .disableEru => [⟨type01Cr, false, 1#32 <<< crSerreShift⟩,
    ⟨o + dctlrOffset, false, dctlrErrorEnables⟩]
  | .clearUrd => [⟨o + dctlrOffset, false, 1#32 <<< (dctlrDsrShift + dsrUrdShift)⟩]
  | .clearSigTargetAbort => [⟨type01Cr, false, 1#32 <<< srStaShift⟩,
    ⟨type1SecSta, false, 1#32 <<< ssrStaShift⟩]

def regAddress (t : Option (List PcieInfoBlock)) (bdf offset : Nat) : Nat :=
  cfgAddress (findEcamBase t (pcieExtractBdfBus bdf) (pcieExtractBdfSeg bdf))
    (pcieExtractBdfBus bdf) (pcieExtractBdfDev bdf) (pcieExtractBdfFunc bdf) offset

def applyChanges (t : Option (List PcieInfoBlock)) (bdf : Nat) (changes : List Change)
    (regs : CfgMem) : CfgMem :=
  changes.foldl (fun regs c =>
    update regs (regAddress t bdf c.offset) (c.apply (regs (regAddress t bdf c.offset)))) regs

def statusBits : BitVec 32 := 0xffff0000

/-- The function has a PCIe capability at `o`, in a list that does not pass through the
command register. -/
structure PcieCapability (t : Option (List PcieInfoBlock)) (regs : CfgMem) (bdf o : Nat) :
    Prop where
  mapped : Mapped t bdf
  pointer : cfgWord t regs.read bdf type01Cpr ≠ pcieUnknownResponse
  found : ∃ l, CapChain t regs.read bdf .pcieCap l ∧ type01Cr ∉ l ∧
    l.find? (hasCid t regs.read bdf .pcieCap cidPciecs) = some o

def Helper.Contract (h : Helper) (t : Option (List PcieInfoBlock)) (wr : RegWrite) (bdf o : Nat)
    (regs : CfgMem) : Prop :=
  ∀ uninit, ∃ fuel, h.run fuel t wr bdf uninit regs = some (applyChanges t bdf (h.changes o) regs)

def Helper.spared (h : Helper) : BitVec 32 :=
  match h with
  | .clearUrd => statusBits
  | .clearSigTargetAbort => 1#32 <<< srStaShift
  | _ => 0

def Helper.Quiet (h : Helper) (t : Option (List PcieInfoBlock)) (bdf o : Nat) (regs : CfgMem) :
    Prop :=
  ∀ c ∈ h.changes o, regs (regAddress t bdf c.offset) &&& statusBits &&& ~~~h.spared = 0#32

/-! ## What a write does -/

variable {t : Option (List PcieInfoBlock)} {wr : RegWrite} {bdf o : Nat} {regs : CfgMem}

section

variable {regs' : CfgMem}

theorem regAddress_ne (t : Option (List PcieInfoBlock)) (bdf : Nat) {x y : Nat} (hx : x < 2 ^ 32)
    (hy : y < 2 ^ 32) (hne : x ≠ y) : regAddress t bdf x ≠ regAddress t bdf y := by
  intro h
  simp only [regAddress, cfgAddress] at h
  omega

theorem valPcieWriteCfg_of_mapped (hmap : Mapped t bdf) (offset data : Nat) :
    valPcieWriteCfg (cfgHw wr) t regs bdf offset data =
      update regs (regAddress t bdf offset)
        (wr (regAddress t bdf offset) (regs (regAddress t bdf offset)) (BitVec.ofNat 32 data)) := by
  simp only [valPcieWriteCfg, hmap.inRange, hmap.isNone_eq_false, hmap.2.2]
  rfl

theorem modifyCfg_of_mapped (hmap : Mapped t bdf) (uninit offset : Nat)
    (f : BitVec 32 → BitVec 32) :
    modifyCfg t wr bdf uninit offset f regs =
      update regs (regAddress t bdf offset)
        (wr (regAddress t bdf offset) (regs (regAddress t bdf offset))
          (f (regs (regAddress t bdf offset)))) := by
  have hword : cfgWord t regs.read bdf offset = (regs (regAddress t bdf offset)).toNat :=
    mod_eq_of_lt (isLt _)
  rw [modifyCfg, valPcieReadCfg_of_mapped hmap, getD_some, hword, ofNat_toNat,
    setWidth_eq, valPcieWriteCfg_of_mapped hmap, ofNat_toNat, setWidth_eq]

theorem writeCfg_or_of_mapped (hmap : Mapped t bdf) (uninit offset bits : Nat) :
    valPcieWriteCfg (cfgHw wr) t regs bdf offset
        ((valPcieReadCfg t ((cfgHw wr).read regs) bdf offset).getD 0 ||| bits) =
      modifyCfg t wr bdf uninit offset (fun w => w ||| BitVec.ofNat 32 bits) regs := by
  have hword : cfgWord t ((cfgHw wr).read regs) bdf offset =
      (regs (regAddress t bdf offset)).toNat := mod_eq_of_lt (isLt _)
  rw [modifyCfg_of_mapped hmap, valPcieWriteCfg_of_mapped hmap, valPcieReadCfg_of_mapped hmap,
    getD_some, hword, ofNat_or, ofNat_toNat, setWidth_eq]

theorem cfgWord_congr (h : regs (regAddress t bdf o) = regs' (regAddress t bdf o)) :
    cfgWord t regs.read bdf o = cfgWord t regs'.read bdf o := by
  show (regs (regAddress t bdf o)).toNat % _ = (regs' (regAddress t bdf o)).toNat % _
  rw [h]

theorem capChain_lt {rd : MmioRead} {start : Nat} {l : List Nat} (hstart : start < 256)
    (hl : Chain (capNext t rd bdf .pcieCap) start l) : ∀ x ∈ l, x < 256 := by
  induction hl with
  | nil => nofun
  | cons hne hrest ih =>
    intro x hx
    rcases mem_cons.mp hx with rfl | hx
    · exact hstart
    · refine ih ?_ x hx
      exact and_le_right.trans_lt (by decide)

section

variable (hcap : PcieCapability t regs bdf o)
include hcap

theorem PcieCapability.of_same
    (hcpr : cfgWord t regs'.read bdf type01Cpr = cfgWord t regs.read bdf type01Cpr)
    (hlist : ∀ l, CapChain t regs.read bdf .pcieCap l → type01Cr ∉ l →
      ∀ x ∈ l, cfgWord t regs'.read bdf x = cfgWord t regs.read bdf x) :
    PcieCapability t regs' bdf o := by
  obtain ⟨l, hl, hnot, hfind⟩ := hcap.found
  have hin := hlist l hl hnot
  refine ⟨hcap.mapped, by rw [hcpr]; exact hcap.pointer, l, ?_, hnot, ?_⟩
  · rw [CapChain, capStart, hcpr]
    exact hl.congr fun x hx => by rw [capNext, capNext, hin x hx]
  · rw [← hfind, ← head?_filter, ← head?_filter]
    congr 1
    refine filter_congr fun x hx => ?_
    rw [hasCid, hasCid, hin x hx]

theorem PcieCapability.congr (h : ∀ a, a ≠ regAddress t bdf type01Cr → regs' a = regs a) :
    PcieCapability t regs' bdf o := by
  have hword : ∀ x, x < 256 → x ≠ type01Cr → cfgWord t regs'.read bdf x =
      cfgWord t regs.read bdf x := by
    intro x hx hne
    exact cfgWord_congr (h _ (regAddress_ne t bdf (by omega) (by decide) hne))
  refine hcap.of_same (hword type01Cpr (by decide) (by decide)) fun l hl hnot x hx => ?_
  have hlt := capChain_lt (and_le_right.trans_lt (by decide)) hl
  exact hword x (hlt x hx) fun heq => hnot (heq ▸ hx)

theorem PcieCapability.search (uninit cidOffset : Nat) :
    (∃ fuel, valPcieFindCapability fuel t regs.read bdf .pcieCap cidPciecs uninit cidOffset =
      some (pcieSuccess, o)) ∧
    ∀ fuel r, valPcieFindCapability fuel t regs.read bdf .pcieCap cidPciecs uninit cidOffset =
      some r → r = (pcieSuccess, o) := by
  obtain ⟨l, hl, -, hfind⟩ := hcap.found
  have hrun :
      ∀ fuel, valPcieFindCapability fuel t regs.read bdf .pcieCap cidPciecs uninit cidOffset =
      (walk (capNext t regs.read bdf .pcieCap) (hasCid t regs.read bdf .pcieCap cidPciecs) fuel
        (capStart t regs.read bdf .pcieCap)).map (searchResult cidOffset) := by
    intro fuel
    simp only [valPcieFindCapability, valPcieReadCfg_of_mapped hcap.mapped, if_neg hcap.pointer]
    exact searchCapability_of_mapped hcap.mapped _ .pcieCap cidPciecs fuel _ _ cidOffset
  have hwalk := walk_of_chain (p := hasCid t regs.read bdf .pcieCap cidPciecs) hl
    (lt_succ_self l.length)
  rw [hfind] at hwalk
  refine ⟨⟨l.length + 1, ?_⟩, fun fuel r h => ?_⟩
  · rw [hrun, hwalk]
    rfl
  · rw [hrun, map_eq_some_iff] at h
    obtain ⟨x, hx, rfl⟩ := h
    rw [walk_unique hx hwalk]
    rfl

theorem PcieCapability.modifyDctlr (uninit : Nat) (f : BitVec 32 → BitVec 32) (r : CfgMem) :
    (∃ fuel, modifyDctlr fuel t wr bdf uninit f regs = some r) ↔
      modifyCfg t wr bdf uninit (o + dctlrOffset) f regs = r := by
  obtain ⟨⟨fuel, hfuel⟩, hunique⟩ := hcap.search uninit uninit
  obtain ⟨l, hl, -, hfind⟩ := hcap.found
  have ho : o < 256 := capChain_lt (and_le_right.trans_lt (by decide)) hl o
    (mem_of_find?_eq_some hfind)
  have hoff : (o + dctlrOffset) % 2 ^ 32 = o + dctlrOffset :=
    mod_eq_of_lt (by rw [dctlrOffset]; omega)
  constructor
  · rintro ⟨fuel', h⟩
    rw [Pcie.modifyDctlr] at h
    split at h
    · cases h
    · rename_i ret pciecsBase heq
      cases hunique _ _ heq
      rw [hoff] at h
      exact some.inj h
  · intro h
    refine ⟨fuel, ?_⟩
    rw [Pcie.modifyDctlr, hfuel, ← h, ← hoff]

end

end

/-! ## When only these bits change -/

section

variable {uninit offset : Nat} {h : Helper} {f : BitVec 32 → BitVec 32} {bits : BitVec 32}
  {c d : Change}

def ClearedByOne (t : Option (List PcieInfoBlock)) (wr : RegWrite) (bdf offset : Nat) : Prop :=
  ∀ old data, wr (regAddress t bdf offset) old data = w1cWrite statusBits old data

abbrev Change.Done (c : Change) (f : BitVec 32 → BitVec 32) (w : BitVec 32) : Prop :=
  w1cWrite statusBits w (f w) = c.apply w

theorem modifyCfg_eq_iff (hmap : Mapped t bdf) (hwr : ClearedByOne t wr bdf c.offset)
    (f : BitVec 32 → BitVec 32) :
    modifyCfg t wr bdf uninit c.offset f regs = applyChanges t bdf [c] regs ↔
      c.Done f (regs (regAddress t bdf c.offset)) := by
  rw [modifyCfg_of_mapped hmap, hwr]
  exact (update_injective regs _).eq_iff

theorem modifyCfg_two_eq_iff (hmap : Mapped t bdf) (hc : c.offset < 2 ^ 32)
    (hd : d.offset < 2 ^ 32) (hne : c.offset ≠ d.offset) (hwr : ClearedByOne t wr bdf c.offset)
    (hwr' : ClearedByOne t wr bdf d.offset) (f f' : BitVec 32 → BitVec 32) :
    modifyCfg t wr bdf uninit d.offset f' (modifyCfg t wr bdf uninit c.offset f regs) =
        applyChanges t bdf [c, d] regs ↔
      c.Done f (regs (regAddress t bdf c.offset)) ∧
        d.Done f' (regs (regAddress t bdf d.offset)) := by
  have hne' := regAddress_ne t bdf hc hd hne
  rw [modifyCfg_of_mapped hmap, modifyCfg_of_mapped hmap, hwr, hwr',
    update_of_ne hne'.symm]
  show _ = update (update regs (regAddress t bdf c.offset) _) (regAddress t bdf d.offset)
    (d.apply (update regs (regAddress t bdf c.offset) _ (regAddress t bdf d.offset))) ↔ _
  rw [update_of_ne hne'.symm]
  constructor
  · intro h
    have h1 := congrFun h (regAddress t bdf c.offset)
    have h2 := congrFun h (regAddress t bdf d.offset)
    rw [update_of_ne hne', update_of_ne hne', update_self,
      update_self] at h1
    rw [update_self, update_self] at h2
    exact ⟨h1, h2⟩
  · intro h
    rw [h.1, h.2]

/-- What is written for a change leaves the word as stated when only spared bits are pending. -/
def WordOk (h : Helper) (c : Change) (f : BitVec 32 → BitVec 32) : Prop :=
  ∀ w, c.Done f w ↔ w &&& statusBits &&& ~~~h.spared = 0#32

section

variable (hspared : h.spared = 0#32) (hbits : bits &&& statusBits = 0#32)
include hspared hbits

theorem wordOk_set : WordOk h ⟨offset, true, bits⟩ (fun w => w ||| bits) := by
  intro w
  rw [hspared, not_zero, and_allOnes]
  exact w1cWrite_or_iff hbits

theorem wordOk_clear : WordOk h ⟨offset, false, bits⟩ (fun w => w &&& ~~~bits) := by
  intro w
  rw [hspared, not_zero, and_allOnes]
  exact w1cWrite_and_not_iff hbits

end

theorem wordOk_status (hspared : h.spared = bits) (hbits : bits &&& ~~~statusBits = 0#32) :
    WordOk h ⟨offset, false, bits⟩ (fun w => w ||| bits) := by
  intro w
  rw [hspared]
  exact w1cWrite_or_status_iff hbits

theorem wordOk_masked (hspared : h.spared = statusBits) (hbits : bits &&& ~~~statusBits = 0#32) :
    WordOk h ⟨offset, false, bits⟩ (fun w => w &&& dctlrMask ||| bits) := by
  intro w
  have hmask : dctlrMask = ~~~statusBits := by decide
  have hnone : statusBits &&& ~~~statusBits = 0#32 := by decide
  rw [hspared, BitVec.and_assoc, hnone, BitVec.and_zero]
  exact iff_of_true (w1cWrite_masked hbits) rfl

theorem Helper.contract_one (hmap : Mapped t bdf) (hchanges : h.changes o = [c])
    (hwr : ClearedByOne t wr bdf c.offset)
    (hrun : ∀ uninit r, (∃ fuel, h.run fuel t wr bdf uninit regs = some r) ↔
      modifyCfg t wr bdf uninit c.offset f regs = r)
    (hword : WordOk h c f) : h.Contract t wr bdf o regs ↔ h.Quiet t bdf o regs := by
  simp only [Helper.Contract, Helper.Quiet, hchanges, hrun, mem_singleton, forall_eq]
  rw [← hword, forall_congr' (fun uninit => modifyCfg_eq_iff hmap hwr f), forall_const]

theorem Helper.contract_two {f' : BitVec 32 → BitVec 32} (hmap : Mapped t bdf)
    (hchanges : h.changes o = [c, d]) (hc : c.offset < 2 ^ 32) (hd : d.offset < 2 ^ 32)
    (hne : c.offset ≠ d.offset) (hwr : ClearedByOne t wr bdf c.offset)
    (hwr' : ClearedByOne t wr bdf d.offset)
    (hrun : ∀ uninit r, (∃ fuel, h.run fuel t wr bdf uninit regs = some r) ↔
      modifyCfg t wr bdf uninit d.offset f' (modifyCfg t wr bdf uninit c.offset f regs) = r)
    (hword : WordOk h c f) (hword' : WordOk h d f') :
    h.Contract t wr bdf o regs ↔ h.Quiet t bdf o regs := by
  simp only [Helper.Contract, Helper.Quiet, hchanges, hrun, mem_cons, not_mem_nil, or_false,
    forall_eq_or_imp, forall_eq]
  rw [← hword, ← hword',
    forall_congr' (fun uninit => modifyCfg_two_eq_iff hmap hc hd hne hwr hwr' f f'), forall_const]

theorem exists_fuel_iff {r r' : CfgMem} : (∃ _ : Nat, some r = some r') ↔ r = r' := by
  rw [exists_const, some_inj]

/-- A helper changes only the bits that its name states when no other status bit is
pending in its registers; clearing the Unsupported Request bit always does. -/
theorem Helper.contract_iff (h : Helper) (hcap : PcieCapability t regs bdf o)
    (hwr : ∀ c ∈ h.changes o, ClearedByOne t wr bdf c.offset) :
    h.Contract t wr bdf o regs ↔ h.Quiet t bdf o regs := by
  have hmap := hcap.mapped
  have ho : o + dctlrOffset < 2 ^ 32 ∧ type01Cr ≠ o + dctlrOffset := by
    obtain ⟨l, hl, -, hfind⟩ := hcap.found
    have ho := capChain_lt (Nat.and_le_right.trans_lt (by decide)) hl o
      (mem_of_find?_eq_some hfind)
    rw [dctlrOffset, type01Cr]
    omega
  have hafter : ∀ uninit f, PcieCapability t (modifyCfg t wr bdf uninit type01Cr f regs) bdf o := by
    intro uninit f
    refine hcap.congr fun a ha => ?_
    rw [modifyCfg_of_mapped hmap, update_of_ne ha]
  cases h with
  | disableBme | disableMsa =>
    exact contract_one hmap rfl (hwr _ mem_cons_self) (fun _ _ => exists_fuel_iff)
      (wordOk_clear rfl (by decide))
  | enableBme =>
    refine contract_one hmap rfl (hwr _ mem_cons_self) (fun uninit r => ?_)
      (wordOk_set rfl (by decide))
    exact (writeCfg_or_of_mapped hmap uninit type01Cr (1 <<< 2)) ▸ exists_fuel_iff
  | enableMsa =>
    refine contract_one hmap rfl (hwr _ mem_cons_self) (fun uninit r => ?_)
      (wordOk_set rfl (by decide))
    exact (writeCfg_or_of_mapped hmap uninit type01Cr (1 <<< 1)) ▸ exists_fuel_iff
  | enableEru =>
    exact contract_two hmap rfl (by decide) ho.1 ho.2 (hwr _ mem_cons_self)
      (hwr _ (mem_cons_of_mem _ mem_cons_self))
      (fun uninit r => (hafter uninit _).modifyDctlr uninit _ r)
      (wordOk_set rfl (by decide)) (wordOk_set rfl (by decide))
  | disableEru =>
    exact contract_two hmap rfl (by decide) ho.1 ho.2 (hwr _ mem_cons_self)
      (hwr _ (mem_cons_of_mem _ mem_cons_self))
      (fun uninit r => (hafter uninit _).modifyDctlr uninit _ r)
      (wordOk_clear rfl (by decide)) (wordOk_clear rfl (by decide))
  | clearUrd =>
    exact contract_one hmap rfl (hwr _ mem_cons_self)
      (fun uninit r => hcap.modifyDctlr uninit _ r) (wordOk_masked rfl (by decide))
  | clearSigTargetAbort =>
    refine contract_two hmap rfl (by decide) (by decide) (by decide) (hwr _ mem_cons_self)
      (hwr _ (mem_cons_of_mem _ mem_cons_self)) ?_
      (wordOk_status rfl (by decide)) (wordOk_status rfl (by decide))
    intro uninit r
    exact exists_fuel_iff

end

/-! ## Pending status bits -/

def oneFunctionRegs (status devStatus : Nat) : CfgMem := fun a =>
  if a = 0x30000004 then BitVec.ofNat 32 (status * 2 ^ 16 + 0x6)
  else if a = 0x30000048 then BitVec.ofNat 32 (devStatus * 2 ^ 16 + 0x2910)
  else BitVec.ofNat 32 (oneFunction .uint32 a)

/-- Every register of the segment has a status half. -/
def statusWrite : RegWrite := fun _ => w1cWrite statusBits

theorem oneFunctionRegs_capability (status devStatus : Nat) :
    PcieCapability oneSegment (oneFunctionRegs status devStatus) 0 0x40 := by
  have hpointer : cfgWord oneSegment (oneFunctionRegs status devStatus).read 0 type01Cpr = 0x40 :=
    rfl
  have hheader : cfgWord oneSegment (oneFunctionRegs status devStatus).read 0 0x40 = 0x20010 := rfl
  have hnext : capNext oneSegment (oneFunctionRegs status devStatus).read 0 .pcieCap 0x40 = 0 := by
    rw [capNext, hheader]
    decide
  refine ⟨by decide, by rw [hpointer]; decide, [0x40], ?_, by decide, ?_⟩
  · rw [CapChain, capStart, hpointer, show 0x40 &&& type01CprMask = 0x40 by decide]
    refine .cons (by decide) ?_
    rw [hnext]
    exact .nil
  · refine find?_cons_of_pos ?_
    rw [hasCid, hheader]
    decide

/-- Without pending bits error reporting is enabled and nothing else changes. -/
theorem Helper.contract_enableEru :
    Helper.enableEru.Contract oneSegment statusWrite 0 0x40 (oneFunctionRegs 0 0) := by
  apply (Helper.contract_iff .enableEru (oneFunctionRegs_capability 0 0) (fun _ _ _ _ => rfl)).mpr
  intro c hc
  rcases mem_cons.mp hc with rfl | hc
  · decide
  · obtain rfl := mem_singleton.mp hc
    decide

/-- A pending Detected Parity Error is lost when bus mastering is disabled. -/
theorem valPcieDisableBme_loses_status :
    valPcieDisableBme oneSegment statusWrite 0 0 (oneFunctionRegs 0x8000 0) 0x30000004 =
      0x00000002 ∧
      ¬ Helper.disableBme.Contract oneSegment statusWrite 0 0x40 (oneFunctionRegs 0x8000 0) := by
  have hvalue : valPcieDisableBme oneSegment statusWrite 0 0 (oneFunctionRegs 0x8000 0) 0x30000004 =
      0x00000002 := by decide
  refine ⟨hvalue, fun h => ?_⟩
  obtain ⟨fuel, hrun⟩ := h 0
  have hword := congrFun (some.inj hrun) 0x30000004
  exact absurd hword (by decide)

end ServerSoc.Pcie
