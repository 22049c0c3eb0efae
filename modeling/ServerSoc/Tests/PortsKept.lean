/-
What tests p003, p005, p007 and p008 leave in the root ports, for every topology, content
of the registers and outcome of the probing loads.
-/
import ServerSoc.Tests.P003
import ServerSoc.Tests.P005
import ServerSoc.Tests.P007
import ServerSoc.Tests.P008

namespace ServerSoc.Tests.RootPorts

open Base Memory Pcie Val List

/-- Test p003 keeps the root ports when the link of the port it takes was enabled, p005
always, p007 when it narrows no window, and p008 when each window it narrows is one that
it can give back, behind a link that it does not disable. -/
theorem rootPorts_kept_iff (P : Platform) (regs : CfgMem) (hc : Conforming P regs) (fuel : Nat) :
    (∀ vendor regs' status, P003.payload P fuel vendor regs = some (regs', status) →
      (PortsKept P regs regs' ↔ ∀ bdf ∈ P003.taken P regs, ¬ LinkDisabled P regs bdf)) ∧
    (∀ probe esrStatus uninit regs' status,
      P005.payload P fuel probe esrStatus uninit regs = some (regs', status) →
      PortsKept P regs regs') ∧
    (∀ probe esrStatus regs' status,
      P007.payload P fuel probe esrStatus regs = some (regs', status) →
      (PortsKept P regs regs' ↔ esrStatus ≠ 0 ∨ ∀ bdf ∈ P.table, ¬ P007.Narrowed P regs bdf)) ∧
    ∀ probe esrStatus regs' status,
      P008.payload P fuel probe esrStatus regs = some (regs', status) →
      (PortsKept P regs regs' ↔ esrStatus ≠ 0 ∨ P008.Preserved P regs probe P.table (0, 0)) :=
  ⟨fun _ _ _ h => P003.payload_kept_iff hc h, fun _ _ _ _ _ h => P005.payload_kept hc h,
    fun _ _ _ _ h => P007.payload_kept_iff hc h, fun _ _ _ _ h => P008.payload_kept_iff hc h⟩

/-! ## A root port with a device behind it -/

def portPage : Nat := 0x30008000
def devicePage : Nat := 0x30100000

def onePort : Platform where
  info := some [⟨0x30000000, 0, 0, 1⟩]
  table := [0x100]
  wr := fun a old data =>
    if a = portPage + type1NpMem ∨ a = portPage + type1PMem then maskedWrite windowMask old data
    else if a = portPage + type01Cpr ∨ a = portPage + 0x40 ∨ a = portPage + type1PMemLu then old
    else data
  onchip := fun _ => false
  stack := fun _ => 0

/-- The port has the bus 1 behind it, its PCIe capability at 0x40 and `window` in the registers of
both windows. -/
def portRegs (window : BitVec 32) : CfgMem := fun a =>
  if a = portPage then 0x00011234
  else if a = portPage + type01Clsr then 0x00010000
  else if a = portPage + type1Pbn then 0x00010100
  else if a = portPage + type1NpMem ∨ a = portPage + type1PMem then window
  else if a = portPage + type01Cpr then 0x40
  else if a = portPage + 0x40 then 0x00400010
  else if a = devicePage then 0x00021234
  else if a = devicePage + type01Ridr then 0x04000000
  else 0

theorem regAddress_onePort (x : Nat) (hx : x < 4096) :
    regAddress onePort.info 0x100 x = portPage + x := by
  have hbase : findEcamBase onePort.info (pcieExtractBdfBus 0x100) (pcieExtractBdfSeg 0x100) =
      0x30000000 := by decide
  have hcfg : (pcieExtractBdfBus 0x100 * pcieMaxDev * pcieMaxFunc * 4096 +
      pcieExtractBdfDev 0x100 * pcieMaxFunc * 4096 + pcieExtractBdfFunc 0x100 * 4096) % 2 ^ 32 =
      0x8000 := by decide
  rw [regAddress, hbase, cfgAddress, hcfg]
  clear hbase hcfg
  rw [portPage]
  omega

theorem capability_onePort (window : BitVec 32) :
    PcieCapability onePort.info (portRegs window) 0x100 0x40 ∧
      CapChain onePort.info (portRegs window).read 0x100 .pcieCap [0x40] := by
  have hcpr : cfgWord onePort.info (portRegs window).read 0x100 type01Cpr = 0x40 := by
    rfl
  have hhead : cfgWord onePort.info (portRegs window).read 0x100 0x40 = 0x00400010 := by
    rfl
  have hchain : CapChain onePort.info (portRegs window).read 0x100 .pcieCap [0x40] := by
    rw [CapChain, capStart, hcpr]
    refine .cons (by decide) ?_
    rw [capNext, show (0x40 &&& type01CprMask : Nat) = 0x40 by decide, hhead]
    exact .nil
  refine ⟨⟨by decide, by rw [hcpr]; decide, [0x40], hchain, by decide, ?_⟩, hchain⟩
  rw [find?_cons_of_pos]
  rw [hasCid, hhead]
  decide

theorem functionHw_onePort (window : BitVec 32) :
    FunctionHw onePort (portRegs window) 0x100 0x40 := by
  obtain ⟨hcap, hchain⟩ := capability_onePort window
  have hfixed : ∀ x, x = type01Cpr ∨ x = 0x40 →
      ReadOnly onePort.wr (regAddress onePort.info 0x100 x) := by
    rintro x (rfl | rfl) old data
    all_goals rw [regAddress_onePort _ (by decide)]; rfl
  refine ⟨hcap, by decide, hfixed _ (.inl rfl), fun l hl x hx => hfixed x (.inr ?_)⟩
  rw [Chain.unique hl hchain] at hx
  exact mem_singleton.mp hx

theorem conforming_onePort {window : BitVec 32} (h32 : window.toNat &&& pMemPacMask ≠ 1) :
    Conforming onePort (portRegs window) := by
  refine ⟨⟨pairwise_singleton _ _, pairwise_singleton _ _, by decide⟩, by decide, by decide,
    fun bdf hbdf => ?_, fun bdf hbdf o hcap _ => ?_⟩
  · rw [mem_singleton.mp hbdf]
    exact ⟨0x40, functionHw_onePort window⟩
  · obtain rfl : bdf = 0x100 := mem_singleton.mp hbdf
    obtain rfl : o = 0x40 := capability_unique (functionHw_onePort window) hcap
    refine ⟨?_, fun old data => ?_, fun x hx old data => ?_, ?_⟩
    · show (readCfg onePort (portRegs window) 0x100 type01Clsr 0 >>> 16 &&& 0xff) >>> 0 &&& 0x7f = 1
      have hval : portRegs window (portPage + type01Clsr) = 0x00010000 := rfl
      rw [readCfg_of_mapped hcap.mapped, word, regAddress_onePort _ (by decide), hval]
      decide
    · rw [regAddress_onePort _ (by decide)]
      rfl
    · simp only [mem_cons, not_mem_nil, or_false] at hx
      rcases hx with rfl | rfl
      all_goals rw [regAddress_onePort _ (by decide)]; rfl
    · have hwindow : word onePort (portRegs window) 0x100 type1PMem = window := by
        rw [word, regAddress_onePort _ (by decide)]
        rfl
      rw [hwindow, if_neg h32, regAddress_onePort _ (by decide)]
      intro old data
      rfl

/-- With the link enabled and windows of 1 MB, every test returns and keeps the port. -/
theorem rootPorts_kept_oneMegabyte :
    Conforming onePort (portRegs 0x00100010) ∧
      (∃ regs' status, P003.payload onePort 4 (fun _ _ => 0) (portRegs 0x00100010) =
        some (regs', status) ∧ PortsKept onePort (portRegs 0x00100010) regs') ∧
      (∃ regs' status, P005.payload onePort 4 (fun _ _ => .exception) 0 0 (portRegs 0x00100010) =
        some (regs', status) ∧ PortsKept onePort (portRegs 0x00100010) regs') ∧
      (∃ regs' status, P007.payload onePort 4 (fun _ _ _ => .exception) 0 (portRegs 0x00100010) =
        some (regs', status) ∧ PortsKept onePort (portRegs 0x00100010) regs') ∧
      ∃ regs' status, P008.payload onePort 4 (fun _ _ _ => .exception) 0 (portRegs 0x00100010) =
        some (regs', status) ∧ PortsKept onePort (portRegs 0x00100010) regs' := by
  have hc : Conforming onePort (portRegs 0x00100010) := conforming_onePort (by decide)
  have hf := functionHw_onePort 0x00100010
  obtain ⟨h3, h5, h7, h8⟩ := rootPorts_kept_iff onePort (portRegs 0x00100010) hc 4
  have hreturns {run : Option (CfgMem × Nat)} (h : run.isSome = true)
      (hkept : ∀ regs' status, run = some (regs', status) →
        PortsKept onePort (portRegs 0x00100010) regs') :
      ∃ regs' status, run = some (regs', status) ∧
        PortsKept onePort (portRegs 0x00100010) regs' := by
    obtain ⟨⟨regs', status⟩, hrun⟩ := Option.isSome_iff_exists.mp h
    exact ⟨regs', status, hrun, hkept regs' status hrun⟩
  refine ⟨hc, hreturns (by decide) fun regs' status h => ?_,
    hreturns (by decide) fun _ _ h => h5 _ _ _ _ _ h,
    hreturns (by decide) fun regs' status h => ?_, hreturns (by decide) fun regs' status h => ?_⟩
  · refine (h3 _ regs' status h).mpr (fun bdf hbdf hlink => ?_)
    obtain rfl : bdf = 0x100 := mem_singleton.mp (mem_of_find?_eq_some hbdf)
    rw [linkDisabled_iff hf] at hlink
    cases hlink
  · refine (h7 _ 0 regs' status h).mpr (.inr (fun bdf hbdf hnar => ?_))
    obtain rfl : bdf = 0x100 := mem_singleton.mp hbdf
    exact absurd hnar.2 (by decide)
  · refine (h8 _ 0 regs' status h).mpr (.inr ⟨fun _ => trivial, fun _ => ⟨fun _ => trivial, ?_⟩⟩)
    intro hwide
    exact absurd hwide (by decide)

/-- A window of 2 MB from 0x100000 on: when every load returns all ones, p007 passes, and
the window has 1 MB. -/
theorem narrowed_window_not_restored :
    Conforming onePort (portRegs 0x00200010) ∧
      ∃ regs' status, P007.payload onePort 4 (fun _ _ _ => .value pcieUnknownResponse) 0
          (portRegs 0x00200010) = some (regs', status) ∧
        isTestPass status = true ∧ ¬ PortsKept onePort (portRegs 0x00200010) regs' := by
  have hrun : ((P007.payload onePort 4 (fun _ _ _ => .value pcieUnknownResponse) 0
      (portRegs 0x00200010)).map (fun r => (r.1 (portPage + type1NpMem), isTestPass r.2))) =
      some (0x00100010, true) := by decide
  rw [Option.map_eq_some_iff] at hrun
  obtain ⟨⟨regs', status⟩, hrun, heq⟩ := hrun
  have hnp : regs' (portPage + type1NpMem) = 0x00100010 := congrArg Prod.fst heq
  refine ⟨conforming_onePort (by decide), regs', status, hrun, congrArg Prod.snd heq,
    fun hkept => ?_⟩
  have hport : IsRootPort onePort (portRegs 0x00200010) 0x100 := ⟨4, by decide⟩
  have hwin := (hkept 0x100 mem_cons_self hport).windows type1NpMem (by decide)
  rw [word, regAddress_onePort _ (by decide), hnp] at hwin
  exact absurd hwin (by decide)

end ServerSoc.Tests.RootPorts
