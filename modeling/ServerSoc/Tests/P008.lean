/-
Test p008 narrows the prefetchable window of a port and writes it back.

The upper half of the base gets into the limit that is written back, the upper halves of
one port are used at the next one when its window has 32-bit addresses, and the link stays
disabled.
-/
import ServerSoc.Tests.PortFrame

namespace ServerSoc.Tests.RootPorts

open Base Memory Pcie Val List Nat Option

namespace P008

section

variable (P : Platform) (regs : CfgMem) (bdf : Nat)

def Has64 : Prop := (word P regs bdf type1PMem).toNat &&& pMemPacMask = 0x1

instance : Decidable (Has64 P regs bdf) := inferInstanceAs (Decidable (_ = _))

/-- The upper halves of base and limit at this port, when `up` is left from the ports
before it. -/
def uppers (up : Nat × Nat) : Nat × Nat :=
  if Has64 P regs bdf then
    ((word P regs bdf type1PMemBu).toNat, (word P regs bdf type1PMemLu).toNat)
  else up

abbrev window : Nat := (word P regs bdf type1PMem).toNat

def base (up : Nat × Nat) : Nat := windowBase P regs bdf type1PMem ||| up.1 <<< 32
def limit (up : Nat × Nat) : Nat := windowLimit P regs bdf type1PMem ||| up.2 <<< 32

def Entered : Prop := Tested P regs bdf ∧ (word P regs bdf type1PMem).toNat ≠ 0

/-- Bits 4 to 15 of the upper base, which the write back puts over the limit, are set in
the limit. -/
def Fits (up : Nat × Nat) : Prop :=
  up.1 >>> 4 &&& 0xFFF ||| (word P regs bdf type1PMem).toNat >>> 20 =
    (word P regs bdf type1PMem).toNat >>> 20

/-- The ports of the list are kept: one whose window is narrowed has its link disabled
already, or the first load behind the window raises an exception, and the upper base fits.
The test goes on when this load returns all ones. -/
def Preserved (probe : Nat → Nat → Nat → Load) : List Nat → Nat × Nat → Prop
  | [], _ => True
  | bdf :: l, up =>
    (¬ Entered P regs bdf → Preserved probe l up) ∧
    (Entered P regs bdf →
      (¬ Wide (base P regs bdf (uppers P regs bdf up)) (limit P regs bdf (uppers P regs bdf up)) →
        Preserved probe l (uppers P regs bdf up)) ∧
      (Wide (base P regs bdf (uppers P regs bdf up)) (limit P regs bdf (uppers P regs bdf up)) →
        let load := probe bdf 0
          (base P regs bdf (uppers P regs bdf up) + memOffsetLarge + memOffsetSmall)
        (LinkDisabled P regs bdf ∨ load = .exception) ∧ Fits P regs bdf (uppers P regs bdf up) ∧
          (load = .value pcieUnknownResponse → Preserved probe l
            (if Has64 P regs bdf then
              ((uppers P regs bdf up).1, (uppers P regs bdf up).1)
            else up))))

end

/-! ## Windows with upper halves -/

theorem base_eq (w u : Nat) : memBaseOf w ||| u <<< 32 = u * 2 ^ 32 + w / 16 % 4096 * 2 ^ 20 := by
  rw [memBaseOf_eq, Nat.or_comm]
  exact shiftLeft_or (by omega)

theorem limit_eq (w u : Nat) :
    memLimOf w ||| u <<< 32 = u * 2 ^ 32 + (w / 2 ^ 20 % 4096 * 2 ^ 20 + (2 ^ 20 - 1)) := by
  rw [memLimOf_eq, Nat.or_comm]
  exact shiftLeft_or (by omega)

theorem restored_iff (w : BitVec 32) (data u v : Nat) :
    maskedWrite windowMask (maskedWrite windowMask w (BitVec.ofNat 32 data))
        (BitVec.ofNat 32 ((memLimOf w.toNat ||| v <<< 32) &&& memLimMask |||
          (memBaseOf w.toNat ||| u <<< 32) >>> 16)) = w ↔
      u >>> 4 &&& 0xFFF ||| w.toNat >>> 20 = w.toNat >>> 20 := by
  have hlt := w.isLt
  have hlim : (memLimOf w.toNat ||| v <<< 32) &&& memLimMask = (w.toNat >>> 20) <<< 20 := by
    have hmask : (memLimOf w.toNat ||| v <<< 32) &&& memLimMask =
        ((memLimOf w.toNat ||| v <<< 32) / 2 ^ 20 % 2 ^ 12) <<< 20 := and_mask _ 12 20
    rw [hmask, limit_eq]
    omega
  have hbase : (memBaseOf w.toNat ||| u <<< 32) >>> 16 = 2 ^ 16 * u + w.toNat / 16 % 4096 * 16 := by
    rw [base_eq]
    omega
  -- bits of the upper base get into the limit, and none of the limit into the base
  have hhigh :
      getField 12 20 ((w.toNat >>> 20) <<< 20 ||| (2 ^ 16 * u + w.toNat / 16 % 4096 * 16)) =
      u >>> 4 &&& 0xFFF ||| w.toNat >>> 20 := by
    rw [getField_or, Nat.or_comm, show (0xFFF : Nat) = 2 ^ 12 - 1 from rfl, and_low, getField_eq,
      getField_eq]
    congr 1 <;> omega
  have hlow : getField 12 4 ((w.toNat >>> 20) <<< 20 ||| (2 ^ 16 * u + w.toNat / 16 % 4096 * 16)) =
      getField 12 4 w.toNat := by
    have hzero : getField 12 4 ((w.toNat >>> 20) <<< 20) = 0 := by
      rw [getField_eq]
      omega
    rw [getField_or, hzero, Nat.zero_or, getField_eq, getField_eq]
    omega
  obtain ⟨-, hattr, -, hattr'⟩ := (maskedWrite_eq_iff w _ data).mp rfl
  have hsame : getField 12 20 w.toNat = w.toNat >>> 20 := by
    rw [getField_eq]
    omega
  rw [maskedWrite_eq_iff, hlim, hbase]
  exact ⟨fun h => hhigh.symm.trans (h.limit.trans hsame),
    fun h => ⟨hlow, hattr.symm, hhigh.trans (h.trans hsame.symm), hattr'.symm⟩⟩

theorem attributes_maskedWrite (w : BitVec 32) (data : Nat) :
    (maskedWrite windowMask w (BitVec.ofNat 32 data)).toNat &&& pMemPacMask =
      w.toNat &&& pMemPacMask :=
  ((maskedWrite_eq_iff w _ data).mp rfl).baseAttr.symm

/-! ## One port -/

section

variable {P : Platform} {regs regs0 regs' : CfgMem} {bdf o : Nat} {l : List Nat} {fuel : Nat}
  {probe : Nat → Nat → Nat → Load} {s : St} {e : Exit St}

def St.up (s : St) : Nat × Nat := (s.memBaseUpper, s.memLimUpper)

section

variable (hmap : Mapped P.info bdf)
include hmap

theorem readUppers_eq (v : Nat) (s : St) :
    readUppers P bdf v s =
      if v &&& pMemPacMask = 0x1 then
        { s with
          memBaseUpper := (word P s.regs bdf type1PMemBu).toNat
          memLimUpper := (word P s.regs bdf type1PMemLu).toNat }
      else s := by
  rw [readUppers]
  simp [readCfg_of_mapped hmap]

theorem up_readUppers (hwin : ∀ x ∈ windowRegisters, word P s.regs bdf x = word P regs0 bdf x) :
    (readUppers P bdf (window P regs0 bdf) s).up = uppers P regs0 bdf s.up := by
  rw [readUppers_eq hmap, uppers, hwin type1PMemBu (by decide), hwin type1PMemLu (by decide)]
  by_cases h : Has64 P regs0 bdf
  · rw [if_pos h, if_pos (show _ = _ from h)]
    rfl
  · rw [if_neg h, if_neg (show ¬ _ = _ from h)]

theorem toSt_readUppers (v : Nat) (s : St) : (readUppers P bdf v s).toSt = s.toSt := by
  rw [readUppers_eq hmap]
  split <;> rfl

theorem narrow_spec (hhw : PortHw P regs0 bdf o)
    (hwin : ∀ x ∈ windowRegisters, word P s.regs bdf x = word P regs0 bdf x) (memBase : Nat) :
    Frame P bdf [type1PMem, type1PMemLu] s.regs (narrow P bdf memBase s).regs ∧
      (narrow P bdf memBase s).status = s.status ∧
      (∃ data, word P (narrow P bdf memBase s).regs bdf type1PMem =
        maskedWrite windowMask (word P regs0 bdf type1PMem) (BitVec.ofNat 32 data)) ∧
      (narrow P bdf memBase s).up =
        if Has64 P regs0 bdf then
          ((word P regs0 bdf type1PMemBu).toNat, (memBase >>> 32) % 2 ^ 32)
        else s.up := by
  have hmem := hwin type1PMem (by decide)
  rw [narrow, readCfg_of_mapped hmap, readCfg_of_mapped hmap, toSt_readUppers hmap, hmem]
  generalize memBase % 2 ^ 32 ||| (memBase % 2 ^ 32) >>> 16 = data
  have hlow : ∀ regs', word P regs' bdf type1PMem = word P s.regs bdf type1PMem →
      word P (writeCfg P regs' bdf type1PMem data) bdf type1PMem =
        maskedWrite windowMask (word P regs0 bdf type1PMem) (BitVec.ofNat 32 data) := by
    intro regs' h
    rw [word_writeCfg hmap, hhw.windows _ (by simp), h, hmem]
  by_cases h64 : Has64 P regs0 bdf
  · have hcond : window P regs0 bdf &&& pMemPacMask = 0x1 := h64
    have hup : Frame P bdf [type1PMemLu] s.regs
        (writeCfg P s.regs bdf type1PMemLu (memBase >>> 32)) := frame_writeCfg hmap _ _
    have hlu : word P (writeCfg P s.regs bdf type1PMemLu (memBase >>> 32)) bdf type1PMemLu =
        BitVec.ofNat 32 (memBase >>> 32) := by
      have hupper := hhw.upper
      rw [if_pos hcond] at hupper
      rw [word_writeCfg hmap, hupper]
    rw [if_pos hcond]
    generalize writeCfg P s.regs bdf type1PMemLu (memBase >>> 32) = regs' at hup hlu ⊢
    have hframe : Frame P bdf [type1PMem] regs' (writeCfg P regs' bdf type1PMem data) :=
      frame_writeCfg hmap _ _
    have hword := hlow regs' (hup.word_eq (by decide) (by simp [type1PMem, type1PMemLu]))
    refine ⟨(hup.mono (by simp)).trans (hframe.mono (by simp)), rfl, ⟨_, hword⟩, ?_⟩
    rw [hword, readUppers_eq hmap, attributes_maskedWrite, if_pos hcond, if_pos h64, St.up]
    rw [hframe.word_eq (by decide) (by simp [type1PMem, type1PMemBu]),
      hup.word_eq (by decide) (by simp [type1PMemBu, type1PMemLu]), hwin _ (by decide),
      hframe.word_eq (by decide) (by simp [type1PMem, type1PMemLu]), hlu, BitVec.toNat_ofNat]
  · have hcond : ¬ window P regs0 bdf &&& pMemPacMask = 0x1 := h64
    have hword := hlow s.regs rfl
    rw [if_neg hcond]
    refine ⟨(frame_writeCfg hmap _ _).mono (by simp), rfl, ⟨_, hword⟩, ?_⟩
    rw [hword, readUppers_eq hmap, attributes_maskedWrite, if_neg hcond, if_neg h64]
    rfl

end

theorem finishWindow_spec (hf : FunctionHw P s.regs bdf o)
    (h : finishWindow P fuel bdf s = some e) :
    Frame P bdf [o + dctlrOffset] s.regs e.state.regs ∧
      ((∃ s', e = .next s') ↔ isTestFail s.status = false) ∧ ∀ s', e = .next s' → s' = s := by
  rw [finishWindow, map_eq_some_iff] at h
  obtain ⟨e', hfin, rfl⟩ := h
  rcases frame_finish hf hfin with ⟨hno, rfl⟩ | ⟨hyes, regs', rfl, hframe⟩
  · refine ⟨.refl _ _ _ _, iff_of_true ⟨s, rfl⟩ hno, ?_⟩
    rintro s' ⟨⟩
    rfl
  · refine ⟨hframe, iff_of_false ?_ (by simp [hyes]), ?_⟩
    · rintro ⟨s', heq⟩
      cases heq
    · rintro s' heq
      cases heq

def firstLoad (P : Platform) (regs : CfgMem) (probe : Nat → Nat → Nat → Load) (bdf : Nat)
    (up : Nat × Nat) : Load :=
  probe bdf 0 (base P regs bdf up + memOffsetLarge + memOffsetSmall)

def uppersAfter (P : Platform) (regs : CfgMem) (bdf : Nat) (up : Nat × Nat) : Nat × Nat :=
  if Has64 P regs bdf then (up.1, up.1) else up

/-- What the test of a port does when it narrows the window, with the upper halves `up` and
the port as it is in `regs`. -/
structure WideEffect (P : Platform) (regs : CfgMem) (probe : Nat → Nat → Nat → Load) (bdf : Nat)
    (up : Nat × Nat) (e : Exit St) : Prop where
  running : ∀ s', e = .next s' → isTestFail s'.status = false ∧ s'.up = uppersAfter P regs bdf up
  kept : Kept P regs e.state.regs bdf ↔
    (LinkDisabled P regs bdf ∨ firstLoad P regs probe bdf up = .exception) ∧ Fits P regs bdf up
  goesOn : LinkDisabled P regs bdf ∨ firstLoad P regs probe bdf up = .exception →
    ((∃ s', e = .next s') ↔ firstLoad P regs probe bdf up = .value pcieUnknownResponse)

theorem word_writeBack (hmap : Mapped P.info bdf) (memLim oriMemBase : Nat) :
    word P (writeBack P regs bdf memLim oriMemBase) bdf type1PMem =
        P.wr (regAddress P.info bdf type1PMem) (word P regs bdf type1PMem)
          (BitVec.ofNat 32 (memLim &&& memLimMask ||| oriMemBase >>> 16)) ∧
      word P (writeBack P regs bdf memLim oriMemBase) bdf type1PMemLu =
        P.wr (regAddress P.info bdf type1PMemLu) (word P regs bdf type1PMemLu)
          (BitVec.ofNat 32 (memLim >>> 32)) := by
  have hlow : Frame P bdf [type1PMem] regs
      (writeCfg P regs bdf type1PMem (memLim &&& memLimMask ||| oriMemBase >>> 16)) :=
    frame_writeCfg hmap _ _
  rw [writeBack]
  constructor
  · rw [(frame_writeCfg hmap type1PMemLu _).word_eq (by decide)
      (by simp [type1PMem, type1PMemLu]), word_writeCfg hmap]
  · rw [word_writeCfg hmap, hlow.word_eq (by decide) (by simp [type1PMem, type1PMemLu])]

theorem kept_writeBack_iff {regs'' : CfgMem} (up : Nat × Nat) {data : Nat}
    (hf : FunctionHw P regs0 bdf o) (hhw : PortHw P regs0 bdf o)
    (hup : Has64 P regs0 bdf → up.2 = (word P regs0 bdf type1PMemLu).toNat)
    (hfixed : ∀ a, ReadOnly P.wr a → regs' a = regs0 a) (hnarrow : word P regs' bdf type1PMem =
      maskedWrite windowMask (word P regs0 bdf type1PMem) (BitVec.ofNat 32 data))
    (hother : ∀ x ∈ [type1NpMem, type1PMemBu], word P regs' bdf x = word P regs0 bdf x)
    (hend : Frame P bdf [o + dctlrOffset]
      (writeBack P regs' bdf (limit P regs0 bdf up) (base P regs0 bdf up)) regs'') :
    Kept P regs0 regs'' bdf ↔
      linkBit P regs' bdf o = linkBit P regs0 bdf o ∧ Fits P regs0 bdf up := by
  have hlt := hf.lt
  have hge := hf.offset
  have hback : Frame P bdf [type1PMem, type1PMemLu] regs'
      (writeBack P regs' bdf (limit P regs0 bdf up) (base P regs0 bdf up)) :=
    frame_writeBack hf.mapped _ _
  have hwords : word P (writeBack P regs' bdf (limit P regs0 bdf up) (base P regs0 bdf up)) bdf
      type1PMem = _ ∧ _ := word_writeBack hf.mapped _ _
  obtain ⟨hlow, hhigh⟩ := hwords
  generalize writeBack P regs' bdf (limit P regs0 bdf up) (base P regs0 bdf up) = back
    at hend hback hlow hhigh
  have hlast : ∀ x ∈ portRegisters o, word P regs'' bdf x = word P back bdf x := by
    intro x hx
    obtain ⟨hx4, -, hne⟩ := portRegisters_spec hf x hx
    refine hend.word_eq (by omega) fun y hy => ?_
    rw [mem_singleton.mp hy, dctlrOffset] at *
    omega
  have hlink : linkBit P regs'' bdf o = linkBit P regs' bdf o := by
    have hoff : ∀ y ∈ [type1PMem, type1PMemLu], y < 0x40 := by decide
    rw [linkBit, hlast _ mem_cons_self, hback.word_eq (by rw [lctrlrOffset]; omega), ← linkBit]
    intro y hy
    have := hoff y hy
    omega
  have hsame : ∀ x ∈ [type1NpMem, type1PMemBu], word P regs'' bdf x = word P regs0 bdf x := by
    intro x hx
    have hx' : x ∈ windowRegisters ∧ x < 2 ^ 32 ∧
        ∀ y ∈ [type1PMem, type1PMemLu], y < 2 ^ 32 ∧ x ≠ y := by
      revert x
      decide
    rw [hlast x (mem_cons_of_mem _ hx'.1), hback.word_eq hx'.2.1 hx'.2.2, hother x hx]
  have hlimit : word P regs'' bdf type1PMemLu = word P regs0 bdf type1PMemLu := by
    have hupper := hhw.upper
    rw [hlast _ (by simp [portRegisters, windowRegisters]), hhigh]
    split_ifs at hupper with h64
    · have hshift : limit P regs0 bdf up >>> 32 = up.2 := by
        rw [limit, windowLimit, limit_eq]
        omega
      rw [hupper, hshift, hup h64, BitVec.ofNat_toNat, BitVec.setWidth_eq]
    · rw [hupper]
      exact hfixed _ hupper
  have hwindow : word P regs'' bdf type1PMem = word P regs0 bdf type1PMem ↔
      Fits P regs0 bdf up := by
    rw [hlast _ (by simp [portRegisters, windowRegisters]), hlow, hhw.windows _ (by simp), hnarrow]
    exact restored_iff (word P regs0 bdf type1PMem) data up.1 up.2
  rw [kept_iff hf, hlink, ← hwindow]
  refine and_congr_right fun _ => ⟨fun h => h _ (by simp [windowRegisters]), fun h x hx => ?_⟩
  simp only [windowRegisters, mem_cons, not_mem_nil, or_false] at hx
  rcases hx with rfl | rfl | rfl | rfl
  · exact hsame _ (by simp)
  · exact h
  · exact hsame _ (by simp)
  · exact hlimit

def WideAt (P : Platform) (regs : CfgMem) (bdf : Nat) (up : Nat × Nat) : Prop :=
  Wide (base P regs bdf (uppers P regs bdf up)) (limit P regs bdf (uppers P regs bdf up))

theorem testWindow_of_wide (hf : FunctionHw P regs0 bdf o) (hhw : PortHw P regs0 bdf o)
    (hp : Prepared P regs0 bdf o regs s.regs) (hstatus : isTestFail s.status = false)
    (hwide : WideAt P regs0 bdf s.up)
    (h : testWindow P fuel probe bdf (window P regs0 bdf) s = some e) :
    Frame P bdf (portOffsets o) s.regs e.state.regs ∧
      WideEffect P regs0 probe bdf (uppers P regs0 bdf s.up) e := by
  have hge := hf.offset
  have hlt := hf.lt
  have hto := toSt_readUppers (P := P) hf.mapped (window P regs0 bdf) s
  have hup := up_readUppers hf.mapped hp.windows
  have h64up : Has64 P regs0 bdf → uppers P regs0 bdf s.up =
      ((word P regs0 bdf type1PMemBu).toNat, (word P regs0 bdf type1PMemLu).toNat) :=
    fun h64 => if_pos h64
  rw [WideAt] at hwide
  rw [testWindow] at h
  dsimp only at h
  generalize readUppers P bdf (window P regs0 bdf) s = s1 at h hto hup
  generalize uppers P regs0 bdf s.up = up at h64up hwide hup ⊢
  obtain ⟨⟨regs1, status1, skip1⟩, bu1, lu1⟩ := s1
  obtain rfl : regs1 = s.regs := congrArg RootPorts.St.regs hto
  obtain rfl : status1 = s.status := congrArg RootPorts.St.status hto
  obtain rfl : (bu1, lu1) = up := hup
  -- the window is wide, so the tests before it do not stop
  have hord : ¬ limit P regs0 bdf (bu1, lu1) < base P regs0 bdf (bu1, lu1) + memOffsetSmall := by
    rw [Wide, memShift] at hwide
    rw [limit, windowLimit, limit_eq] at hwide ⊢
    rw [memOffsetSmall]
    omega
  have hbase : memBaseOf (window P regs0 bdf) ||| bu1 <<< 32 =
      base P regs0 bdf (bu1, lu1) := rfl
  have hlimit : memLimOf (window P regs0 bdf) ||| lu1 <<< 32 =
      limit P regs0 bdf (bu1, lu1) := rfl
  rw [hbase, hlimit, if_neg (fun hlt => hord (hlt.trans_le (Nat.le_add_right _ _))),
    if_neg hord, if_pos (show _ < _ from hwide)] at h
  have hbu : base P regs0 bdf (bu1, lu1) >>> 32 = bu1 := by
    rw [base, windowBase, base_eq]
    omega
  obtain ⟨hnframe, hnstatus, ⟨data, hnword⟩, hnup⟩ :=
    narrow_spec (s := ⟨⟨s.regs, s.status, false⟩, bu1, lu1⟩) hf.mapped hhw hp.windows
      (base P regs0 bdf (bu1, lu1))
  generalize narrow P bdf (base P regs0 bdf (bu1, lu1)) ⟨⟨s.regs, s.status, false⟩, bu1, lu1⟩ = s2
    at h hnframe hnstatus hnword hnup
  split at h
  · cases h
  · rename_i regs' status' hprobe
    have hnfix := fun a ha => (hnframe.fixed a ha).trans (hp.fixed a ha)
    obtain ⟨hpframe, hplink, hpfail⟩ :=
      probeOutside_spec (hf.of_fixed hnfix) hhw.link (by decide) hprobe
    -- the two registers of the window are the only ones that the narrowing writes
    have hkeep : ∀ x ∈ portRegisters o, x ≠ type1PMem → x ≠ type1PMemLu →
        word P s2.regs bdf x = word P regs0 bdf x := by
      intro x hx hne hne'
      rw [← hp.own x hx]
      have hx4 := (portRegisters_spec hf x hx).1
      refine hnframe.word_eq (by omega) fun y hy => ?_
      simp only [mem_cons, not_mem_nil, or_false] at hy
      rcases hy with rfl | rfl
      · exact ⟨by decide, hne⟩
      · exact ⟨by decide, hne'⟩
    have hlow : ∀ x < 0x40, word P regs' bdf x = word P s2.regs bdf x := by
      intro x hx
      refine hpframe.word_eq (by omega) fun y hy => ?_
      rw [mem_singleton.mp hy, lctrlrOffset]
      omega
    have hlink : linkBit P s2.regs bdf o = linkBit P regs0 bdf o := by
      rw [linkBit, hkeep _ mem_cons_self, ← linkBit]
      all_goals simp only [type1PMem, type1PMemLu]; omega
    rw [hlink, ← linkDisabled_iff hf] at hplink hpfail
    have hfix := fun a ha => (hpframe.fixed a ha).trans (hnfix a ha)
    have hback : Frame P bdf [type1PMem, type1PMemLu] regs' (writeBack P regs' bdf
        (limit P regs0 bdf (bu1, lu1)) (base P regs0 bdf (bu1, lu1))) :=
      frame_writeBack hf.mapped _ _
    obtain ⟨hfframe, hfnext, hfsame⟩ := finishWindow_spec
      (hf.of_fixed (fun a ha => (hback.fixed a ha).trans (hfix a ha))) h
    have hkept := kept_writeBack_iff (bu1, lu1) hf hhw (fun h64 => congrArg Prod.snd (h64up h64))
      hfix ((hlow _ (by decide)).trans hnword) ?_ hfframe
    · refine ⟨?_, fun s' heq => ?_, ?_, fun hor => ?_⟩
      · refine (hnframe.mono (by simp [portOffsets])).trans
          ((hpframe.mono (by simp [portOffsets])).trans ?_)
        exact (hback.mono (by simp [portOffsets])).trans (hfframe.mono (by simp [portOffsets]))
      · rw [hfsame s' heq]
        refine ⟨hfnext.mp ⟨s', heq⟩, Eq.trans hnup ?_⟩
        rw [uppersAfter]
        by_cases h64 : Has64 P regs0 bdf
        · have hpair : bu1 = _ := congrArg Prod.fst (h64up h64)
          rw [if_pos h64, if_pos h64, hbu, hpair, mod_eq_of_lt (BitVec.isLt _)]
        · rw [if_neg h64, if_neg h64]
          rfl
      · rw [hkept, hplink]
        exact Iff.rfl
      · rw [hfnext]
        exact hpfail hor (hnstatus ▸ hstatus)
    · intro x hx
      have hx' : x < 0x40 ∧ x ∈ windowRegisters ∧ x ≠ type1PMem ∧ x ≠ type1PMemLu := by
        revert x
        decide
      rw [hlow x hx'.1, hkeep x (mem_cons_of_mem _ hx'.2.1) hx'.2.2.1 hx'.2.2.2]

theorem testWindow_of_not_wide (hmap : Mapped P.info bdf)
    (hwin : ∀ x ∈ windowRegisters, word P s.regs bdf x = word P regs0 bdf x)
    (hstatus : isTestFail s.status = false) (hwide : ¬ WideAt P regs0 bdf s.up)
    (h : testWindow P fuel probe bdf (window P regs0 bdf) s = some e) :
    ∃ s', e = .next s' ∧ s'.regs = s.regs ∧ s'.status = s.status ∧
      s'.up = uppers P regs0 bdf s.up := by
  have hto := toSt_readUppers hmap (window P regs0 bdf) s
  have hup := up_readUppers hmap hwin
  rw [WideAt] at hwide
  rw [testWindow] at h
  generalize readUppers P bdf (window P regs0 bdf) s = s1 at h hto hup
  rw [← hup] at hwide ⊢
  have hbase : memBaseOf (window P regs0 bdf) ||| s1.memBaseUpper <<< 32 =
      base P regs0 bdf s1.up := rfl
  have hlimit : memLimOf (window P regs0 bdf) ||| s1.memLimUpper <<< 32 =
      limit P regs0 bdf s1.up := rfl
  rw [hbase, hlimit] at h
  have hord : limit P regs0 bdf s1.up < base P regs0 bdf s1.up ∨
      ¬ limit P regs0 bdf s1.up < base P regs0 bdf s1.up + memOffsetSmall := by
    rw [base, limit, windowBase, windowLimit, base_eq, limit_eq, memOffsetSmall]
    omega
  have hregs := congrArg RootPorts.St.regs hto
  have hstat : s1.status = s.status := congrArg RootPorts.St.status hto
  by_cases hlt : limit P regs0 bdf s1.up < base P regs0 bdf s1.up
  · rw [if_pos hlt] at h
    exact ⟨s1, (some.inj h).symm, hregs, hstat, rfl⟩
  · rw [if_neg hlt, if_neg (hord.resolve_left hlt), if_neg (show ¬ _ < _ from hwide), finishWindow,
      finish] at h
    rw [hstat, hstatus] at h
    exact ⟨_, (some.inj h).symm, hregs, rfl, rfl⟩

section

variable (hc : Conforming P regs0)
include hc

theorem body_round (hbdf : bdf ∈ P.table) (hnot : bdf ∉ l) (hl : ∀ q ∈ l, q ∈ P.table)
    (hI : Pending P regs0 (bdf :: l) s.regs ∧ isTestFail s.status = false)
    (h : body P fuel probe bdf s = some e) :
    RoundEffect P regs0 (fun s : St => s.regs)
      (fun l s => Pending P regs0 l s.regs ∧ isTestFail s.status = false)
      (fun l s => Preserved P regs0 probe l s.up) bdf l s e := by
  have hbody : windowBody P fuel type1PMem (fun s : St => s.regs)
      (fun s regs => { s with regs := regs }) (testWindow P fuel probe bdf) bdf s = some e := h
  have hskip : ¬ Entered P regs0 bdf →
      (Preserved P regs0 probe (bdf :: l) s.up ↔ Preserved P regs0 probe l s.up) := fun hno =>
    (and_iff_left (fun hyes => absurd hyes hno)).trans (imp_iff_right hno)
  refine windowBody_round (fun s : St => s.status) hc hbdf hnot hl hI hbody (by decide)
    (fun hno => hskip (fun hyes => hno hyes.1)) fun o regs' hf htested hprep hend => ?_
  -- a port that is left as it was, with these upper halves
  have hleft : ∀ s', e = .next s' → s'.regs = regs' → s'.status = s.status →
      (Preserved P regs0 probe (bdf :: l) s.up ↔ Preserved P regs0 probe l s'.up) →
      Frame P bdf (portOffsets o) regs' e.state.regs ∧
        (∀ s', e = .next s' → isTestFail s'.status = false) ∧
        (Preserved P regs0 probe (bdf :: l) s.up ↔ Kept P regs0 e.state.regs bdf ∧
          ∀ s', e = .next s' → Preserved P regs0 probe l s'.up) := by
    rintro s' rfl rfl hst hcond
    refine ⟨.refl _ _ _ _, Exit.forall_next.mpr (hst ▸ hI.2), ?_⟩
    rw [hcond, Exit.forall_next]
    exact (and_iff_right (kept_of_words hf hprep.own)).symm
  by_cases hzero : window P regs0 bdf = 0
  · rw [if_pos hzero] at hend
    exact hleft _ (some.inj hend).symm rfl rfl (hskip (fun hyes => hyes.2 hzero))
  · have hentered : Entered P regs0 bdf := ⟨htested, hzero⟩
    have hcond : Preserved P regs0 probe (bdf :: l) s.up ↔ _ ∧ _ :=
      (and_iff_right (fun hno => absurd hentered hno)).trans (imp_iff_right hentered)
    rw [if_neg hzero] at hend
    by_cases hw : WideAt P regs0 bdf s.up
    · obtain ⟨hframe, hrun, hkept, hgo⟩ : _ ∧ WideEffect P regs0 probe bdf
          (uppers P regs0 bdf s.up) e := testWindow_of_wide (s := { s with regs := regs' }) hf
        (hc.ports bdf hbdf o hf.capability htested.1) hprep hI.2 hw hend
      refine ⟨hframe, fun s' heq => (hrun s' heq).1, ?_⟩
      have hafter : uppersAfter P regs0 bdf (uppers P regs0 bdf s.up) =
          if Has64 P regs0 bdf then ((uppers P regs0 bdf s.up).1, (uppers P regs0 bdf s.up).1)
          else s.up := by
        rw [uppersAfter]
        by_cases h64 : Has64 P regs0 bdf
        · rw [if_pos h64, if_pos h64]
        · rw [if_neg h64, if_neg h64, uppers, if_neg h64]
      rw [WideAt] at hw
      rw [hcond, imp_iff_right hw, and_iff_right (fun hno => absurd hw hno), ← hafter, hkept,
        and_assoc]
      refine and_congr_right fun hor => and_congr_right fun _ => ?_
      constructor
      · rintro hall s' rfl
        rw [(hrun s' rfl).2]
        exact hall ((hgo hor).mp ⟨s', rfl⟩)
      · intro hall hload
        obtain ⟨s', heq⟩ := (hgo hor).mpr hload
        rw [← (hrun s' heq).2]
        exact hall s' heq
    · obtain ⟨s', heq, hregs, hst, hup⟩ := testWindow_of_not_wide
        (s := { s with regs := regs' }) hf.mapped hprep.windows hI.2 hw hend
      refine hleft s' heq hregs hst ?_
      rw [hup, hcond]
      exact (and_iff_left (fun hyes => absurd hyes hw)).trans (imp_iff_right hw)

theorem payload_kept_iff {esrStatus status : Nat}
    (h : payload P fuel probe esrStatus regs0 = some (regs', status)) :
    PortsKept P regs0 regs' ↔ esrStatus ≠ 0 ∨ Preserved P regs0 probe P.table (0, 0) :=
  RootPorts.payload_kept_iff (fun s : St => s.status)
    (C := fun l s => Preserved P regs0 probe l s.up) hc (fun _ => trivial)
    (fun _ _ _ _ hbdf hnot hl hI hb => body_round hc hbdf hnot hl hI hb) h rfl
    (show isTestFail (resultPending testNum) = false by decide) fun e => by cases e <;> rfl

end

end

end P008

end ServerSoc.Tests.RootPorts
