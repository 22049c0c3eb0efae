/-
Test p007 narrows the non-prefetchable window of a port and writes the old value to the
prefetchable one.
-/
import ServerSoc.Tests.PortFrame

namespace ServerSoc.Tests.RootPorts

open Memory Pcie Val List Option

namespace P007

section

variable {P : Platform} {regs regs0 : CfgMem} {bdf o : Nat} {l : List Nat} {fuel : Nat}
  {probe : Nat → Nat → Nat → Load} {e : Exit St} {s : St}

def Narrowed (P : Platform) (regs : CfgMem) (bdf : Nat) : Prop :=
  Tested P regs bdf ∧ Wide (windowBase P regs bdf type1NpMem) (windowLimit P regs bdf type1NpMem)

theorem testWindow_of_not_wide {w : Nat} (hstatus : isTestFail s.status = false)
    (hwide : ¬ Wide (memBaseOf w) (memLimOf w)) (h : testWindow P fuel probe bdf w s = some e) :
    ∃ s', e = .next s' ∧ s'.regs = s.regs ∧ s'.status = s.status := by
  have hlim : memLimOf w < memBaseOf w ∨ ¬ memLimOf w < memBaseOf w + memOffsetSmall := by
    rw [memBaseOf_eq, memLimOf_eq, memOffsetSmall]
    omega
  rw [testWindow] at h
  by_cases hlt : memLimOf w < memBaseOf w
  · rw [if_pos hlt] at h
    exact ⟨s, (some.inj h).symm, rfl, rfl⟩
  · rw [if_neg (hlim.resolve_left hlt)] at h
    split_ifs at h with hyes
    · exact absurd hyes hwide
    · rw [finish, hstatus] at h
      exact ⟨_, (some.inj h).symm, rfl, rfl⟩

theorem testWindow_of_wide (hf : FunctionHw P s.regs bdf o)
    (hnp : ∀ old data, P.wr (regAddress P.info bdf type1NpMem) old data =
      maskedWrite windowMask old data) (hlink : ∀ old data,
      (P.wr (regAddress P.info bdf (o + lctrlrOffset)) old data).getLsbD 4 = data.getLsbD 4)
    (hwide : Wide (memBaseOf (word P s.regs bdf type1NpMem).toNat)
      (memLimOf (word P s.regs bdf type1NpMem).toNat))
    (h : testWindow P fuel probe bdf (word P s.regs bdf type1NpMem).toNat s = some e) :
    Frame P bdf (portOffsets o) s.regs e.state.regs ∧
      (∀ s', e = .next s' → isTestFail s'.status = false) ∧
      word P e.state.regs bdf type1NpMem ≠ word P s.regs bdf type1NpMem := by
  have hge := hf.offset
  have hlt := hf.lt
  have hlim := (wide_iff _).mp hwide
  have hnarrow := narrowed_ne hwide
  generalize hw : (word P s.regs bdf type1NpMem).toNat = w at h hlim hwide hnarrow
  rw [testWindow] at h
  dsimp only at h
  rw [if_neg (by rw [memBaseOf_eq, memLimOf_eq]; omega),
    if_neg (by rw [memBaseOf_eq, memLimOf_eq, memOffsetSmall]; omega),
      if_pos (show _ < _ from hwide)] at h
  have hwrite : Frame P bdf [type1NpMem] s.regs
      (writeCfg P s.regs bdf type1NpMem (memBaseOf w ||| memBaseOf w >>> 16)) :=
    frame_writeCfg hf.mapped _ _
  split at h
  · cases h
  · rename_i regs' status' hprobe
    obtain ⟨hframe, -⟩ := probeOutside_spec (hf.of_fixed hwrite.fixed) hlink (by decide) hprobe
    -- behind the first write nothing is written to the register
    have hback : Frame P bdf [type1PMem, type1PMemLu] regs'
        (writeBack P regs' bdf (memLimOf w) (memBaseOf w)) := frame_writeBack hf.mapped _ _
    have hfix :=
      fun a ha => (hback.fixed a ha).trans ((hframe.fixed a ha).trans (hwrite.fixed a ha))
    have hrest : Frame P bdf [type1PMem, type1PMemLu, o + lctrlrOffset, o + dctlrOffset]
        (writeCfg P s.regs bdf type1NpMem (memBaseOf w ||| memBaseOf w >>> 16)) e.state.regs := by
      refine (hframe.mono (by simp)).trans ((hback.mono (by simp)).trans ?_)
      rcases frame_finish (hf.of_fixed hfix) h with ⟨-, rfl⟩ | ⟨-, regs'', rfl, hfin⟩
      · exact .refl _ _ _ _
      · exact hfin.mono (by simp)
    refine ⟨?_, ?_, ?_⟩
    · exact (hwrite.mono (by simp [portOffsets])).trans (hrest.mono (by simp [portOffsets]))
    · rintro s' rfl
      rcases frame_finish (hf.of_fixed hfix) h with ⟨hno, heq⟩ | ⟨-, regs'', heq, -⟩
      · cases heq
        exact hno
      · cases heq
    · rw [hrest.word_eq (by decide) (fun y hy => ?_), word_writeCfg hf.mapped, hnp]
      · exact hnarrow
      · simp only [mem_cons, not_mem_nil, or_false] at hy
        rw [lctrlrOffset, dctlrOffset] at hy
        rcases hy with rfl | rfl | rfl | rfl
        · decide
        · decide
        all_goals rw [type1NpMem]; omega

section

variable (hc : Conforming P regs0)
include hc

theorem body_round (hbdf : bdf ∈ P.table) (hnot : bdf ∉ l) (hl : ∀ q ∈ l, q ∈ P.table)
    (hI : Pending P regs0 (bdf :: l) s.regs ∧ isTestFail s.status = false)
    (h : body P fuel probe bdf s = some e) :
    RoundEffect P regs0 St.regs (fun l s => Pending P regs0 l s.regs ∧ isTestFail s.status = false)
      (fun l _ => ∀ q ∈ l, ¬ Narrowed P regs0 q) bdf l s e := by
  have hbody : windowBody P fuel type1NpMem St.regs (fun s regs => { s with regs := regs })
      (testWindow P fuel probe bdf) bdf s = some e := h
  refine windowBody_round St.status hc hbdf hnot hl hI hbody (by decide) (fun hno => ?_)
    (fun o regs' hf htested hprep hend => ?_)
  · rw [forall_mem_cons]
    exact and_iff_right fun hyes => hno hyes.1
  · have hhw := hc.ports bdf hbdf o hf.capability htested.1
    have hnp := hprep.windows type1NpMem (by decide)
    rw [forall_mem_cons]
    by_cases hwide : Wide (windowBase P regs0 bdf type1NpMem) (windowLimit P regs0 bdf type1NpMem)
    · have hne : ¬ (word P regs0 bdf type1NpMem).toNat = 0 := by
        intro h0
        rw [windowBase, windowLimit, h0] at hwide
        exact absurd hwide (by decide)
      rw [if_neg hne, ← hnp] at hend
      obtain ⟨hframe, hrun, hne'⟩ := testWindow_of_wide (s := { s with regs := regs' })
        (hf.of_fixed hprep.fixed) (hhw.windows _ (by simp)) hhw.link (by rw [hnp]; exact hwide) hend
      refine ⟨hframe, hrun,
        iff_of_false (fun hall => hall.1 ⟨htested, hwide⟩) (fun hall => hne' ?_)⟩
      rw [hall.1.windows _ (by decide), hnp]
    · have hleft : ∃ s', e = .next s' ∧ s'.regs = regs' ∧ s'.status = s.status := by
        split at hend
        · exact ⟨_, (some.inj hend).symm, rfl, rfl⟩
        · exact testWindow_of_not_wide (s := { s with regs := regs' }) hI.2 hwide hend
      obtain ⟨s', rfl, rfl, hst⟩ := hleft
      exact ⟨.refl _ _ _ _, Exit.forall_next.mpr (hst ▸ hI.2), and_congr (iff_of_true
        (fun hyes => hwide hyes.2) (kept_of_words hf hprep.own))
          (Exit.forall_next (Q := fun _ => _)).symm⟩

theorem payload_kept_iff {esrStatus status : Nat} {regs' : CfgMem}
    (h : payload P fuel probe esrStatus regs0 = some (regs', status)) :
    PortsKept P regs0 regs' ↔ esrStatus ≠ 0 ∨ ∀ bdf ∈ P.table, ¬ Narrowed P regs0 bdf :=
  RootPorts.payload_kept_iff St.status (C := fun l _ => ∀ q ∈ l, ¬ Narrowed P regs0 q)
    hc (fun _ => nofun) (fun _ _ _ _ hbdf hnot hl hI hb => body_round hc hbdf hnot hl hI hb) h rfl
    (show isTestFail (resultPending testNum) = false by decide) fun e => by cases e <;> rfl

end

end

end P007

end ServerSoc.Tests.RootPorts
