/-
Test p003 enables the link of the port it takes, whatever it was before.
-/
import ServerSoc.Tests.PortFrame

namespace ServerSoc.Tests.RootPorts

open Pcie List Option

namespace P003

noncomputable def taken (P : Platform) (regs : CfgMem) : Option Nat :=
  open Classical in P.table.find? (fun bdf => decide (Tested P regs bdf))

section

variable {P : Platform} {regs regs' : CfgMem} {vendor : Bool → Nat → Nat} {fuel status : Nat}

theorem searchPort_eq {l : List Nat} (hl : ∀ bdf ∈ l, ∃ o, FunctionHw P regs bdf o)
    {r : Option Nat} (h : searchPort P fuel regs l = some r) :
    r = open Classical in l.find? (fun bdf => decide (Tested P regs bdf)) := by
  induction l with
  | nil => exact (some.inj h).symm
  | cons bdf rest ih =>
    obtain ⟨o, hf⟩ := hl bdf mem_cons_self
    have ih := ih fun q hq => hl q (mem_cons_of_mem _ hq)
    rw [searchPort] at h
    split at h
    · cases h
    · rename_i dpType htype
      have hrp := portType_eq_rp_iff hf (fun _ _ => rfl) htype
      by_cases hport : dpType = rp
      · split_ifs at h with hunder
        · rw [find?_cons_of_neg (by simp [Tested, hunder])]
          exact ih h
        · rw [find?_cons_of_pos (by simp [Tested, hunder, hrp.mp hport])]
          exact (some.inj h).symm
      · rw [if_neg hport] at h
        rw [find?_cons_of_neg (by simp [Tested, mt hrp.mpr hport])]
        exact ih h

theorem payload_of_taken {bdf o : Nat} (hf : FunctionHw P regs bdf o) (hw : PortHw P regs bdf o)
    (hsearch : searchPort P fuel regs P.table = some (some bdf))
    (h : payload P fuel vendor regs = some (regs', status)) :
    Frame P bdf [o + lctrlrOffset] regs regs' ∧ linkBit P regs' bdf o = false := by
  have ho : o + lctrlrOffset < 2 ^ 32 := by
    have := hf.lt
    rw [lctrlrOffset]
    omega
  rw [payload, hsearch] at h
  dsimp only at h
  split at h
  · cases h
  · rename_i capBase hfind
    cases hf.find hfind
    rw [Nat.mod_eq_of_lt ho, readCfg_of_mapped hf.mapped] at h
    -- what is written last, over the registers as the disabling left them
    have hlast : ∀ regs1 v, Frame P bdf [o + lctrlrOffset] regs regs1 →
        regs' = writeCfg P regs1 bdf (o + lctrlrOffset) (v &&& (0xFFFFFFFF ^^^ linkDisable)) →
        Frame P bdf [o + lctrlrOffset] regs regs' ∧ linkBit P regs' bdf o = false := by
      rintro regs1 v hframe rfl
      refine ⟨hframe.trans (frame_writeCfg hf.mapped _ _), ?_⟩
      rw [linkBit, word_writeCfg hf.mapped, hw.link, BitVec.getLsbD_ofNat, Nat.testBit_and,
        show (0xFFFFFFFF ^^^ linkDisable).testBit 4 = false by decide]
      simp
    by_cases hbit : (word P regs bdf (o + lctrlrOffset)).toNat &&& linkDisable = linkDisable
    · simp only [ne_eq, hbit, not_true_eq_false, if_false, if_true, some.injEq,
        Prod.mk.injEq] at h
      exact hlast regs _ (.refl _ _ _ _) h.1.symm
    · have hor : ((word P regs bdf (o + lctrlrOffset)).toNat ||| linkDisable) &&& linkDisable =
          linkDisable := by
        rw [and_linkDisable, Nat.testBit_or, show linkDisable.testBit 4 = true by decide,
          Bool.or_true]
      simp only [ne_eq, hbit, not_false_eq_true, if_true, hor, some.injEq,
        Prod.mk.injEq] at h
      exact hlast _ _ (frame_writeCfg hf.mapped _ _) h.1.symm

theorem payload_kept_iff (hc : Conforming P regs)
    (h : payload P fuel vendor regs = some (regs', status)) :
    PortsKept P regs regs' ↔ ∀ bdf ∈ taken P regs, ¬ LinkDisabled P regs bdf := by
  cases hsearch : searchPort P fuel regs P.table with
  | none =>
    rw [payload, hsearch] at h
    cases h
  | some r =>
    have hr : r = taken P regs := searchPort_eq hc.functions hsearch
    rw [← hr]
    cases r with
    | none =>
      rw [payload, hsearch] at h
      cases h
      exact iff_of_true (portsKept_refl hc) (by simp)
    | some bdf =>
      have hbdf : bdf ∈ P.table := mem_of_find?_eq_some hr.symm
      have htested : Tested P regs bdf := by simpa using find?_some hr.symm
      obtain ⟨o, hf⟩ := hc.functions bdf hbdf
      have ho := hf.lt
      obtain ⟨hframe, hlink⟩ := payload_of_taken hf
        (hc.ports bdf hbdf o hf.capability htested.1) hsearch h
      have hself : Kept P regs regs' bdf ↔ ¬ LinkDisabled P regs bdf := by
        rw [kept_iff hf, linkDisabled_iff hf, hlink]
        have hwin : ∀ x ∈ windowRegisters, word P regs' bdf x = word P regs bdf x := by
          intro x hx
          have hge := hf.offset
          have hlt : x < 0x30 := by
            revert x
            decide
          refine hframe.word_eq (by omega) fun y hy => ?_
          rw [mem_singleton.mp hy, lctrlrOffset]
          omega
        rw [and_iff_left hwin, Bool.not_eq_true, eq_comm]
      constructor
      · intro hkept q hq
        cases hq
        exact hself.mp (hkept bdf hbdf htested.1)
      · intro hno q hq _
        by_cases heq : q = bdf
        · subst heq
          exact hself.mpr (hno q rfl)
        · obtain ⟨o', hf'⟩ := hc.functions q hq
          refine kept_of_same hf' (same_of_frame hc hbdf hq heq (fun x hx => ?_) hframe)
          rw [mem_singleton.mp hx, lctrlrOffset]
          omega

end

end P003

end ServerSoc.Tests.RootPorts
