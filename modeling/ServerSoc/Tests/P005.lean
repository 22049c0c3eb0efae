/-
Test p005 never gets to the link of a root port.

The unaligned read leaves all ones in `reg_value`, the reads of 16 bits behind it leave the upper
half as it is, and the comparison with 0xFFFF looks at all 32 bits.  So the test fails behind the
first reset, before it writes a register of a window or the Link Control register.
-/
import ServerSoc.Tests.PortFrame

namespace ServerSoc.Tests.RootPorts

open Base Pcie Val List Nat

namespace P005

/-! ## The registers that the test never writes -/

/-- The root ports have the registers in question, and their header type, as before. -/
structure Guard (P : Platform) (regs0 regs : CfgMem) : Prop where
  ports : ∀ q ∈ P.table, IsRootPort P regs0 q → ∀ o, FunctionHw P regs0 q o →
    ∀ x ∈ type01Clsr :: portRegisters o, word P regs q x = word P regs0 q x
  fixed : ∀ a, ReadOnly P.wr a → regs a = regs0 a

variable {P : Platform} {regs0 : CfgMem}

section

variable {regs regs' : CfgMem} {bdf o x : Nat}

theorem guardRegisters_spec (hf : FunctionHw P regs bdf o) :
    ∀ x ∈ type01Clsr :: portRegisters o, 4 ≤ x ∧ x < 4096 ∧ x ≠ type01Cr ∧ x ≠ o + dctlrOffset ∧
      x ≠ o + rtctrlOffset := by
  have hge := hf.offset
  have hlt := hf.lt
  have hlow : ∀ x ∈ type01Clsr :: windowRegisters, 4 ≤ x ∧ x < 0x30 ∧ x ≠ type01Cr := by decide
  intro x hx
  have hcases : x = o + lctrlrOffset ∨ x ∈ type01Clsr :: windowRegisters := by
    simp only [portRegisters, mem_cons] at hx ⊢
    tauto
  rcases hcases with rfl | hx
  · simp only [lctrlrOffset, dctlrOffset, rtctrlOffset, type01Cr]
    omega
  · have hsmall := hlow x hx
    omega

theorem Guard.refl (P : Platform) (regs : CfgMem) : Guard P regs regs :=
  ⟨fun _ _ _ _ _ _ _ => rfl, fun _ _ => rfl⟩

section

variable (hc : Conforming P regs0) (h : Guard P regs0 regs)
include hc h

theorem Guard.of_frame (hframe : Frame P bdf [x] regs regs') (hbdf : bdf < 2 ^ 32)
    (hmap : Mapped P.info bdf) (hx : x < 4100) (hown : bdf ∈ P.table → IsRootPort P regs0 bdf →
      ∀ o, FunctionHw P regs0 bdf o → x ∉ type01Clsr :: portRegisters o) : Guard P regs0 regs' := by
  refine ⟨fun q hq hport o hf y hy => ?_, fun a ha => (hframe.fixed a ha).trans (h.fixed a ha)⟩
  rw [← h.ports q hq hport o hf y hy]
  obtain ⟨hy4, hylt, -⟩ := guardRegisters_spec hf y hy
  refine hframe.others _ (forall_mem_singleton.mpr ?_)
  by_cases heq : q = bdf
  · subst heq
    exact regAddress_ne _ _ (by omega) (by omega) fun hyx => hown hq hport o hf (hyx ▸ hy)
  · exact (regAddress_apart hc.windows hbdf (hc.lt q hq) hmap hf.mapped (Ne.symm heq) hx hylt
      (.inr hy4)).symm

theorem Guard.kept : PortsKept P regs0 regs := by
  intro q hq hport
  obtain ⟨o, hf⟩ := hc.functions q hq
  exact kept_of_words hf fun x hx => h.ports q hq hport o hf x (mem_cons_of_mem _ hx)

theorem Guard.enableBme (hbdf : bdf < 2 ^ 32) :
    Guard P regs0 (valPcieEnableBme (cfgHw P.wr) P.info regs bdf) := by
  by_cases hmap : Mapped P.info bdf
  · exact h.of_frame hc (frame_writeCfg hmap type01Cr _) hbdf hmap (by decide)
      (fun _ _ o hf hmem => (guardRegisters_spec hf _ hmem).2.2.1 rfl)
  · rw [valPcieEnableBme, (rejects_of_not_mapped type01Cr hmap).write]
    exact h

end

theorem frame_writeCfgWidth (hmap : Mapped P.info bdf) (x data : Nat) (width : PciWidth) :
    Frame P bdf [x] regs (writeCfgWidth P regs bdf x data width) := by
  rw [writeCfgWidth, valPcieWriteCfgWidth]
  simp only [hmap.inRange, hmap.isNone_eq_false, hmap.2.2]
  exact frame_update x _

section

variable (hc : Conforming P regs0) (h : Guard P regs0 regs) (hbdf : bdf ∈ P.table)
include hc h hbdf

theorem Guard.clearUrd {fuel uninit : Nat}
    (hclear : valPcieClearUrd fuel P.info P.wr bdf uninit regs = some regs') :
    Guard P regs0 regs' := by
  obtain ⟨o, hf⟩ := hc.functions bdf hbdf
  have hlt := hf.lt
  refine h.of_frame hc (frame_clearUrd (hf.of_fixed h.fixed) hclear) (hc.lt bdf hbdf) hf.mapped
    (by rw [dctlrOffset]; omega) fun _ _ o' hf' hmem => ?_
  rw [← capability_unique hf hf'.capability] at hmem
  exact (guardRegisters_spec hf' _ hmem).2.2.2.1 rfl

theorem Guard.rootControl (hf : FunctionHw P regs0 bdf o) (data : Nat) :
    Guard P regs0 (writeCfgWidth P regs bdf ((o + rtctrlOffset) % 2 ^ 32) data .uint16) := by
  have hlt := hf.lt
  rw [mod_eq_of_lt (by rw [rtctrlOffset]; omega)]
  refine h.of_frame hc (frame_writeCfgWidth hf.mapped _ _ _) (hc.lt bdf hbdf) hf.mapped
    (by rw [rtctrlOffset]; omega) fun _ _ o' hf' hmem => ?_
  rw [← capability_unique hf hf'.capability] at hmem
  exact (guardRegisters_spec hf' _ hmem).2.2.2.2 rfl

theorem Guard.not_port (hhead : valPcieFunctionHeaderType (P.view regs) bdf = type0HeaderType) :
    ¬ IsRootPort P regs0 bdf := by
  intro hport
  obtain ⟨o, hf⟩ := hc.functions bdf hbdf
  have hread : readCfg P regs bdf type01Clsr (P.stack bdf) =
      readCfg P regs0 bdf type01Clsr (P.stack bdf) :=
    readCfg_congr (fun _ => h.ports bdf hbdf hport o hf _ mem_cons_self) _
  have hhead0 := (hc.ports bdf hbdf o hf.capability hport).header
  have heq : valPcieFunctionHeaderType (P.view regs) bdf =
      valPcieFunctionHeaderType (P.view regs0) bdf := by
    show (readCfg P regs bdf type01Clsr (P.stack bdf) >>> 16 &&& 0xff) >>> 0 &&& 0x7f = _
    rw [hread]
    rfl
  rw [hhead, hhead0] at heq
  cases heq

end

end

/-! ## The search for the reset capability -/

section

variable {regs regs' : CfgMem} {bdf fuel regValue offset : Nat}

theorem searchCapability_congr (h : Mapped P.info bdf → ∀ x < 4096,
      word P regs' bdf x = word P regs bdf x) (hoff : offset < 4096)
    (cid regValue cidOffset : Nat) :
    searchCapability P.info regs'.read bdf .pcieEcap cid fuel offset regValue cidOffset =
      searchCapability P.info regs.read bdf .pcieEcap cid fuel offset regValue cidOffset := by
  have hnext : ∀ r, CidType.pcieEcap.nextCapOffset r < 4096 :=
    fun r => and_le_right.trans_lt (by decide)
  induction fuel generalizing offset regValue with
  | zero => rfl
  | succ fuel ih =>
    have hread : (valPcieReadCfg P.info regs'.read bdf offset).getD regValue =
        (valPcieReadCfg P.info regs.read bdf offset).getD regValue :=
      readCfg_congr (fun hmap => h hmap offset hoff) regValue
    rw [searchCapability, searchCapability]
    simp only [hread]
    rw [ih (hnext _)]

theorem searchCapability_lt {cid cidOffset o : Nat} (hoff : offset < 4096)
    (h : searchCapability P.info regs.read bdf .pcieEcap cid fuel offset regValue cidOffset =
      some (pcieSuccess, o)) : o < 4096 := by
  induction fuel generalizing offset regValue with
  | zero => cases h
  | succ fuel ih =>
    rw [searchCapability] at h
    split at h
    · cases h
    · dsimp only at h
      split at h
      · cases h
        exact hoff
      · exact ih (and_le_right.trans_lt (by decide)) h

theorem searchUnder_spec {seg sec sub : Nat} {l : List Nat} {dev : Nat} (hl : ∀ q ∈ l, q < 2 ^ 32)
    (h : searchUnder P fuel regs seg sec sub l regValue = some dev) (hne : dev ≠ 0) :
    dev < 2 ^ 32 ∧ ∃ o, valPcieFindCapability fuel P.info regs.read dev .pcieEcap ecidAf
      (P.stack dev) (P.stack dev) = some (pcieSuccess, o) := by
  induction l generalizing regValue with
  | nil =>
    cases h
    exact absurd rfl hne
  | cons q rest ih =>
    have ih := fun {r} => @ih r fun q hq => hl q (mem_cons_of_mem _ hq)
    rw [searchUnder] at h
    dsimp only at h
    split at h
    · exact ih h
    · split at h
      · split at h
        · split at h
          · cases h
          · rename_i ret capBase hfind
            split_ifs at h with hyes
            · cases h
              exact ⟨hl _ mem_cons_self, capBase, hyes.1 ▸ hfind⟩
            · exact ih h
        · exact ih h
      · exact ih h

end

/-! ## The parts of the test -/

section

variable {fuel bdf o : Nat} {probe : Nat → Probe → Load} {s : St}

def Abrupt.state : Abrupt → St
  | .next s => s
  | .stop s => s
  | .raised s => s

def Safe (P : Platform) (regs0 : CfgMem) (a : Abrupt) : Prop := Guard P regs0 a.state.regs

theorem load_ends (hs : Guard P regs0 s.regs) (l : Load) (bdf offset : Nat) (width : PciWidth) :
    Ends (Safe P regs0) (fun v => Mapped P.info bdf → ∃ n, v = some (n % 2 ^ width.bits))
      (load P l bdf offset width s) := by
  unfold load
  split
  · rename_i hnone
    refine .pure fun hmap => ?_
    obtain ⟨v, hv⟩ := valPcieReadCfgWidth_of_mapped hmap s.regs.read offset width
    rw [hnone] at hv
    cases hv
  · split
    · exact .pure fun _ => ⟨_, rfl⟩
    · exact .throw hs

theorem fail_ends {α : Type} {Q : α → Prop} (n : Nat) (s : St) (hs : Guard P regs0 s.regs) :
    Ends (Safe P regs0) Q (fail n s : Exits Abrupt α) :=
  .throw hs

theorem getNfBdf_lt (table : List Nat) (segment bus : Nat) :
    getNfBdf table segment bus < 2 ^ 32 := by
  have hbdf : ∀ d f, pcieCreateBdf segment bus d f < 2 ^ 32 := fun d f => mod_lt _ (by decide)
  have hite : ∀ {c : Prop} [Decidable c] {a b : Nat}, a < 2 ^ 32 → b < 2 ^ 32 →
      (if c then a else b) < 2 ^ 32 := by
    intro c _ a b ha hb
    split
    · exact ha
    · exact hb
  exact hite (hbdf _ _) (hite (hbdf _ _) (by decide))

section

variable (hc : Conforming P regs0) (hs : Guard P regs0 s.regs)
include hc hs

theorem checkNf_ends :
    Ends (Safe P regs0) (fun s => Guard P regs0 s.regs) (checkNf P probe bdf s) := by
  refine .ite (fun _ => .pure hs) fun _ => ?_
  refine .bind (load_ends hs _ _ _ _) fun v _ => ?_
  refine .ite (fun _ => fail_ends 2 _ hs) fun _ => .pure ?_
  exact hs.enableBme hc (getNfBdf_lt _ _ _)

/-- Behind the unaligned read `reg_value` has all bits set. -/
theorem checkAccess_ends :
    Ends (Safe P regs0) (fun s => Guard P regs0 s.regs ∧ s.regValue = 0xFFFFFFFF)
      (checkAccess P probe bdf s) := by
  refine .ite (fun _ => fail_ends 1 _ hs) fun _ => ?_
  refine .bind (checkNf_ends hc hs) fun s hs => ?_
  refine .bind (load_ends hs _ _ _ _) fun v _ => ?_
  refine .ite (fun _ => fail_ends 3 _ hs) fun _ => ?_
  refine .bind (load_ends hs _ _ _ _) fun v _ => ?_
  exact .ite (fun _ => fail_ends 4 _ hs) fun heq => .pure ⟨hs, not_not.mp heq⟩

end

def Ones (s : St) : Prop := s.regValue / 2 ^ 16 = 0xFFFF

theorem setLow16_div {regValue v : Nat} (hv : v < 2 ^ 16) :
    setLow16 regValue v / 2 ^ 16 = regValue / 2 ^ 16 := by
  rw [setLow16]
  omega

theorem readCfg16_div (regs : CfgMem) (bdf offset regValue : Nat) :
    readCfg16 P regs bdf offset regValue / 2 ^ 16 = regValue / 2 ^ 16 := by
  rw [readCfg16]
  split
  · rfl
  · rename_i v hv
    by_cases hmap : Mapped P.info bdf
    · obtain ⟨n, hn⟩ := valPcieReadCfgWidth_of_mapped hmap regs.read offset .uint16
      rw [hv] at hn
      cases hn
      exact setLow16_div (mod_lt _ (by decide))
    · rw [(rejects_of_not_mapped offset hmap).read] at hv
      cases hv

structure Chosen (P : Platform) (regs0 : CfgMem) (fuel bdf o : Nat) (r : Nat × Nat × St) :
    Prop where
  guard : Guard P regs0 r.2.2.regs
  ones : Ones r.2.2
  capBase : r.2.1 = o
  lt : r.1 < 2 ^ 32
  notPort : r.1 ∈ P.table → ¬ IsRootPort P regs0 r.1
  reset : ∃ af, valPcieFindCapability fuel P.info r.2.2.regs.read r.1 .pcieEcap ecidAf
    (P.stack r.1) (P.stack r.1) = some (pcieSuccess, af)

section

variable (hc : Conforming P regs0)
include hc

theorem chooseDevice_ends (hf : FunctionHw P regs0 bdf o)
    (hs : Guard P regs0 s.regs) (hones : s.regValue = 0xFFFFFFFF) :
    Ends (Safe P regs0) (Chosen P regs0 fuel bdf o) (chooseDevice P fuel bdf s) := by
  refine .bind
    (.lift (fun dev hdev hne => searchUnder_spec (fun q hq => lt_of_mem_busFunctions hq) hdev hne))
    (fun dev hdev => ?_)
  refine .ite (fun _ => .throw hs) fun hne => ?_
  obtain ⟨hlt, hreset⟩ := hdev hne
  refine .bind
    (.lift (fun capBase hfind => (hf.of_fixed hs.fixed).find hfind)) fun capBase hcap => ?_
  refine .ite (fun _ => .throw hs) fun _ => ?_
  refine .ite (fun _ => fail_ends 5 _ hs) fun hhead => .pure ?_
  refine ⟨hs, ?_, hcap, hlt, fun hmem => hs.not_port hc hmem (not_not.mp hhead), hreset⟩
  show readCfg16 P s.regs bdf _ s.regValue / 2 ^ 16 = 0xFFFF
  rw [readCfg16_div, hones]
  decide

theorem disableCsr_spec (hbdf : bdf ∈ P.table)
    (hf : FunctionHw P regs0 bdf o) (hs : Guard P regs0 s.regs) (hones : Ones s) :
    Guard P regs0 (disableCsr P bdf o s).regs ∧ Ones (disableCsr P bdf o s) ∧
      Frame P bdf [(o + rtctrlOffset) % 2 ^ 32] s.regs (disableCsr P bdf o s).regs := by
  have hread : readCfg16 P s.regs bdf ((o + rtctrlOffset) % 2 ^ 32) s.regValue / 2 ^ 16 = 0xFFFF :=
    (readCfg16_div _ _ _ _).trans hones
  rw [disableCsr]
  split
  · refine ⟨hs.rootControl hc hbdf hf _, ?_, frame_writeCfgWidth hf.mapped _ _ _⟩
    show (_ &&& _) / 2 ^ 16 = 0xFFFF
    rw [and_div_two_pow, hread]
    decide
  · exact ⟨hs, hread, .refl _ _ _ _⟩

theorem setFlr_guard {dev af : Nat} (hs : Guard P regs0 s.regs)
    (hlt : dev < 2 ^ 32) (hnot : dev ∈ P.table → ¬ IsRootPort P regs0 dev) (haf : af < 4096) :
    Guard P regs0 (setFlr P dev af s).regs := by
  rw [setFlr]
  by_cases hmap : Mapped P.info dev
  · exact hs.of_frame hc (frame_writeCfgWidth hmap _ _ _) hlt hmap (by rw [afCtrl]; omega)
      (fun hmem hport => absurd hport (hnot hmem))
  · rw [writeCfgWidth, (rejects_of_not_mapped _ hmap).writeWidth]
    exact hs

end

theorem expect16_ends (hmap : Mapped P.info bdf) (hs : Guard P regs0 s.regs) (hones : Ones s)
    (l : Load) (offset n : Nat) :
    Ends (Safe P regs0) (fun _ => False) (expect16 P l bdf offset 0xFFFF n s) := by
  refine .bind (load_ends hs _ _ _ _) fun v hv => ?_
  obtain ⟨m, rfl⟩ := hv hmap
  refine .ite (fun _ => fail_ends n _ hs) fun heq => absurd ?_ heq
  intro hval
  have hdiv : setLow16 s.regValue (m % 2 ^ 16) / 2 ^ 16 = 0xFFFF :=
    (setLow16_div (mod_lt _ (by decide))).trans hones
  have hval' : setLow16 s.regValue (m % 2 ^ 16) = 0xFFFF := hval
  rw [hval'] at hdiv
  exact absurd hdiv (by decide)

section

variable (hc : Conforming P regs0) (hbdf : bdf ∈ P.table)
include hc hbdf

theorem resetDevice_ends (hport : IsRootPort P regs0 bdf) (hf : FunctionHw P regs0 bdf o)
    {dev : Nat} (h : Chosen P regs0 fuel bdf o (dev, o, s)) :
    Ends (Safe P regs0) (fun _ => False) (resetDevice P fuel probe bdf dev o s) := by
  have hlt := hf.lt
  obtain ⟨hguard, hones, hframe⟩ := disableCsr_spec hc hbdf hf h.guard h.ones
  have hne : dev ≠ bdf := fun heq => h.notPort (heq ▸ hbdf) (heq ▸ hport)
  rw [resetDevice]
  generalize disableCsr P bdf o s = s1 at hguard hones hframe ⊢
  -- the write to the port does not change what the device answers
  have hsame : Mapped P.info dev → ∀ x < 4096, word P s1.regs dev x = word P s.regs dev x := by
    intro hmap x hx
    refine hframe.word_apart hc.windows (hc.lt bdf hbdf) hf.mapped (fun y hy => ?_) h.lt hmap hne hx
    rw [mem_singleton.mp hy, rtctrlOffset]
    omega
  refine .bind (Q := fun r => r.2 < 4096) (.lift (fun r hr => ?_)) fun r hr => ?_
  · obtain ⟨af, haf⟩ := h.reset
    have heq : valPcieFindCapability fuel P.info s1.regs.read dev .pcieEcap ecidAf (P.stack dev)
        (P.stack dev) = some (pcieSuccess, af) :=
      (searchCapability_congr hsame (by decide) _ _ _).trans haf
    rw [hr] at heq
    cases heq
    exact searchCapability_lt (by decide) hr
  · have hflr := setFlr_guard hc hguard h.lt h.notPort hr
    exact .bind (expect16_ends hf.mapped hflr hones _ _ _) fun _ hfalse => hfalse.elim

theorem testPort_ends (hport : IsRootPort P regs0 bdf) (hs : Guard P regs0 s.regs) :
    Ends (Safe P regs0) (fun _ => False) (testPort P fuel probe bdf s) := by
  obtain ⟨o, hf⟩ := hc.functions bdf hbdf
  refine .bind (checkAccess_ends hc hs) fun s hs => ?_
  refine .bind (chooseDevice_ends hc hf hs.1 hs.2) fun r hr => ?_
  obtain ⟨dev, capBase, s⟩ := r
  obtain rfl : capBase = o := hr.capBase
  exact .bind (resetDevice_ends hc hbdf hport hf hr) fun _ hfalse => hfalse.elim

variable {e : Exit St}

theorem finishPort_guard (hs : Guard P regs0 s.regs) (h : finishPort P fuel bdf s = some e) :
    Guard P regs0 e.state.regs := by
  rw [finishPort, Option.map_eq_some_iff] at h
  obtain ⟨e', hfin, rfl⟩ := h
  rw [finish] at hfin
  split at hfin
  · split at hfin
    · cases hfin
    · rename_i regs' hclear
      cases hfin
      exact hs.clearUrd hc hbdf hclear
  · cases hfin
    exact hs

theorem body_guard (hs : Guard P regs0 s.regs) (h : body P fuel probe bdf s = some e) :
    Guard P regs0 e.state.regs := by
  obtain ⟨o, hf⟩ := hc.functions bdf hbdf
  rw [body] at h
  split at h
  · cases h
  · rename_i dpType htype
    split_ifs at h with hrp
    · have hport := (portType_eq_rp_iff hf hs.fixed htype).mp hrp
      have hends := @testPort_ends P regs0 fuel bdf probe s hc hbdf hport hs
      split at h
      · cases h
      · rename_i s' heq
        exact (hends _ heq).elim
      · rename_i s' heq
        cases h
        exact hends _ heq
      · rename_i s' heq
        cases h
        exact hends _ heq
      · rename_i s' heq
        have hsafe : Guard P regs0 s'.regs := hends _ heq
        exact finishPort_guard hc hbdf (s := { s' with status := resultFail testNum 1 }) hsafe h
    · exact finishPort_guard hc hbdf hs h

end

theorem overTable_guard (hc : Conforming P regs0) {l : List Nat} (hl : ∀ q ∈ l, q ∈ P.table)
    (hs : Guard P regs0 s.regs) {e : Exit St}
    (h : overTable (body P fuel probe) l s = some e) : Guard P regs0 e.state.regs := by
  induction l generalizing s with
  | nil =>
    cases h
    exact hs
  | cons bdf rest ih =>
    rw [overTable] at h
    cases hbody : body P fuel probe bdf s with
    | none =>
      rw [hbody] at h
      cases h
    | some e1 =>
      rw [hbody] at h
      have hg := body_guard hc (hl bdf mem_cons_self) hs hbody
      cases e1 with
      | stop s1 =>
        cases h
        exact hg
      | next s1 => exact ih (fun q hq => hl q (mem_cons_of_mem _ hq)) hg h

theorem payload_kept (hc : Conforming P regs0) {esrStatus uninit status : Nat} {regs' : CfgMem}
    (h : payload P fuel probe esrStatus uninit regs0 = some (regs', status)) :
    PortsKept P regs0 regs' := by
  rw [payload] at h
  split at h
  · cases h
    exact portsKept_refl hc
  · rw [Option.map_eq_some_iff] at h
    obtain ⟨e, hrun, hverdict⟩ := h
    have hregs : regs' = e.state.regs := by
      cases e <;> exact (congrArg Prod.fst hverdict).symm
    rw [hregs]
    exact (overTable_guard hc (fun _ hq => hq) (.refl P regs0) hrun).kept hc

end

end P005

end ServerSoc.Tests.RootPorts
