/-
A map call: what it does to the stream it is for, and that it keeps the others.

A stage 1 map has a table of the master, a leaf table where it has two levels, and the context
descriptor itself.
-/
import ServerSoc.Smmu.Steps

namespace ServerSoc.Smmu

open Base Function Nat Option

/-! ## The table -/

variable {smmu : SmmuDev} {d : State} {k p : Nat} {h : Heap Owner}

section

variable {ptr s1cdmax : Nat}

theorem cdtabSize_pow (smmu : SmmuDev) (s1cdmax : Nat) : smmu.cdtabSize s1cdmax =
    2 ^ if smmu.cdTwoLevel s1cdmax then s1cdmax - 10 + 3 else s1cdmax + 6 := by
  cases h2 : smmu.cdTwoLevel s1cdmax with
  | false =>
    rw [SmmuDev.cdtabSize, h2, if_neg (by decide), one_shiftLeft, if_neg (by decide), Nat.pow_add]
    rfl
  | true => rw [cdtabWords_twoLevel h2, if_pos rfl, Nat.pow_add]

theorem cdtabSize_eq (smmu : SmmuDev) (h : s1cdmax ≤ 20) :
    ∃ n ≤ 26, smmu.cdtabSize s1cdmax = 2 ^ n :=
  ⟨_, by split <;> omega, cdtabSize_pow smmu s1cdmax⟩

theorem cdtabSize_mod (smmu : SmmuDev) (h : s1cdmax ≤ 20) :
    2 * smmu.cdtabSize s1cdmax % 2 ^ 32 = 2 * smmu.cdtabSize s1cdmax := by
  obtain ⟨n, hn, hsize⟩ := cdtabSize_eq smmu h
  have hpow : 2 ^ n ≤ 2 ^ 26 := Nat.pow_le_pow_right (by decide) hn
  exact mod_eq_of_lt (by omega)

def withCdtab (smmu : SmmuDev) (m : Master) (p : Nat) : Master :=
  { m with
    s1cdmax := m.ssidBits
    s1fmt := if smmu.cdTwoLevel m.ssidBits then strtabSte0S1Fmt64kL2 else strtabSte0S1FmtLinear
    l1Desc := if smmu.cdTwoLevel m.ssidBits then fun _ => none else m.l1Desc
    cdtab64 := some p }

/-- Where the table of a master without one may be.  The entry has no room for an address
that is not a multiple of 64. -/
structure CdtabFresh (smmu : SmmuDev) (h : Heap Owner) (ssidBits ptr : Nat) : Prop where
  fresh : Fresh h ptr (2 * smmu.cdtabSize ssidBits)
  aligned : alignToSize ptr (smmu.cdtabSize ssidBits) % 2 ^ 6 = 0

theorem CdtabFresh.frame (hbits : s1cdmax ≤ 20)
    (hf : CdtabFresh smmu h s1cdmax ptr) (W : Nat → Prop) :
    h.Frame W (calloc h 2 (smmu.cdtabSize s1cdmax) ptr (.cdtab k)) :=
  Heap.frame_zero_claim ((cdtabSize_mod smmu hbits).symm ▸ hf.fresh.free) _

theorem prepareStage1_of_table (ht : CdTable smmu h k (d.master k) p)
    (hp : (d.master k).cdtab64 = some p) : prepareStage1 smmu d k ptr = d := by
  have hmax : (d.master k).ssidBits % 2 ^ 8 = (d.master k).s1cdmax := by
    have hfits := ht.fits
    rw [ht.max]
    exact mod_eq_of_lt (by omega)
  rw [prepareStage1, if_neg (by simp [hp]), hmax, State.setMaster, update_eq_self]

theorem prepareStage1_of_some (hc : Core smmu d) (hk : k < d.count)
    (hp : (d.master k).cdtab64 = some p) : prepareStage1 smmu d k ptr = d :=
  prepareStage1_of_table ((hc.masters k hk).table p hp) hp

theorem prepareStage1_of_none (hbits : (d.master k).ssidBits ≤ 20)
    (hp : (d.master k).cdtab64 = none) :
    prepareStage1 smmu d k ptr =
      { d with
        heap := calloc d.heap 2 (smmu.cdtabSize (d.master k).ssidBits) ptr (.cdtab k)
        master := update d.master k (withCdtab smmu (d.master k)
          (alignToSize ptr (smmu.cdtabSize (d.master k).ssidBits))) } := by
  have hmod : (d.master k).ssidBits % 2 ^ 8 = (d.master k).ssidBits := mod_eq_of_lt (by omega)
  rw [prepareStage1, if_pos (by simp [hp]), hmod]
  simp only [smmuCdtabAlloc, State.setMaster, update_self, update_idem]
  rfl

theorem cdTable_withCdtab {m : Master} (hbits : m.ssidBits ≤ 20)
    (hfresh : CdtabFresh smmu h m.ssidBits ptr) :
    CdTable smmu (calloc h 2 (smmu.cdtabSize m.ssidBits) ptr (.cdtab k)) k
      (withCdtab smmu m (alignToSize ptr (smmu.cdtabSize m.ssidBits)))
      (alignToSize ptr (smmu.cdtabSize m.ssidBits)) := by
  have hroom := hfresh.fresh.room
  have hal := hfresh.aligned
  have hmod := cdtabSize_mod smmu hbits
  obtain ⟨n, hn, hsize⟩ := cdtabSize_eq smmu hbits
  rw [hsize] at hroom hal hmod ⊢
  obtain ⟨hlo, hhi, -⟩ := alignToSize_bounds (by omega) hroom
  refine ⟨hal, ?_, rfl, hbits, rfl, fun i hi => ?_, fun h2 i _ q hq => ?_⟩
  · show _ + smmu.cdtabSize m.ssidBits ≤ _
    omega
  · have hi' : i < smmu.cdtabSize m.ssidBits / 8 := hi
    exact Heap.own_claim_inside (by omega) (by omega)
  · have h2' : smmu.cdTwoLevel m.ssidBits = true := h2
    rw [withCdtab, h2'] at hq
    cases hq

structure HasCdtab (smmu : SmmuDev) (d d' : State) (k : Nat) : Prop where
  keeps : Keeps smmu (fun _ => True) d d'
  table : ∃ p, (d'.master k).cdtab64 = some p
  level1 : d'.level1 = d.level1
  count : d'.count = d.count
  used : (d'.master k).smmu = (d.master k).smmu
  sid : (d'.master k).sid = (d.master k).sid
  ssid : (d'.master k).ssid = (d.master k).ssid
  ssidBits : (d'.master k).ssidBits = (d.master k).ssidBits

theorem hasCdtab_prepareStage1 (hs : smmu.Ok) (hc : Core smmu d) (hk : k < d.count)
    (hu : (d.master k).smmu = true) (hbits : (d.master k).ssidBits ≤ 20)
    (hfresh : (d.master k).cdtab64 = none → CdtabFresh smmu d.heap (d.master k).ssidBits ptr) :
    HasCdtab smmu d (prepareStage1 smmu d k ptr) k := by
  cases hp : (d.master k).cdtab64 with
  | some p =>
    rw [prepareStage1_of_some hc hk hp]
    exact ⟨.refl hc, ⟨p, hp⟩, rfl, rfl, rfl, rfl, rfl, rfl⟩
  | none =>
    rw [prepareStage1_of_none hbits hp]
    have hm : MasterOk smmu
        (calloc d.heap 2 (smmu.cdtabSize (d.master k).ssidBits) ptr (.cdtab k)) k
        (withCdtab smmu (d.master k) (alignToSize ptr (smmu.cdtabSize (d.master k).ssidBits))) := by
      refine ⟨fun h => ?_, fun p hp' => ?_⟩
      · cases hu.symm.trans h
      · cases hp'
        exact cdTable_withCdtab hbits (hfresh hp)
    refine ⟨keeps_master hs hc ((hfresh hp).frame hbits (fun _ => False)) (fun _ h => h.elim)
      hm (fun _ => ⟨⟨fun _ => ⟨hu, rfl⟩, fun hne => absurd hp hne⟩, fun _ h => h⟩),
      ⟨alignToSize ptr (smmu.cdtabSize (d.master k).ssidBits), ?_⟩, rfl, rfl, ?_, ?_, ?_, ?_⟩
    all_goals
      simp only [update_self]
      rfl

end

/-! ## The descriptor -/

section

variable {leafPtr ssid c : Nat} {m : Master}

structure HasCtxDesc (smmu : SmmuDev) (d d' : State) (k c : Nat) : Prop where
  keeps : Keeps smmu (fun t => t ≠ (d.master k).sid) d d'
  level1 : d'.level1 = d.level1
  count : d'.count = d.count
  master : ∃ l1Desc, d'.master k = { d.master k with l1Desc := l1Desc }
  desc : cdAddr (d'.master k) (d.master k).ssid = some c

def NeedsLeaf (m : Master) : Prop :=
  m.s1fmt ≠ strtabSte0S1FmtLinear ∧ m.l1Desc (m.ssid / 1024) = none

theorem CdTable.ssid_lt (ht : CdTable smmu h k m p) (hssid : ssid < 2 ^ m.s1cdmax) :
    ssid < 2 ^ 20 := by
  rw [ht.max] at hssid
  exact hssid.trans_le (Nat.pow_le_pow_right (by decide) ht.fits)

theorem CdTable.twoLevel_of_needsLeaf (ht : CdTable smmu h k m p) (hneed : NeedsLeaf m) :
    smmu.cdTwoLevel m.s1cdmax = true := by
  by_contra hne
  exact hneed.1 (ht.fmt.trans (if_neg hne))

theorem shiftRight_cdtabSplit (ssid : Nat) : ssid >>> cdtabSplit = ssid / 1024 :=
  shiftRight_eq_div_pow ssid 10

theorem leafOffset_eq (ssid : Nat) :
    (ssid &&& cdtabL2EntryCount - 1) * cdtabCdDwords * 8 = ssid % 1024 * 64 := by
  rw [show cdtabL2EntryCount - 1 = 2 ^ 10 - 1 from rfl, and_low, mul_assoc]
  rfl

/-- The memory with a new leaf table behind descriptor `i` of the table at `p`. -/
def withLeaf (h : Heap Owner) (k i p leafPtr : Nat) : Heap Owner :=
  (h.claim leafPtr (2 ^ 17) (.leaf k i)).set (p + i * 8) (leafWord (alignToSize leafPtr (2 ^ 16)))

theorem frame_withLeaf (hfresh : Fresh h leafPtr (2 ^ 17)) (k i p : Nat) :
    h.Frame (fun a => a = p + i * 8) (withLeaf h k i p leafPtr) := by
  have hclaim := Heap.frame_claim (W := fun a => a = p + i * 8) hfresh.free (Owner.leaf k i)
  exact hclaim.set rfl _

theorem leafTable_withLeaf (hfresh : Fresh h leafPtr (2 ^ 17)) (k i p : Nat) :
    LeafTable (withLeaf h k i p leafPtr) k i p (alignToSize leafPtr (2 ^ 16)) := by
  have hroom := hfresh.room
  obtain ⟨hlo, hhi, hal⟩ := alignToSize_bounds (n := 16) (by decide)
    hroom
  refine ⟨hal, by omega, Heap.mem_set_self _ _ _, fun j hj => ?_⟩
  exact Heap.own_claim_inside (by omega) (by omega)

theorem cdTable_withLeaf (ht : CdTable smmu h k m p) (h2 : smmu.cdTwoLevel m.s1cdmax = true)
    (hfresh : Fresh h leafPtr (2 ^ 17)) (i : Nat) :
    CdTable smmu (withLeaf h k i p leafPtr) k
      { m with l1Desc := update m.l1Desc i (some (alignToSize leafPtr (2 ^ 16))) } p := by
  have hf := frame_withLeaf hfresh k i p
  refine ⟨ht.aligned, ht.room, ht.max, ht.fits, ht.fmt, ht.owns.frame hf, fun _ j hj q hq => ?_⟩
  by_cases hji : j = i
  · simp only [hji, update_self, some_inj] at hq
    rw [hji, ← hq]
    exact leafTable_withLeaf hfresh k i p
  · simp only [update_of_ne hji] at hq
    have hleaf := ht.leaf h2 j hj q hq
    have hdesc := hf.mem (p + j * 8) (by simp [ht.own_desc h2 hj]) (by omega)
    exact ⟨hleaf.aligned, hleaf.room, hdesc.trans hleaf.desc, hleaf.owns.frame hf⟩

theorem smmuCdtabGetCtxDesc_of_needsLeaf (hp : (d.master k).cdtab64 = some p)
    (hneed : NeedsLeaf (d.master k)) :
    smmuCdtabGetCtxDesc d k leafPtr =
      (alignToSize leafPtr (2 ^ 16) + (d.master k).ssid % 1024 * 64,
        { d with
          heap := withLeaf d.heap k ((d.master k).ssid / 1024) p leafPtr
          master := update d.master k { d.master k with
            l1Desc := update (d.master k).l1Desc ((d.master k).ssid / 1024)
              (some (alignToSize leafPtr (2 ^ 16))) } }) := by
  rw [smmuCdtabGetCtxDesc, if_neg hneed.1]
  simp only [shiftRight_cdtabSplit, leafOffset_eq, hneed.2, hp,
    show cdtabL1DescDwords = 1 from rfl, mul_one]
  rfl

theorem smmuCdtabGetCtxDesc_of_not_needsLeaf (leafPtr : Nat) (hp : (d.master k).cdtab64 = some p)
    (hssid : (d.master k).ssid < 2 ^ 20) (hneed : ¬ NeedsLeaf (d.master k)) :
    ∃ c, smmuCdtabGetCtxDesc d k leafPtr = (c, d) ∧
      cdAddr (d.master k) (d.master k).ssid = some c := by
  rw [smmuCdtabGetCtxDesc, cdAddr, hp]
  by_cases hfmt : (d.master k).s1fmt = strtabSte0S1FmtLinear
  · have hmod : (d.master k).ssid * cdtabCdDwords % 2 ^ 32 = (d.master k).ssid * 8 :=
      mod_eq_of_lt (by rw [cdtabCdDwords]; omega)
    refine ⟨p + (d.master k).ssid * 64, ?_, if_pos hfmt⟩
    rw [if_pos hfmt, hmod, mul_assoc]
    rfl
  · cases hq : (d.master k).l1Desc ((d.master k).ssid / 1024) with
    | none => exact absurd ⟨hfmt, hq⟩ hneed
    | some q =>
      refine ⟨q + (d.master k).ssid % 1024 * 64, ?_, ?_⟩
      · rw [if_neg hfmt]
        simp [shiftRight_cdtabSplit, hq, leafOffset_eq]
      · simp [if_neg hfmt]

theorem hasCtxDesc_getCtxDesc (hs : smmu.Ok) (hc : Core smmu d) (hk : k < d.count)
    (hu : (d.master k).smmu = true) (hp : (d.master k).cdtab64 = some p)
    (hssid : (d.master k).ssid < 2 ^ (d.master k).s1cdmax)
    (hfresh : NeedsLeaf (d.master k) → Fresh d.heap leafPtr (2 ^ 17)) :
    HasCtxDesc smmu d (smmuCdtabGetCtxDesc d k leafPtr).2 k
      (smmuCdtabGetCtxDesc d k leafPtr).1 := by
  have ht := (hc.masters k hk).table p hp
  by_cases hneed : NeedsLeaf (d.master k)
  · have h2 := ht.twoLevel_of_needsLeaf hneed
    have hi := leafIndex_lt h2 hssid
    have hf := frame_withLeaf (hfresh hneed) k ((d.master k).ssid / 1024) p
    have ht' := cdTable_withLeaf ht h2 (hfresh hneed) ((d.master k).ssid / 1024)
    rw [smmuCdtabGetCtxDesc_of_needsLeaf hp hneed]
    refine ⟨keeps_master hs hc hf (fun a ha => .inl (ha ▸ ht.own_desc h2 hi)) ⟨fun h => ?_,
      fun q hq => ?_⟩ (fun hne => absurd rfl hne), rfl, rfl, ⟨_, update_self _ _ _⟩, ?_⟩
    · cases hu.symm.trans h
    · cases hp.symm.trans hq
      exact ht'
    · simp [cdAddr, hp, if_neg hneed.1]
  · obtain ⟨c, hget, hcd⟩ :=
      smmuCdtabGetCtxDesc_of_not_needsLeaf leafPtr hp (ht.ssid_lt hssid) hneed
    rw [hget]
    exact ⟨.refl hc, rfl, rfl, ⟨_, rfl⟩, hcd⟩

def withCtxDesc (h : Heap Owner) (c : Nat) (pgt : PgtDescriptor) : Heap Owner :=
  (((h.set (c + 8) (pgt.pgtBase % 2 ^ 48)).set (c + 16) 0).set (c + 24) pgt.mair).set c
    (cdWord0 pgt.tcr)

theorem writes_withCtxDesc (h : Heap Owner) (c : Nat) (pgt : PgtDescriptor) :
    h.Writes (fun a => ∃ i < 4, a = c + 8 * i) (withCtxDesc h c pgt) :=
  ((((Heap.Writes.refl _ h).set ⟨1, by decide, rfl⟩ _).set ⟨2, by decide, rfl⟩ _).set
    ⟨3, by decide, rfl⟩ _).set ⟨0, by decide, rfl⟩ _

theorem withCtxDesc_words (h : Heap Owner) (c : Nat) (pgt : PgtDescriptor) :
    (withCtxDesc h c pgt).mem c = cdWord0 pgt.tcr ∧
      (withCtxDesc h c pgt).mem (c + 8) = pgt.pgtBase % 2 ^ 48 ∧
      (withCtxDesc h c pgt).mem (c + 24) = pgt.mair := by
  rw [withCtxDesc]
  refine ⟨Heap.mem_set_self _ _ _, ?_, ?_⟩
  · rw [Heap.mem_set_of_ne (by omega), Heap.mem_set_of_ne (by omega),
      Heap.mem_set_of_ne (by omega), Heap.mem_set_self]
  · rw [Heap.mem_set_of_ne (by omega), Heap.mem_set_self]

theorem keeps_withCtxDesc (hs : smmu.Ok) (hc : Core smmu d) (hk : k < d.count)
    (hp : (d.master k).cdtab64 = some p) (hssid : (d.master k).ssid < 2 ^ (d.master k).s1cdmax)
    (hcd : cdAddr (d.master k) (d.master k).ssid = some c) (pgt : PgtDescriptor) :
    Keeps smmu (fun t => t ≠ (d.master k).sid) d { d with heap := withCtxDesc d.heap c pgt } := by
  have ht := (hc.masters k hk).table p hp
  have hf := (writes_withCtxDesc d.heap c pgt).frame
  have hm : MasterOk smmu (withCtxDesc d.heap c pgt) k (d.master k) := by
    refine ⟨(hc.masters k hk).idle, fun q hq => ?_⟩
    cases hp.symm.trans hq
    refine ht.frame hf ?_
    -- the descriptors of the table are in another object than those of the leaf table
    rintro h2 a ha ⟨i, hi, rfl⟩
    rw [own_cd ht hp hssid hcd (by omega), h2] at ha
    cases ha
  have hkeeps := keeps_master hs hc hf
    (by
      rintro a ⟨i, hi, rfl⟩
      exact cdOwned_cd ht hp hssid hcd (by omega))
    hm (P := fun t => t ≠ (d.master k).sid) fun hne => absurd rfl hne
  rwa [update_eq_self] at hkeeps

theorem smmuCdtabWriteCtxDesc_eq (hssid : ssid < 2 ^ 31) (pgt : PgtDescriptor) :
    smmuCdtabWriteCtxDesc d k ssid leafPtr ⟨0, pgt.pgtBase, stage1Tcr pgt.tcr, pgt.mair⟩ =
      if ssid < 2 ^ (d.master k).s1cdmax then
        some { (smmuCdtabGetCtxDesc d k leafPtr).2 with
          heap := withCtxDesc (smmuCdtabGetCtxDesc d k leafPtr).2.heap
            (smmuCdtabGetCtxDesc d k leafPtr).1 pgt }
      else none := by
  rw [smmuCdtabWriteCtxDesc, toInt32]
  by_cases hlt : ssid < 2 ^ (d.master k).s1cdmax
  · rw [if_pos hlt, if_neg (by omega), cdtabCd1Ttb0Mask, and_low]
    rfl
  · rw [if_neg hlt, if_pos (by omega)]

end

/-! ## Writing the entry -/

def State.writeEntry (d : State) (a : Nat) (cfg : Option StageConfig) : State :=
  { d with heap := smmuStrtabWriteSte cfg a d.heap }

variable {smmu : SmmuDev} {d : State} {sid k : Nat} {pgt : PgtDescriptor}

section

variable {a : Nat}

section

variable (hs : smmu.Ok) (hsid : sid < 2 ^ smmu.sidBits)
include hs hsid

theorem linear_entry (h2 : smmu.stLevel2lvl = false) :
    smmu.strtab64 + sid * strtabSteDwords % 2 ^ 32 * 8 = smmu.strtab64 + sid * 64 := by
  have hpow : 2 ^ smmu.sidBits ≤ 2 ^ 24 := Nat.pow_le_pow_right (by decide) (hs.linear h2)
  rw [show strtabSteDwords = 8 from rfl]
  omega

theorem smmuStrtabGetSteForSid_eq
    (ha : steOf smmu d.level1 sid = some a) : smmuStrtabGetSteForSid smmu d sid = a := by
  rw [steOf] at ha
  cases h2 : smmu.stLevel2lvl with
  | false =>
    rw [h2, if_neg (by decide), Option.some_inj] at ha
    rw [smmuStrtabGetSteForSid, h2, if_neg (by decide), linear_entry hs hsid h2, ha]
  | true =>
    rw [h2] at ha
    obtain ⟨p, hp, hpa⟩ := Option.map_eq_some_iff.mp ha
    rw [smmuStrtabGetSteForSid, h2, show strtabL1DescDwords = 1 from rfl, mul_one,
      shiftRight_split, hp, show 1 <<< strtabSplit - 1 = 2 ^ 8 - 1 from rfl, and_low, mul_assoc]
    exact hpa

theorem writeStream_eq (ha : steOf smmu d.level1 sid = some a) (cfg : StageConfig) :
    d.writeStream smmu sid cfg = d.writeEntry a (some cfg) := by
  rw [State.writeStream, smmuStrtabGetSteForSid_eq hs hsid ha]
  rfl

end

theorem keeps_writeSte (hs : smmu.Ok) (hc : Core smmu d) (hsid : sid < 2 ^ smmu.sidBits)
    (ha : steOf smmu d.level1 sid = some a) (cfg : Option StageConfig) :
    Keeps smmu (fun t => t ≠ sid) d (d.writeEntry a cfg) := by
  have hf := (writes_writeSte cfg a d.heap).frame
  have hcd : ∀ j b, CdOwned d.heap j b → ¬ ∃ i < 4, b = a + 8 * i := by
    rintro j b hb ⟨i, hi, rfl⟩
    exact not_cdOwned_entry hs hc hsid ha (by omega) j hb
  have hc' : Core smmu (d.writeEntry a cfg) := by
    refine hc.of_frame hf rfl ?_ fun j hj => (hc.masters j hj).frame hf (hcd j)
    rintro h2 g hg ⟨i, hi, hne⟩
    have hown := own_level1 hc.strtab h2 hg
    rw [hne, own_entry hs hc hsid ha (by omega), h2] at hown
    cases hown
  refine .of_frame hs hc hc' hf rfl le_rfl (fun _ _ _ => .refl _) ?_
    (fun j _ _ b hb => hcd j b hb)
  rintro t ht hne b hb i hi ⟨j, hj, heq⟩
  exact entry_ne hs hc ht hsid hne hb ha hi (by omega) heq

theorem streamOk_abort (ha : steOf smmu d.level1 sid = some a) :
    StreamOk smmu (d.writeEntry a none) sid none := by
  intro b hb
  cases ha.symm.trans hb
  exact ⟨(writeSte_abort a d.heap).word0, (writeSte_abort a d.heap).word1⟩

theorem streamOk_stage2 (ha : steOf smmu d.level1 sid = some a) (hk : k < d.count)
    (hu : (d.master k).smmu = true) (hm : (d.master k).sid = sid) (hbase : pgt.pgtBase < 2 ^ 48)
    (hold : d.heap.mem (a + 8) = abortWord1 ∨ d.heap.mem (a + 8) = stage2Word1) :
    StreamOk smmu (d.writeEntry a (some (.stage2 0 pgt.pgtBase (stage2Vtcr pgt.tcr)))) sid
      (some (.stage2 pgt)) := by
  obtain ⟨h0, h1, h2, h3⟩ := writeSte_stage2 a pgt.pgtBase pgt.tcr d.heap
  refine ⟨a, k, ha, hk, hu, hm, h0, h1.trans ?_, h2, h3.trans (Nat.mod_eq_of_lt hbase)⟩
  rcases hold with hold | hold
  · rw [hold]
    rfl
  · rw [hold]
    decide

theorem streamOk_stage1 (hs : smmu.Ok) (hc : Core smmu d) (hsid : sid < 2 ^ smmu.sidBits)
    (ha : steOf smmu d.level1 sid = some a) (hk : k < d.count) (hu : (d.master k).smmu = true)
    (hm : (d.master k).sid = sid) {p c ssid : Nat} (hp : (d.master k).cdtab64 = some p)
    (hssid : ssid < 2 ^ (d.master k).s1cdmax) (hcd : cdAddr (d.master k) ssid = some c)
    (h0 : d.heap.mem c = cdWord0 pgt.tcr) (h1 : d.heap.mem (c + 8) = pgt.pgtBase)
    (h3 : d.heap.mem (c + 24) = pgt.mair) :
    StreamOk smmu (d.writeEntry a (some (.stage1 p (d.master k).s1cdmax (d.master k).s1fmt))) sid
      (some (.stage1 (d.master k).s1cdmax ssid pgt)) := by
  have ht := (hc.masters k hk).table p hp
  have hstay : ∀ i < 8, (smmuStrtabWriteSte (some (.stage1 p (d.master k).s1cdmax
      (d.master k).s1fmt)) a d.heap).mem (c + 8 * i) = d.heap.mem (c + 8 * i) := by
    intro i hi
    refine writeSte_outside fun j hj heq => ?_
    exact not_cdOwned_entry hs hc hsid ha (by omega) k (heq ▸ cdOwned_cd ht hp hssid hcd hi)
  obtain ⟨hw0, hw1, -⟩ := writeSte_stage1 a p (d.master k).s1cdmax (d.master k).s1fmt d.heap
  exact ⟨a, k, p, c, ha, hk, hu, hm, hp, rfl, hw0, hw1, hssid, hcd,
    (hstay 0 (by decide)).trans h0, (hstay 1 (by decide)).trans h1, (hstay 3 (by decide)).trans h3⟩

end

/-! ## The call -/

section

variable {d' : State} {attr : MasterAttributes} {al : Allocations}

def config (attr : MasterAttributes) (pgt : PgtDescriptor) : Config :=
  if attr.stage2 then .stage2 pgt else .stage1 attr.ssidBits attr.substreamid pgt

/-- Every allocation of the call returns memory that is free when it is made.  `d` is the
state when master `k` has its stage. -/
structure AllocOk (smmu : SmmuDev) (d : State) (k : Nat) (al : Allocations) : Prop where
  level2 : smmu.stLevel2lvl = true → d.level1 ((d.master k).sid / 256) = none →
    Fresh d.heap al.level2 (2 ^ 15)
  cdtab : (d.master k).stage = .s1 → (d.master k).cdtab64 = none →
    Fresh (prepareLevel2 smmu d (d.master k).sid al.level2).heap al.cdtab
      (2 * smmu.cdtabSize (d.master k).ssidBits)
  leaf : (d.master k).stage = .s1 →
    let d' := prepareStage1 smmu (prepareLevel2 smmu d (d.master k).sid al.level2) k al.cdtab
    (d'.master k).ssid < 2 ^ (d'.master k).s1cdmax → NeedsLeaf (d'.master k) →
      Fresh d'.heap al.leaf (2 ^ 17)

theorem setStage_keeps (hs : smmu.Ok) (hc : Core smmu d) (hk : k < d.count)
    (hu : (d.master k).smmu = true) (attr : MasterAttributes) :
    Keeps smmu (fun _ => True) d (setStage d k attr) := by
  have hm := hc.masters k hk
  refine setMaster_keeps hs hc ⟨fun h => ?_, fun p hp => ?_⟩
    ⟨fun h => ⟨h, rfl⟩, fun _ => ⟨rfl, rfl, rfl, rfl⟩⟩
  · cases hu.symm.trans h
  · have ht := hm.table p hp
    exact ⟨ht.aligned, ht.room, ht.max, ht.fits, ht.fmt, ht.owns, ht.leaf⟩

theorem setStage_master (d : State) (k : Nat) (attr : MasterAttributes) :
    (setStage d k attr).master k = { d.master k with
      stage := if attr.stage2 then .s2 else .s1
      ssid := if attr.stage2 then (d.master k).ssid else attr.substreamid } :=
  Function.update_self _ _ _

/-- What has to hold for a map call: the address of the page table fits the mask.  A
stage 1 map has a substream width up to 20, and that of the master if it is in use, a
substream that is not read as negative, and its table is at a multiple of 64, as tables of
64 bytes and more always are.  A stage 2 map does not replace one of stage 1. -/
structure MapOk (smmu : SmmuDev) (d : State) (cur : Option Config) (attr : MasterAttributes)
    (pgt : PgtDescriptor) (al : Allocations) : Prop where
  base : pgt.pgtBase < 2 ^ 48
  bits : attr.stage2 = false → attr.ssidBits ≤ 20
  ssid : attr.stage2 = false → attr.substreamid < 2 ^ 31
  sameBits : attr.stage2 = false → ∀ k, InUse d attr.streamid k →
    (d.master k).ssidBits = attr.ssidBits
  aligned : attr.stage2 = false → alignToSize al.cdtab (smmu.cdtabSize attr.ssidBits) % 2 ^ 6 = 0
  noStage1 : attr.stage2 = true → ∀ ssidBits ssid pgt', cur ≠ some (.stage1 ssidBits ssid pgt')

def mapState (d : State) (attr : MasterAttributes) : State :=
  setStage (takeMaster d attr).2 (takeMaster d attr).1 attr

theorem valSmmuMap_eq_mapStream (h : (valSmmuMap smmu d attr pgt al).1 = 0) :
    attr.streamid < 2 ^ smmu.sidBits ∧ valSmmuMap smmu d attr pgt al =
      mapStream smmu (mapState d attr) (takeMaster d attr).1 attr pgt al := by
  have heq : valSmmuMap smmu d attr pgt al =
      mapStream smmu (mapState d attr) (takeMaster d attr).1 attr pgt al := by
    rw [valSmmuMap] at h ⊢
    split at h
    · exact absurd h Nat.one_ne_zero
    · rename_i h2
      split at h
      · exact absurd h Nat.one_ne_zero
      · rename_i h1
        rw [if_neg h2, if_neg h1]
        rfl
  refine ⟨?_, heq⟩
  by_contra hsid
  rw [heq, mapStream, if_pos (by omega)] at h
  exact absurd h Nat.one_ne_zero

end

end ServerSoc.Smmu
