/-
What a map call may change.

`Effect` is the footprint of a map call with master `k`: the invariant, the other streams and the
other masters stay, and owned memory changes only in the entry of the stream, in the level 1
descriptor that leads to it, and in the context tables of the master (`Touched`).
-/
import ServerSoc.Smmu.Contexts

namespace ServerSoc.Smmu

open Base Function Option

/-- The words that a map call with master `k` for stream `sid` may change. -/
def Touched (smmu : SmmuDev) (d : State) (k sid a : Nat) : Prop :=
  (∃ ste, steOf smmu d.level1 sid = some ste ∧ ∃ i < 4, a = ste + 8 * i) ∨ CdOwned d.heap k a ∨
    (smmu.stLevel2lvl = true ∧ d.level1 (sid / 256) = none ∧ a = smmu.strtab64 + sid / 256 * 8)

structure Effect (smmu : SmmuDev) (d : State) (k : Nat) (d' : State) : Prop where
  keeps : Keeps smmu (fun t => t ≠ (d.master k).sid) d d'
  frame : d.heap.Frame (Touched smmu d k (d.master k).sid) d'.heap
  count : d'.count = d.count
  others : ∀ j, j ≠ k → d'.master j = d.master j
  used : (d'.master k).smmu = (d.master k).smmu
  sid : (d'.master k).sid = (d.master k).sid
  ssid : (d'.master k).ssid = (d.master k).ssid
  ssidBits : (d'.master k).ssidBits = (d.master k).ssidBits
  level1 : ∀ g p, d.level1 g = some p → d'.level1 g = some p
  located : ∀ ste, steOf smmu d'.level1 (d.master k).sid = some ste →
    steOf smmu d.level1 (d.master k).sid = some ste ∨ ∀ i < 4, d.heap.own (ste + 8 * i) = none

/-- A stage 1 map with a substream width up to 20, a substream that is not read as
negative, and a new table at a multiple of 64.  `d` is the state when master `k` has its
stage. -/
structure Contained (smmu : SmmuDev) (d : State) (k : Nat) (al : Allocations) : Prop where
  bits : (d.master k).stage = .s1 → (d.master k).ssidBits ≤ 20
  ssid : (d.master k).stage = .s1 → (d.master k).ssid < 2 ^ 31
  aligned : (d.master k).stage = .s1 → (d.master k).cdtab64 = none →
    alignToSize al.cdtab (smmu.cdtabSize (d.master k).ssidBits) % 2 ^ 6 = 0

variable {smmu : SmmuDev} {d d' : State}

section

variable {d'' : State} {k a : Nat}

theorem CdOwned.back {W : Nat → Prop} {h h' : Heap Owner} (hf : h.Frame W h')
    (ho : h.own a ≠ none) (hcd : CdOwned h' k a) : CdOwned h k a := by
  obtain ⟨o, howner⟩ := ne_none_iff_exists'.mp ho
  have hsame := hf.own a o howner
  rw [CdOwned, hsame] at hcd
  rw [CdOwned, howner]
  exact hcd

theorem Effect.core (h : Effect smmu d k d') : Core smmu d' := h.keeps.core

theorem Effect.refl (hc : Core smmu d) : Effect smmu d k d :=
  ⟨.refl hc, .refl _ _, rfl, fun _ _ => rfl, rfl, rfl, rfl, rfl, fun _ _ h => h, fun _ h => .inl h⟩

/-- What a later step may change was free before, or the earlier steps may change it. -/
theorem Effect.touched_back (h : Effect smmu d k d') (ho : d.heap.own a ≠ none)
    (ht : Touched smmu d' k (d.master k).sid a) : Touched smmu d k (d.master k).sid a := by
  obtain hentry | hcd | hdesc := ht
  · obtain ⟨ste, hste, i, hi, rfl⟩ := hentry
    cases h.located ste hste with
    | inl hold => exact .inl ⟨ste, hold, i, hi, rfl⟩
    | inr hfree => exact absurd (hfree i hi) ho
  · exact .inr (.inl (hcd.back h.frame ho))
  · obtain ⟨h2, hnone, heq⟩ := hdesc
    refine .inr (.inr ⟨h2, ?_, heq⟩)
    by_contra hsome
    obtain ⟨p, hp⟩ := ne_none_iff_exists'.mp hsome
    rw [h.level1 _ p hp] at hnone
    cases hnone

theorem Effect.trans (h1 : Effect smmu d k d') (h2 : Effect smmu d' k d'') :
    Effect smmu d k d'' := by
  have hkeeps := h2.keeps
  have hframe := h2.frame
  have hlocated := h2.located
  rw [h1.sid] at hkeeps hframe hlocated
  refine ⟨h1.keeps.trans hkeeps, h1.frame.trans hframe (fun a ho ht => h1.touched_back ho ht),
    h2.count.trans h1.count, fun j hj => (h2.others j hj).trans (h1.others j hj),
    h2.used.trans h1.used, h2.sid.trans h1.sid, h2.ssid.trans h1.ssid,
    h2.ssidBits.trans h1.ssidBits, fun g p hp => h2.level1 g p (h1.level1 g p hp), ?_⟩
  intro ste hste
  cases hlocated ste hste with
  | inl hbefore => exact h1.located ste hbefore
  | inr hfree =>
    right
    intro i hi
    by_contra ho
    obtain ⟨o, howner⟩ := ne_none_iff_exists'.mp ho
    have howner' := h1.frame.own _ o howner
    rw [hfree i hi] at howner'
    cases howner'

end

/-! ## The steps -/

section

variable {k ptr : Nat}

theorem effect_prepareLevel2 (hs : smmu.Ok) (hc : Core smmu d)
    (hsid : (d.master k).sid < 2 ^ smmu.sidBits) {l2ptr : Nat}
    (hfresh : smmu.stLevel2lvl = true → d.level1 ((d.master k).sid / 256) = none →
      Fresh d.heap l2ptr (2 ^ 15)) :
    Effect smmu d k (prepareLevel2 smmu d (d.master k).sid l2ptr) := by
  cases h2 : smmu.stLevel2lvl with
  | false =>
    rw [prepareLevel2, h2]
    exact .refl hc
  | true =>
    rw [prepareLevel2, h2, if_pos rfl]
    cases hl : d.level1 ((d.master k).sid / 256) with
    | some p =>
      rw [smmuStrtabInitLevel2, shiftRight_split, hl]
      exact .refl hc
    | none =>
      have hnew := hfresh h2 hl
      obtain ⟨hlo, hhi, -⟩ := level2_bounds hnew.room
      rw [smmuStrtabInitLevel2_of_none hl]
      refine ⟨(keeps_withLevel2 hs hc h2 (group_lt hs h2 hsid) hl hnew).mono (fun _ _ => trivial),
        ?_, rfl, fun _ _ => rfl, rfl, rfl, rfl, rfl, fun g p hp => ?_, fun ste hste => .inr ?_⟩
      · exact ((Heap.Frame.refl (Touched smmu d k (d.master k).sid) d.heap).trans
          (frame_withLevel2 smmu hnew _) (fun a _ ha => .inr (.inr ⟨h2, hl, ha⟩)))
      · have hne : g ≠ (d.master k).sid / 256 := by
          intro heq
          rw [heq, hl] at hp
          cases hp
        show update d.level1 _ _ g = some p
        rw [update_of_ne hne, hp]
      · intro i hi
        rw [steOf_update h2, if_pos rfl, some_inj] at hste
        exact hnew.free _ (by omega) (by omega)

theorem effect_master (hc : Core smmu d) {h' : Heap Owner} {m : Master}
    (hkeeps : Keeps smmu (fun t => t ≠ (d.master k).sid) d
      { d with heap := h', master := update d.master k m })
    (hf : d.heap.Frame (CdOwned d.heap k) h') (hused : m.smmu = (d.master k).smmu)
    (hsid : m.sid = (d.master k).sid) (hssid : m.ssid = (d.master k).ssid)
    (hbits : m.ssidBits = (d.master k).ssidBits) :
    Effect smmu d k { d with heap := h', master := update d.master k m } := by
  refine ⟨hkeeps, (Effect.refl hc).frame.trans hf (fun a _ ha => .inr (.inl ha)), rfl,
    fun j hj => update_of_ne hj _ _, ?_, ?_, ?_, ?_, fun _ _ h => h, fun _ h => .inl h⟩
  all_goals simp only [update_self, *]

theorem frame_prepareStage1 (hc : Core smmu d) (hk : k < d.count)
    (hbits : (d.master k).ssidBits ≤ 20)
    (hfresh : (d.master k).cdtab64 = none → CdtabFresh smmu d.heap (d.master k).ssidBits ptr) :
    d.heap.Frame (CdOwned d.heap k) (prepareStage1 smmu d k ptr).heap := by
  cases hp : (d.master k).cdtab64 with
  | some p =>
    rw [prepareStage1_of_some hc hk hp]
    exact .refl _ _
  | none =>
    rw [prepareStage1_of_none hbits hp]
    exact (hfresh hp).frame hbits _

theorem effect_prepareStage1 (hs : smmu.Ok) (hc : Core smmu d) (hk : k < d.count)
    (hu : (d.master k).smmu = true) (hbits : (d.master k).ssidBits ≤ 20)
    (hfresh : (d.master k).cdtab64 = none → CdtabFresh smmu d.heap (d.master k).ssidBits ptr) :
    Effect smmu d k (prepareStage1 smmu d k ptr) := by
  have hkeeps := (hasCdtab_prepareStage1 hs hc hk hu hbits hfresh).keeps.mono
    (Q := fun t => t ≠ (d.master k).sid) fun _ _ => trivial
  have hf := frame_prepareStage1 hc hk hbits hfresh
  cases hp : (d.master k).cdtab64 with
  | some p =>
    rw [prepareStage1_of_some hc hk hp]
    exact .refl hc
  | none =>
    rw [prepareStage1_of_none hbits hp] at hkeeps hf ⊢
    exact effect_master hc hkeeps hf rfl rfl rfl rfl

def writeContext (d : State) (k leafPtr : Nat) (pgt : PgtDescriptor) : State :=
  { (smmuCdtabGetCtxDesc d k leafPtr).2 with
    heap := withCtxDesc (smmuCdtabGetCtxDesc d k leafPtr).2.heap
      (smmuCdtabGetCtxDesc d k leafPtr).1 pgt }

structure Ready (smmu : SmmuDev) (d : State) (k p leafPtr : Nat) : Prop where
  core : Core smmu d
  lt : k < d.count
  used : (d.master k).smmu = true
  table : (d.master k).cdtab64 = some p
  ssid : (d.master k).ssid < 2 ^ (d.master k).s1cdmax
  fresh : NeedsLeaf (d.master k) → Fresh d.heap leafPtr (2 ^ 17)

section

variable {p leafPtr : Nat}

theorem Ready.cdTable (h : Ready smmu d k p leafPtr) : CdTable smmu d.heap k (d.master k) p :=
  (h.core.masters k h.lt).table p h.table

theorem Ready.hasCtxDesc (hs : smmu.Ok) (h : Ready smmu d k p leafPtr) :
    HasCtxDesc smmu d (smmuCdtabGetCtxDesc d k leafPtr).2 k (smmuCdtabGetCtxDesc d k leafPtr).1 :=
  hasCtxDesc_getCtxDesc hs h.core h.lt h.used h.table h.ssid h.fresh

theorem frame_getCtxDesc (h : Ready smmu d k p leafPtr) :
    d.heap.Frame (CdOwned d.heap k) (smmuCdtabGetCtxDesc d k leafPtr).2.heap := by
  by_cases hneed : NeedsLeaf (d.master k)
  · have h2 := h.cdTable.twoLevel_of_needsLeaf hneed
    have hdesc := h.cdTable.own_desc h2 (leafIndex_lt h2 h.ssid)
    rw [smmuCdtabGetCtxDesc_of_needsLeaf h.table hneed]
    exact (Heap.Frame.refl _ _).trans (frame_withLeaf (h.fresh hneed) k _ p)
      (fun a _ ha => .inl (ha ▸ hdesc))
  · obtain ⟨c, hget, -⟩ :=
      smmuCdtabGetCtxDesc_of_not_needsLeaf leafPtr h.table (h.cdTable.ssid_lt h.ssid) hneed
    rw [hget]
    exact .refl _ _

theorem Ready.cdOwned (h : Ready smmu d k p leafPtr) {d1 : State} {c i : Nat}
    (hget : HasCtxDesc smmu d d1 k c) (hi : i < 8) : CdOwned d1.heap k (c + 8 * i) := by
  obtain ⟨l1Desc, hm⟩ := hget.master
  have hp : (d1.master k).cdtab64 = some p := by
    rw [hm]
    exact h.table
  have hssid : (d.master k).ssid < 2 ^ (d1.master k).s1cdmax := by
    rw [hm]
    exact h.ssid
  have ht := (hget.keeps.core.masters k (hget.count.symm ▸ h.lt)).table p hp
  exact cdOwned_cd ht hp hssid hget.desc hi

section

variable (hs : smmu.Ok) (h : Ready smmu d k p leafPtr)
include hs h

theorem effect_getCtxDesc : Effect smmu d k (smmuCdtabGetCtxDesc d k leafPtr).2 := by
  have hkeeps := (h.hasCtxDesc hs).keeps
  have hf := frame_getCtxDesc h
  by_cases hneed : NeedsLeaf (d.master k)
  · rw [smmuCdtabGetCtxDesc_of_needsLeaf h.table hneed] at hkeeps hf ⊢
    exact effect_master h.core hkeeps hf rfl rfl rfl rfl
  · obtain ⟨c, hget, -⟩ :=
      smmuCdtabGetCtxDesc_of_not_needsLeaf leafPtr h.table (h.cdTable.ssid_lt h.ssid) hneed
    rw [hget]
    exact .refl h.core

theorem writeContext_fields (pgt : PgtDescriptor) :
    (writeContext d k leafPtr pgt).level1 = d.level1 ∧
      ∃ l1Desc, (writeContext d k leafPtr pgt).master k = { d.master k with l1Desc := l1Desc } :=
  ⟨(h.hasCtxDesc hs).level1, (h.hasCtxDesc hs).master⟩

theorem frame_writeContext (pgt : PgtDescriptor) :
    d.heap.Frame (CdOwned d.heap k) (writeContext d k leafPtr pgt).heap := by
  have hf := frame_getCtxDesc h
  apply hf.trans (writes_withCtxDesc _ _ pgt).frame
  rintro a ho ⟨i, hi, rfl⟩
  exact (h.cdOwned (h.hasCtxDesc hs) (by omega)).back hf ho

theorem effect_writeContext (pgt : PgtDescriptor) :
    Effect smmu d k (writeContext d k leafPtr pgt) := by
  have hget := h.hasCtxDesc hs
  have heff := effect_getCtxDesc hs h
  have hf := frame_writeContext hs h pgt
  obtain ⟨l1Desc, hm⟩ := hget.master
  have hkeeps : Keeps smmu (fun t => t ≠ (d.master k).sid) (smmuCdtabGetCtxDesc d k leafPtr).2
      (writeContext d k leafPtr pgt) := by
    rw [← heff.sid]
    apply keeps_withCtxDesc hs heff.core (hget.count.symm ▸ h.lt) _ _ _ pgt
    · exact p
    · rw [hm]
      exact h.table
    · rw [hm]
      exact h.ssid
    · rw [heff.ssid]
      exact hget.desc
  exact ⟨hget.keeps.trans hkeeps,
    (Effect.refl h.core).frame.trans hf (fun a _ ha => .inr (.inl ha)), heff.count,
    heff.others, heff.used, heff.sid, heff.ssid, heff.ssidBits, heff.level1, heff.located⟩

end

end

theorem effect_writeEntry (hs : smmu.Ok) (hc : Core smmu d) {a : Nat}
    (hsid : (d.master k).sid < 2 ^ smmu.sidBits)
    (ha : steOf smmu d.level1 (d.master k).sid = some a) (cfg : Option StageConfig) :
    Effect smmu d k (d.writeEntry a cfg) := by
  refine ⟨keeps_writeSte hs hc hsid ha cfg, ?_, rfl, fun _ _ => rfl, rfl, rfl, rfl, rfl,
    fun _ _ h => h, fun _ h => .inl h⟩
  apply (Effect.refl hc).frame.trans (writes_writeSte cfg a d.heap).frame
  intro b _ hb
  exact .inl ⟨a, ha, hb⟩

end

/-! ## The call -/

variable {attr : MasterAttributes} {pgt : PgtDescriptor} {al : Allocations}

section

variable {k : Nat}

/-- What a map call did when it succeeds: a stage 2 entry over the words `d1` had, or a
stage 1 entry over those of `d1` with the descriptor in `d2`. -/
inductive Wrote (smmu : SmmuDev) (d1 : State) (k : Nat) (pgt : PgtDescriptor) (al : Allocations)
    (a : Nat) (d' : State) : Prop
  | stage2 (hstage : (d1.master k).stage = .s2)
      (heq : d' = d1.writeEntry a (some (.stage2 0 pgt.pgtBase (stage2Vtcr pgt.tcr))))
  | stage1 (d2 : State) (p : Nat) (hstage : (d1.master k).stage = .s1)
      (hprep : d2 = prepareStage1 smmu d1 k al.cdtab)
      (hready : Ready smmu d2 k p al.leaf) (hbits : (d2.master k).ssidBits = (d1.master k).ssidBits)
      (hframe : d1.heap.Frame (CdOwned d1.heap k) (writeContext d2 k al.leaf pgt).heap)
      (heq : d' = (writeContext d2 k al.leaf pgt).writeEntry a
        (some (.stage1 p (d2.master k).s1cdmax (d2.master k).s1fmt)))

structure MapResult (smmu : SmmuDev) (d : State) (k : Nat) (pgt : PgtDescriptor) (al : Allocations)
    (r : Nat × State) : Prop where
  effect : Effect smmu d k r.2
  status : r.1 = 0 ∨ r.1 = 1
  success : r.1 = 0 → ∃ a, steOf smmu r.2.level1 (d.master k).sid = some a ∧
    Wrote smmu (prepareLevel2 smmu d (d.master k).sid al.level2) k pgt al a r.2
  failure : r.1 ≠ 0 → Keeps smmu (fun _ => True) d r.2

section

variable (hs : smmu.Ok) (hc : Core smmu d) (hk : k < d.count) (hu : (d.master k).smmu = true)
include hs hc hk hu

theorem mapResult_stage1 (hsid : (d.master k).sid < 2 ^ smmu.sidBits)
    (hstage : (d.master k).stage = .s1) (hin : Contained smmu d k al) (hal : AllocOk smmu d k al) :
    let d1 := prepareLevel2 smmu d (d.master k).sid al.level2
    let d2 := prepareStage1 smmu d1 k al.cdtab
    MapResult smmu d k pgt al
      (match smmuCdtabWriteCtxDesc d2 k (d2.master k).ssid al.leaf
          ⟨0, pgt.pgtBase, stage1Tcr pgt.tcr, pgt.mair⟩ with
      | none => (1, d2)
      | some d3 => (0, d3.writeStream smmu (d3.master k).sid (.stage1 ((d3.master k).cdtab64.getD 0)
          (d3.master k).s1cdmax (d3.master k).s1fmt))) := by
  intro d1 d2
  have hbits := hin.bits hstage
  have hentry := hasEntry_prepareLevel2 hs hc hsid hal.level2
  have heff1 := effect_prepareLevel2 hs hc hsid hal.level2
  have hm1 : d1.master k = d.master k := by rw [hentry.master]
  have hfresh1 : (d1.master k).cdtab64 = none →
      CdtabFresh smmu d1.heap (d1.master k).ssidBits al.cdtab := by
    rw [hm1]
    exact fun hp => ⟨hal.cdtab hstage hp, hin.aligned hstage hp⟩
  have hk1 : k < d1.count := hentry.count.symm ▸ hk
  have hu1 : (d1.master k).smmu = true := by rw [hm1, hu]
  have hbits1 : (d1.master k).ssidBits ≤ 20 := by rw [hm1]; exact hbits
  have htab := hasCdtab_prepareStage1 hs hentry.keeps.core hk1 hu1 hbits1 hfresh1
  have heff2 := heff1.trans (effect_prepareStage1 hs hentry.keeps.core hk1 hu1 hbits1 hfresh1)
  have hk2 : k < d2.count := htab.count.symm ▸ hk1
  have hu2 : (d2.master k).smmu = true := by rw [htab.used, hu1]
  have hssid2 : (d2.master k).ssid < 2 ^ 31 := by
    rw [htab.ssid, hm1]
    exact hin.ssid hstage
  obtain ⟨p, hp⟩ := htab.table
  have hwrite : smmuCdtabWriteCtxDesc d2 k (d2.master k).ssid al.leaf
      ⟨0, pgt.pgtBase, stage1Tcr pgt.tcr, pgt.mair⟩ =
        if (d2.master k).ssid < 2 ^ (d2.master k).s1cdmax then some (writeContext d2 k al.leaf pgt)
        else none := smmuCdtabWriteCtxDesc_eq hssid2 pgt
  rw [hwrite]
  split_ifs with hlt
  · have hready : Ready smmu d2 k p al.leaf := ⟨heff2.core, hk2, hu2, hp, hlt, hal.leaf hstage hlt⟩
    have heff3 := effect_writeContext hs hready pgt
    have hf2 := frame_prepareStage1 hentry.keeps.core hk1 hbits1 hfresh1
    have hf3 := hf2.trans (frame_writeContext hs hready pgt) fun a ho ha => ha.back hf2 ho
    obtain ⟨hlevel1, l1Desc, hm3⟩ := writeContext_fields hs hready pgt
    generalize hd : writeContext d2 k al.leaf pgt = d3 at *
    show MapResult smmu d k pgt al (0, d3.writeStream smmu (d3.master k).sid
      (.stage1 ((d3.master k).cdtab64.getD 0) (d3.master k).s1cdmax (d3.master k).s1fmt))
    have heff := heff2.trans heff3
    obtain ⟨a, ha⟩ := hentry.located
    have ha3 : steOf smmu d3.level1 (d.master k).sid = some a := by
      rw [hlevel1, htab.level1]
      exact ha
    have hsid3 : (d3.master k).sid = (d.master k).sid := heff.sid
    have hp3 : (d3.master k).cdtab64 = some p := by rw [hm3]; exact hp
    rw [hsid3, hp3, getD_some, writeStream_eq hs hsid ha3]
    have hste := effect_writeEntry hs heff.core (hsid3.symm ▸ hsid) (hsid3.symm ▸ ha3)
      (some (.stage1 p (d3.master k).s1cdmax (d3.master k).s1fmt))
    refine ⟨heff.trans hste, .inl rfl, fun _ => ⟨a, ha3, ?_⟩, fun h => absurd rfl h⟩
    refine .stage1 d2 p (by rw [hm1, hstage]) rfl hready htab.ssidBits (hd ▸ hf3) ?_
    rw [hd, hm3]
  · exact ⟨heff2, .inr rfl, fun h => absurd h Nat.one_ne_zero,
      fun _ => hentry.keeps.trans htab.keeps⟩

theorem mapResult_mapStream (hm : (d.master k).sid = attr.streamid)
    (hsid : attr.streamid < 2 ^ smmu.sidBits) (hin : Contained smmu d k al)
    (hal : AllocOk smmu d k al) : MapResult smmu d k pgt al (mapStream smmu d k attr pgt al) := by
  have hsid' : (d.master k).sid < 2 ^ smmu.sidBits := hm.symm ▸ hsid
  have hentry := hasEntry_prepareLevel2 hs hc hsid' hal.level2
  rw [mapStream, if_neg (by omega)]
  cases hstage : (d.master k).stage with
  | s1 =>
    have hres := @mapResult_stage1 smmu d pgt al k hs hc hk hu hsid' hstage hin hal
    have hst : ((prepareLevel2 smmu d (d.master k).sid al.level2).master k).stage = .s1 := by
      rw [hentry.master, hstage]
    simp only [hst]
    exact hres
  | s2 =>
    have heff := effect_prepareLevel2 hs hc hsid' hal.level2
    have hst : ((prepareLevel2 smmu d (d.master k).sid al.level2).master k).stage = .s2 := by
      rw [hentry.master, hstage]
    obtain ⟨a, ha⟩ := hentry.located
    simp only [hst]
    generalize hd1 : prepareLevel2 smmu d (d.master k).sid al.level2 = d1 at *
    rw [heff.sid, writeStream_eq hs hsid' ha]
    have hwrite := effect_writeEntry hs heff.core (heff.sid.symm ▸ hsid') (heff.sid.symm ▸ ha)
      (some (.stage2 0 pgt.pgtBase (stage2Vtcr pgt.tcr)))
    refine ⟨heff.trans hwrite, .inl rfl, fun _ => ⟨a, ha, ?_⟩, fun h => absurd rfl h⟩
    rw [hd1]
    exact .stage2 hst rfl

end

end

/-! ## The stream of the call -/

section

variable {k sid : Nat} {c : Config}

/-- What a map call with result `r` does to the stream it is for and to the others. -/
structure Mapped (smmu : SmmuDev) (d : State) (sid : Nat) (c : Config) (r : Nat × State) :
    Prop where
  others : Keeps smmu (fun t => t ≠ sid) d r.2
  success : r.1 = 0 → sid < 2 ^ smmu.sidBits ∧ StreamOk smmu r.2 sid (some c)
  failure : r.1 ≠ 0 → Keeps smmu (fun _ => True) d r.2

theorem Mapped.of_failure (h : Keeps smmu (fun _ => True) d d') : Mapped smmu d sid c (1, d') :=
  ⟨h.mono (fun _ _ => trivial), fun h0 => absurd h0 Nat.one_ne_zero, fun _ => h⟩

theorem Mapped.prepend {r : Nat × State} (h : Keeps smmu (fun _ => True) d d')
    (hr : Mapped smmu d' sid c r) : Mapped smmu d sid c r :=
  ⟨(h.mono (fun _ _ => trivial)).trans hr.others, hr.success, fun h0 => h.trans (hr.failure h0)⟩

theorem streamOk_writeContext (hs : smmu.Ok) {p a : Nat} (hready : Ready smmu d k p al.leaf)
    (hsid : (d.master k).sid < 2 ^ smmu.sidBits)
    (ha : steOf smmu (writeContext d k al.leaf pgt).level1 (d.master k).sid = some a)
    (hbase : pgt.pgtBase < 2 ^ 48) :
    StreamOk smmu ((writeContext d k al.leaf pgt).writeEntry a
      (some (.stage1 p (d.master k).s1cdmax (d.master k).s1fmt))) (d.master k).sid
      (some (.stage1 (d.master k).ssidBits (d.master k).ssid pgt)) := by
  have heff := effect_writeContext hs hready pgt
  have hcd := (hready.hasCtxDesc hs).desc
  obtain ⟨h0, h1, h3⟩ := withCtxDesc_words (smmuCdtabGetCtxDesc d k al.leaf).2.heap
    (smmuCdtabGetCtxDesc d k al.leaf).1 pgt
  rw [Nat.mod_eq_of_lt hbase] at h1
  obtain ⟨-, l1Desc, hm⟩ := writeContext_fields hs hready pgt
  have hok := streamOk_stage1 hs heff.core hsid ha (heff.count.symm ▸ hready.lt)
    (heff.used.trans hready.used) heff.sid (by rw [hm]; exact hready.table)
    (by rw [hm]; exact hready.ssid) hcd h0 h1 h3
  rw [hm] at hok
  rwa [← hready.cdTable.max]

theorem mapped_mapStream (hs : smmu.Ok) (hc : Core smmu d) (hk : k < d.count)
    (hu : (d.master k).smmu = true) (hm : (d.master k).sid = attr.streamid)
    (hsid : attr.streamid < 2 ^ smmu.sidBits) (hin : Contained smmu d k al)
    (hal : AllocOk smmu d k al) (hbase : pgt.pgtBase < 2 ^ 48) {c : Option Config}
    (hok : StreamOk smmu d attr.streamid c) {cfg : Config}
    (h1 : (d.master k).stage = .s1 → cfg = .stage1 (d.master k).ssidBits (d.master k).ssid pgt)
    (h2 : (d.master k).stage = .s2 →
      cfg = .stage2 pgt ∧ ∀ ssidBits ssid pgt', c ≠ some (.stage1 ssidBits ssid pgt')) :
    Mapped smmu d attr.streamid cfg (mapStream smmu d k attr pgt al) := by
  have hres := @mapResult_mapStream smmu d attr pgt al k hs hc hk hu hm hsid hin hal
  have heff := hres.effect
  rw [← hm] at hsid hok ⊢
  have hentry := hasEntry_prepareLevel2 hs hc hsid hal.level2
  refine ⟨heff.keeps, fun h0 => ⟨hsid, ?_⟩, hres.failure⟩
  obtain ⟨a, ha, hwrote⟩ := hres.success h0
  generalize (mapStream smmu d k attr pgt al).2 = d' at *
  cases hwrote with
  | stage2 hstage heq =>
    rw [hentry.master] at hstage
    subst heq
    rw [(h2 hstage).1]
    refine streamOk_stage2 ha (hentry.count.symm ▸ hk) (by rw [hentry.master, hu])
      (by rw [hentry.master]) hbase ?_
    have hok := hentry.keeps.streams _ hsid trivial _ hok
    cases c with
    | none => exact .inl (hok a ha).2
    | some c =>
      cases c with
      | stage1 ssidBits ssid pgt' => exact absurd rfl ((h2 hstage).2 ssidBits ssid pgt')
      | stage2 pgt' =>
        obtain ⟨b, j, hb, hat⟩ := hok
        cases ha.symm.trans hb
        exact .inr hat.word1
  | stage1 d2 p hstage hprep hready hbits hframe heq =>
    have hctx := effect_writeContext hs hready pgt
    subst heq
    have hsid2 := hctx.sid.symm.trans heff.sid
    have hssid2 : (d2.master k).ssid = (d.master k).ssid := hctx.ssid.symm.trans heff.ssid
    rw [hentry.master] at hstage hbits
    have hok := streamOk_writeContext hs hready (hsid2 ▸ hsid) (hsid2 ▸ ha) hbase
    rw [hsid2, hbits, hssid2] at hok
    rwa [h1 hstage]

theorem mapped_valSmmuMap (hs : smmu.Ok) (hc : Core smmu d) {cur : Option Config}
    (hok : attr.streamid < 2 ^ smmu.sidBits → StreamOk smmu d attr.streamid cur)
    (hmap : MapOk smmu d cur attr pgt al)
    (hal : attr.streamid < 2 ^ smmu.sidBits →
      AllocOk smmu (mapState d attr) (takeMaster d attr).1 al) :
    Mapped smmu d attr.streamid (config attr pgt) (valSmmuMap smmu d attr pgt al) := by
  have htaken := taken_takeMaster hs hc attr
  rw [mapState] at hal
  rw [valSmmuMap]
  generalize (takeMaster d attr).1 = k at *
  generalize (takeMaster d attr).2 = d' at *
  have hset := setStage_keeps hs htaken.keeps.core htaken.lt htaken.used attr
  have hkeeps := htaken.keeps.trans hset
  have hmaster := setStage_master d' k attr
  split
  · exact .of_failure htaken.keeps
  · split
    · exact .of_failure htaken.keeps
    · refine .prepend hkeeps ?_
      by_cases hsid : attr.streamid < 2 ^ smmu.sidBits
      · have hs1 : ((setStage d' k attr).master k).stage = .s1 → attr.stage2 = false := by
          rw [hmaster]
          cases attr.stage2 <;> simp
        have hs2 : ((setStage d' k attr).master k).stage = .s2 → attr.stage2 = true := by
          rw [hmaster]
          cases attr.stage2 <;> simp
        have hbits : attr.stage2 = false →
            ((setStage d' k attr).master k).ssidBits = attr.ssidBits := by
          intro h
          rw [hmaster]
          exact htaken.ssidBits (hmap.sameBits h)
        have hssid : attr.stage2 = false →
            ((setStage d' k attr).master k).ssid = attr.substreamid := by
          intro h
          rw [hmaster, h]
          rfl
        refine mapped_mapStream hs hset.core htaken.lt (by rw [hmaster, htaken.used])
          (by rw [hmaster, htaken.sid]) hsid ⟨fun h => ?_, fun h => ?_, fun h _ => ?_⟩ (hal hsid)
          hmap.base (hkeeps.streams _ hsid trivial _ (hok hsid)) (fun h => ?_)
          (fun h => ⟨?_, hmap.noStage1 (hs2 h)⟩)
        · exact (hbits (hs1 h)).trans_le (hmap.bits (hs1 h))
        · exact (hssid (hs1 h)).trans_lt (hmap.ssid (hs1 h))
        · rw [hbits (hs1 h)]
          exact hmap.aligned (hs1 h)
        · rw [config, hs1 h, hbits (hs1 h), hssid (hs1 h)]
          rfl
        · rw [config, hs2 h]
          rfl
      · rw [mapStream, if_pos (by omega)]
        exact .of_failure (.refl hset.core)

end

end ServerSoc.Smmu
