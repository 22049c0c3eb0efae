/-
The context descriptors of one stream.

A run maps substreams of one stream with stage 1.  Its context table is cleared when it is
allocated, but a leaf table of 1024 descriptors is not, so the SMMU finds in it whatever the
memory held before (`LeafClear`).
-/
import ServerSoc.Smmu.StreamTable

namespace ServerSoc.Smmu

open Base Function Option

/-! ## Runs -/

def PgtDescriptor.inDesc (pgt : PgtDescriptor) : PgtDescriptor :=
  { pgt with pgtBase := pgt.pgtBase % 2 ^ 48 }

/-- The SMMU finds the descriptor of the last map for every substream that `table` has, and
none for the others. -/
def Substreams (smmu : SmmuDev) (mem : Nat → Nat) (sid bits : Nat)
    (table : Nat → Option PgtDescriptor) : Prop :=
  ∃ ste, fetch smmu mem sid = some ste ∧ Stage1Entry bits ste ∧ ∀ ssid < 2 ^ bits,
    match table ssid with
    | none => fetchCd mem ste ssid = none
    | some pgt => ∃ cd, fetchCd mem ste ssid = some cd ∧ CtxDescFor pgt.inDesc cd

structure SubMap where
  ssid : Nat
  pgt : PgtDescriptor
  al : Allocations

abbrev SubMap.attr (c : SubMap) (sid bits : Nat) : MasterAttributes := ⟨sid, c.ssid, bits, false⟩

def SubMap.call (c : SubMap) (smmu : SmmuDev) (d : State) (sid bits : Nat) : Nat × State :=
  valSmmuMap smmu d (c.attr sid bits) c.pgt c.al

/-- The call succeeds for a substream of the stream, with allocations that return free
memory and a new context table at a multiple of 64. -/
structure SubMap.Ok (c : SubMap) (smmu : SmmuDev) (d : State) (sid bits : Nat) : Prop where
  ssid : c.ssid < 2 ^ bits
  success : (c.call smmu d sid bits).1 = 0
  alloc : AllocOk smmu (mapState d (c.attr sid bits))
    (takeMaster d (c.attr sid bits)).1 c.al
  aligned : d.count = 0 → alignToSize c.al.cdtab (smmu.cdtabSize bits) % 2 ^ 6 = 0

/-- Where the call needs a new leaf table, the memory for it has no valid descriptor but in
the place of the substream. -/
def SubMap.LeafClear (c : SubMap) (smmu : SmmuDev) (d : State) (bits : Nat) : Prop :=
  smmu.cdTwoLevel bits = true → (d.master 0).l1Desc (c.ssid / 1024) = none →
    ∀ i < 1024, i ≠ c.ssid % 1024 →
      getField 1 31 (d.heap.mem (alignToSize c.al.leaf (2 ^ 16) + i * 64)) = 0

/-- The maps of a run from the initialisation on, and the last one of each substream. -/
inductive SubRun (smmu : SmmuDev) (mem : Nat → Nat) (sid bits : Nat) :
    State → (Nat → Option PgtDescriptor) → Prop
  | start : SubRun smmu mem sid bits (start smmu mem).dev (fun _ => none)
  | map {d : State} {table : Nat → Option PgtDescriptor} {c : SubMap}
      (run : SubRun smmu mem sid bits d table) (ok : c.Ok smmu d sid bits)
      (clear : c.LeafClear smmu d bits) :
      SubRun smmu mem sid bits (c.call smmu d sid bits).2 (update table c.ssid (some c.pgt))

/-! ## The tables of the stream -/

structure Descriptor (mem : Nat → Nat) (c : Nat) (pgt : PgtDescriptor) : Prop where
  word0 : mem c = cdWord0 pgt.tcr
  word1 : mem (c + 8) = pgt.pgtBase % 2 ^ 48
  word3 : mem (c + 24) = pgt.mair

structure Contents (smmu : SmmuDev) (h : Heap Owner) (m : Master) (p bits : Nat)
    (table : Nat → Option PgtDescriptor) : Prop where
  mapped : ∀ ssid < 2 ^ bits, ∀ pgt, table ssid = some pgt →
    ∃ c, cdAddr m ssid = some c ∧ Descriptor h.mem c pgt
  unmapped : ∀ ssid < 2 ^ bits, table ssid = none →
    ∀ c, cdAddr m ssid = some c → getField 1 31 (h.mem c) = 0
  absent : smmu.cdTwoLevel bits = true → ∀ i < 2 ^ (bits - 10), m.l1Desc i = none →
    h.mem (p + i * 8) = 0

structure Attached (smmu : SmmuDev) (sid bits : Nat) (d : State) (p a : Nat) : Prop where
  count : d.count = 1
  used : (d.master 0).smmu = true
  stream : (d.master 0).sid = sid
  width : (d.master 0).ssidBits = bits
  table : (d.master 0).cdtab64 = some p
  cdTable : CdTable smmu d.heap 0 (d.master 0) p
  located : Located smmu d sid a

theorem Attached.max {smmu : SmmuDev} {sid bits p a : Nat} {d : State}
    (h : Attached smmu sid bits d p a) : (d.master 0).s1cdmax = bits :=
  h.cdTable.max.trans h.width

structure EntryWords (mem : Nat → Nat) (m : Master) (p a : Nat) : Prop where
  word0 : mem a = stage1Word0 p m.s1cdmax m.s1fmt
  word1 : mem (a + 8) = stage1Word1

variable {smmu : SmmuDev} {sid bits p a : Nat} {d : State} {table : Nat → Option PgtDescriptor}

section

variable (hs : smmu.Ok) (h : Attached smmu sid bits d p a)
  (hw : EntryWords d.heap.mem (d.master 0) p a)
include hs h hw

theorem Attached.fetch_eq : fetch smmu d.heap.mem sid = some (wordsAt d.heap.mem a) := by
  have h0 : wordsAt d.heap.mem a 0 = stage1Word0 p (d.master 0).s1cdmax (d.master 0).s1fmt :=
    hw.word0
  rw [fetch, h.located.entryAddr_eq hs]
  simp only [h0, stage1Word0_valid, stage1Word0_config]
  rfl

theorem substreams_of_contents (hc : Contents smmu d.heap (d.master 0) p bits table) :
    Substreams smmu d.heap.mem sid bits table := by
  have hmax := h.max
  have hfits : (d.master 0).s1cdmax < 2 ^ 5 := by
    have hle := h.cdTable.fits
    rw [h.cdTable.max]
    omega
  refine ⟨wordsAt d.heap.mem a, h.fetch_eq hs hw, ?_, ?_⟩
  · rw [← hmax]
    exact stage1Entry_of_words hw.word0 hw.word1 hfits
  · intro ssid hssid
    have hssid' : ssid < 2 ^ (d.master 0).s1cdmax := hmax.symm ▸ hssid
    cases ht : table ssid with
    | some pgt =>
      obtain ⟨c, hcd, hdesc⟩ := hc.mapped ssid hssid pgt ht
      refine ⟨wordsAt d.heap.mem c, ?_, ctxDescFor_of_words hdesc.word0 hdesc.word1 hdesc.word3⟩
      apply fetchCd_eq h.cdTable h.table hssid' hcd _ hw.word0
      rw [hdesc.word0, cdWord0_valid]
    | none =>
      cases hcd : cdAddr (d.master 0) ssid with
      | some c =>
        rw [fetchCd_at h.cdTable h.table hssid' hcd hw.word0,
          if_pos (hc.unmapped ssid hssid ht c hcd)]
      | none =>
        apply fetchCd_absent h.cdTable h.table hcd _ hw.word0
        cases h2 : smmu.cdTwoLevel (d.master 0).s1cdmax with
        | false =>
          rw [h.cdTable.cdAddr_linear h.table h2] at hcd
          cases hcd
        | true =>
          rw [h.cdTable.cdAddr_twoLevel h.table h2, map_eq_none_iff] at hcd
          have hi := leafIndex_lt h2 hssid'
          rw [hmax] at h2 hi
          rw [hc.absent h2 _ hi hcd]
          decide

theorem Substreams.not_valid (hsub : Substreams smmu d.heap.mem sid bits table) {ssid c : Nat}
    (hssid : ssid < 2 ^ bits) (hnone : table ssid = none)
    (hcd : cdAddr (d.master 0) ssid = some c) : getField 1 31 (d.heap.mem c) = 0 := by
  obtain ⟨ste, hfetch, -, hall⟩ := hsub
  rw [h.fetch_eq hs hw, some_inj] at hfetch
  have hcdnone := hall ssid hssid
  rw [hnone, ← hfetch] at hcdnone
  have hssid' : ssid < 2 ^ (d.master 0).s1cdmax := h.max.symm ▸ hssid
  have hat : fetchCd d.heap.mem (wordsAt d.heap.mem a) ssid = _ :=
    fetchCd_at h.cdTable h.table hssid' hcd hw.word0
  by_contra hvalid
  rw [if_neg hvalid] at hat
  cases hat.symm.trans hcdnone

end

/-! ## Writing a descriptor -/

variable {leafPtr : Nat}

/-- The descriptors of the master stay, and new ones are those of a leaf table for `ssid`. -/
structure LeafAdded (m m' : Master) (ssid leafPtr : Nat) : Prop where
  old : ∀ ssid c, cdAddr m ssid = some c → cdAddr m' ssid = some c
  new : ∀ ssid', cdAddr m ssid' = none → ∀ c, cdAddr m' ssid' = some c →
    NeedsLeaf m ∧ ssid' / 1024 = ssid / 1024 ∧ c = alignToSize leafPtr (2 ^ 16) + ssid' % 1024 * 64
  leaf : NeedsLeaf m → m'.l1Desc (ssid / 1024) = some (alignToSize leafPtr (2 ^ 16))

structure Place (smmu : SmmuDev) (d : State) (p leafPtr c : Nat) (d1 : State) : Prop where
  get : smmuCdtabGetCtxDesc d 0 leafPtr = (c, d1)
  count : d1.count = d.count
  level1 : d1.level1 = d.level1
  master : ∃ l1Desc, d1.master 0 = { d.master 0 with l1Desc := l1Desc }
  cdTable : CdTable smmu d1.heap 0 (d1.master 0) p
  desc : cdAddr (d1.master 0) (d.master 0).ssid = some c
  frame : d.heap.Frame (fun x => d.heap.own x = some (.cdtab 0)) d1.heap
  mem : ∀ x, d1.heap.own x ≠ some (.cdtab 0) → d1.heap.mem x = d.heap.mem x
  linear : smmu.cdTwoLevel (d.master 0).s1cdmax = false → d1.heap = d.heap
  added : LeafAdded (d.master 0) (d1.master 0) (d.master 0).ssid leafPtr
  absent : smmu.cdTwoLevel (d.master 0).s1cdmax = true → ∀ i < 2 ^ ((d.master 0).s1cdmax - 10),
    (d1.master 0).l1Desc i = none →
      (d.master 0).l1Desc i = none ∧ d1.heap.mem (p + i * 8) = d.heap.mem (p + i * 8)

theorem exists_place (ht : CdTable smmu d.heap 0 (d.master 0) p)
    (hp : (d.master 0).cdtab64 = some p) (hssid : (d.master 0).ssid < 2 ^ (d.master 0).s1cdmax)
    (hfresh : NeedsLeaf (d.master 0) → Fresh d.heap leafPtr (2 ^ 17)) :
    ∃ c d1, Place smmu d p leafPtr c d1 := by
  by_cases hneed : NeedsLeaf (d.master 0)
  · have h2 := ht.twoLevel_of_needsLeaf hneed
    have hi := leafIndex_lt h2 hssid
    have hdesc := ht.own_desc h2 hi
    have hf := frame_withLeaf (hfresh hneed) 0 ((d.master 0).ssid / 1024) p
    have ht' := cdTable_withLeaf ht h2 (hfresh hneed) ((d.master 0).ssid / 1024)
    have hget := @smmuCdtabGetCtxDesc_of_needsLeaf d 0 p leafPtr hp hneed
    have hidle := hneed.2
    obtain ⟨idx, hidx⟩ : ∃ idx, idx = (d.master 0).ssid / 1024 := ⟨_, rfl⟩
    rw [← hidx] at hdesc hf ht' hget hidle
    obtain ⟨d1, hd1⟩ : ∃ d1, d1 = (smmuCdtabGetCtxDesc d 0 leafPtr).2 := ⟨_, rfl⟩
    have hheap : d1.heap = withLeaf d.heap 0 idx p leafPtr := by rw [hd1, hget]
    have hm : d1.master 0 = { d.master 0 with
        l1Desc := update (d.master 0).l1Desc idx
          (some (alignToSize leafPtr (2 ^ 16))) } := by
      simp [hd1, hget]
    rw [← hheap] at hf ht'
    rw [← hm] at ht'
    have haddr := fun ssid => ht.cdAddr_twoLevel hp h2 ssid
    have haddr1 : ∀ ssid, cdAddr (d1.master 0) ssid =
        (update (d.master 0).l1Desc idx (some (alignToSize leafPtr (2 ^ 16)))
          (ssid / 1024)).map (fun q => q + ssid % 1024 * 64) := by
      intro ssid
      rw [ht'.cdAddr_twoLevel (by rw [hm]; exact hp) (by rw [hm]; exact h2), hm]
    refine ⟨alignToSize leafPtr (2 ^ 16) + (d.master 0).ssid % 1024 * 64, d1, ?_, ?_, ?_, ⟨_, hm⟩,
      ht', ?_, ?_, ?_, ?_, ⟨?_, ?_, ?_⟩, ?_⟩
    · rw [hd1, hget]
    · rw [hd1, hget]
    · rw [hd1, hget]
    · rw [haddr1, ← hidx, update_self]
      rfl
    · apply (Heap.Frame.refl _ _).trans hf
      intro x _ hx
      rw [hx]
      exact hdesc
    · intro x hx
      have hne : x ≠ p + idx * 8 := by
        intro heq
        rw [heq, hf.own _ _ hdesc] at hx
        exact hx rfl
      rw [hheap]
      exact Heap.mem_set_of_ne hne _
    · intro hlin
      cases h2.symm.trans hlin
    · intro ssid c' hc'
      have hne : ssid / 1024 ≠ idx := by
        intro heq
        rw [haddr, heq, hidle] at hc'
        cases hc'
      rw [haddr1, update_of_ne hne, ← haddr, hc']
    · intro ssid hnone c' hc'
      rw [haddr1] at hc'
      by_cases heq : ssid / 1024 = idx
      · rw [heq, update_self, map_some, some_inj] at hc'
        exact ⟨hneed, heq.trans hidx, hc'.symm⟩
      · rw [update_of_ne heq, ← haddr, hnone] at hc'
        cases hc'
    · intro _
      rw [hm, ← hidx]
      exact update_self _ _ _
    · intro _ i hi' hnone
      rw [hm] at hnone
      have hne : i ≠ idx := by
        intro heq
        rw [heq] at hnone
        simp only [update_self] at hnone
        cases hnone
      simp only [update_of_ne hne] at hnone
      rw [hheap]
      exact ⟨hnone, Heap.mem_set_of_ne (by omega) _⟩
  · obtain ⟨c, hget, hcd⟩ :=
      smmuCdtabGetCtxDesc_of_not_needsLeaf leafPtr hp (ht.ssid_lt hssid) hneed
    refine ⟨c, d, hget, rfl, rfl, ⟨_, rfl⟩, ht, hcd, .refl _ _, fun _ _ => rfl, fun _ => rfl,
      ⟨fun _ _ h => h, fun ssid hnone c' hc' => ?_, fun h => absurd h hneed⟩,
      fun _ _ _ h => ⟨h, rfl⟩⟩
    rw [hnone] at hc'
    cases hc'

structure AfterMap (smmu : SmmuDev) (sid bits p a leafPtr : Nat) (pgt : PgtDescriptor)
    (d d' : State) : Prop where
  attached : Attached smmu sid bits d' p a
  words : EntryWords d'.heap.mem (d'.master 0) p a
  desc : ∃ c, cdAddr (d'.master 0) (d.master 0).ssid = some c ∧ Descriptor d'.heap.mem c pgt
  added : LeafAdded (d.master 0) (d'.master 0) (d.master 0).ssid leafPtr
  kept : ∀ ssid < 2 ^ bits, ssid ≠ (d.master 0).ssid → ∀ c, cdAddr (d'.master 0) ssid = some c →
    ∀ i < 8, d'.heap.mem (c + 8 * i) = d.heap.mem (c + 8 * i)
  absent : smmu.cdTwoLevel bits = true → ∀ i < 2 ^ (bits - 10), (d'.master 0).l1Desc i = none →
    (d.master 0).l1Desc i = none ∧ d'.heap.mem (p + i * 8) = d.heap.mem (p + i * 8)

section

variable {d' : State} {pgt : PgtDescriptor}

theorem Located.frame {W : Nat → Prop} (hs : smmu.Ok) (hsid : sid < 2 ^ smmu.sidBits)
    (h : Located smmu d sid a) (hf : d.heap.Frame W d'.heap) (hl : d'.level1 = d.level1)
    (hW : smmu.stLevel2lvl = true → ∀ x, d.heap.own x = some .strtab → ¬ W x) :
    Located smmu d' sid a := by
  refine ⟨h.strtab.frame hf, by rw [hl, h.ste], fun h2 q hq => ?_⟩
  rw [hl] at hq
  have ht := h.table h2 q hq
  have hown := own_level1 h.strtab h2 (group_lt hs h2 hsid)
  have hdesc := hf.mem _ (by simp [hown]) (hW h2 _ hown)
  exact ⟨ht.aligned, ht.room, hdesc.trans ht.desc, ht.owns.frame hf⟩

theorem afterMap_write (hs : smmu.Ok) (hsid : sid < 2 ^ smmu.sidBits)
    (h : Attached smmu sid bits d p a) (hssid : (d.master 0).ssid < 2 ^ bits)
    (hfresh : NeedsLeaf (d.master 0) → Fresh d.heap leafPtr (2 ^ 17)) (pgt : PgtDescriptor) :
    AfterMap smmu sid bits p a leafPtr pgt d ((writeContext d 0 leafPtr pgt).writeEntry a
      (some (.stage1 p (d.master 0).s1cdmax (d.master 0).s1fmt))) := by
  have hmax := h.max
  have hssid' : (d.master 0).ssid < 2 ^ (d.master 0).s1cdmax := hmax.symm ▸ hssid
  obtain ⟨c, d1, hpl⟩ := exists_place h.cdTable h.table hssid' hfresh
  obtain ⟨l1Desc, hm⟩ := hpl.master
  have hp1 : (d1.master 0).cdtab64 = some p := by
    rw [hm]
    exact h.table
  have hmax1 : (d1.master 0).s1cdmax = bits := by
    rw [hm]
    exact hmax
  have hloc1 : Located smmu d1 sid a := by
    apply h.located.frame hs hsid hpl.frame hpl.level1
    intro _ x hx hcd
    cases hx.symm.trans hcd
  have hcdown : ∀ ssid < 2 ^ bits, ∀ c', cdAddr (d1.master 0) ssid = some c' → ∀ i < 8,
      CdOwned d1.heap 0 (c' + 8 * i) := by
    intro ssid hlt c' hc' i hi
    exact cdOwned_cd hpl.cdTable hp1 (hmax1.symm ▸ hlt) hc' hi
  -- from here on the state after the call is `d'`, known by its parts
  obtain ⟨cfg, hcfg⟩ : ∃ cfg, cfg = some (StageConfig.stage1 p (d.master 0).s1cdmax
    (d.master 0).s1fmt) := ⟨_, rfl⟩
  obtain ⟨d', hd'⟩ : ∃ d', d' = (writeContext d 0 leafPtr pgt).writeEntry a cfg := ⟨_, rfl⟩
  have hheap : d'.heap = smmuStrtabWriteSte cfg a (withCtxDesc d1.heap c pgt) := by
    rw [hd', writeContext, hpl.get]
    rfl
  have hmaster : d'.master = d1.master ∧ d'.level1 = d1.level1 ∧ d'.count = d1.count := by
    rw [hd', writeContext, hpl.get]
    exact ⟨rfl, rfl, rfl⟩
  obtain ⟨hm', hl', hcount'⟩ := hmaster
  have hf : d1.heap.Frame (fun x => (∃ i < 4, x = c + 8 * i) ∨ ∃ i < 4, x = a + 8 * i) d'.heap := by
    rw [hheap]
    apply ((Heap.Frame.refl _ _).trans (writes_withCtxDesc d1.heap c pgt).frame _).trans
      (writes_writeSte cfg a _).frame
    · exact fun _ _ hx => .inr hx
    · exact fun _ _ hx => .inl hx
  have hentry : ∀ ssid < 2 ^ bits, ∀ c', cdAddr (d1.master 0) ssid = some c' → ∀ i < 8, ∀ j < 4,
      c' + 8 * i ≠ a + 8 * j := by
    intro ssid hlt c' hc' i hi j hj heq
    exact hloc1.not_cdOwned hsid (by omega) 0 (heq ▸ hcdown ssid hlt c' hc' i hi)
  have hown := fun i (hi : i < 8) => own_cd hpl.cdTable hp1 (hmax1.symm ▸ hssid) hpl.desc hi
  rw [← hcfg, ← hd']
  refine ⟨⟨?_, ?_, ?_, ?_, ?_, ?_, ?_⟩, ?_, ?_, ?_, ?_, ?_⟩
  · rw [hcount', hpl.count, h.count]
  · rw [hm', hm]
    exact h.used
  · rw [hm', hm]
    exact h.stream
  · rw [hm', hm]
    exact h.width
  · rw [hm', hp1]
  · rw [hm']
    apply hpl.cdTable.frame hf
    rintro h2 x hx (⟨i, hi, rfl⟩ | ⟨i, hi, rfl⟩)
    · rw [hown i (by omega), h2] at hx
      cases hx
    · exact hloc1.not_cdOwned hsid (by omega) 0 (.inl hx)
  · apply hloc1.frame hs hsid hf hl'
    rintro h2 x hx (⟨i, hi, rfl⟩ | ⟨i, hi, rfl⟩)
    · exact (hcdown _ hssid c hpl.desc i (by omega)).ne_strtab hx
    · rw [hloc1.own_entry hsid (by omega), h2] at hx
      cases hx
  · obtain ⟨hw0, hw1, -⟩ := writeSte_stage1 a p (d.master 0).s1cdmax (d.master 0).s1fmt
      (withCtxDesc d1.heap c pgt)
    rw [hm', hm, hheap, hcfg]
    exact ⟨hw0, hw1⟩
  · obtain ⟨h0, h1, h3⟩ := withCtxDesc_words d1.heap c pgt
    have hout : ∀ i < 8, d'.heap.mem (c + 8 * i) = (withCtxDesc d1.heap c pgt).mem (c + 8 * i) := by
      intro i hi
      rw [hheap]
      exact writeSte_outside (hentry _ hssid c hpl.desc i hi)
    rw [hm']
    exact ⟨c, hpl.desc, (hout 0 (by decide)).trans h0, (hout 1 (by decide)).trans h1,
      (hout 3 (by decide)).trans h3⟩
  · rw [hm']
    exact hpl.added
  · intro ssid hlt hne c' hc' i hi
    rw [hm'] at hc'
    have hlt1 : ssid < 2 ^ (d1.master 0).s1cdmax := hmax1.symm ▸ hlt
    have hother : ¬ ∃ j < 4, c' + 8 * i = c + 8 * j := fun ⟨j, hj, heq⟩ =>
      cd_ne hpl.cdTable hp1 hlt1 (hmax1.symm ▸ hssid) hne hc' hpl.desc hi (by omega) heq
    rw [hheap, writeSte_outside (hentry ssid hlt c' hc' i hi),
      (writes_withCtxDesc _ _ _).mem _ hother]
    cases h2 : smmu.cdTwoLevel (d.master 0).s1cdmax with
    | false => rw [hpl.linear h2]
    | true =>
      apply hpl.mem
      rw [own_cd hpl.cdTable hp1 hlt1 hc' hi, hmax1, ← hmax, h2]
      simp
  · intro h2 i hi hnone
    rw [hm'] at hnone
    rw [← hmax] at h2 hi
    obtain ⟨hold, hmem⟩ := hpl.absent h2 i hi hnone
    rw [hmax, ← hmax1] at h2 hi
    have hdesc := hpl.cdTable.own_desc h2 hi
    refine ⟨hold, (hf.mem _ (by simp [hdesc]) ?_).trans hmem⟩
    rintro (⟨j, hj, heq⟩ | ⟨j, hj, heq⟩)
    · rw [heq, hown j (by omega), h2] at hdesc
      cases hdesc
    · exact hloc1.not_cdOwned hsid (by omega) 0 (.inl (heq ▸ hdesc))

theorem AfterMap.contents (h : AfterMap smmu sid bits p a leafPtr pgt d d')
    (hc : Contents smmu d.heap (d.master 0) p bits table)
    (hclear : NeedsLeaf (d.master 0) → ∀ i < 1024, i ≠ (d.master 0).ssid % 1024 →
      getField 1 31 (d.heap.mem (alignToSize leafPtr (2 ^ 16) + i * 64)) = 0) :
    Contents smmu d'.heap (d'.master 0) p bits (update table (d.master 0).ssid (some pgt)) := by
  refine ⟨fun ssid hlt pgt' ht => ?_, fun ssid hlt ht c hcd => ?_, fun h2 i hi hnone => ?_⟩
  · by_cases hne : ssid = (d.master 0).ssid
    · rw [hne, update_self, some_inj] at ht
      rw [hne, ← ht]
      exact h.desc
    · rw [update_of_ne hne] at ht
      obtain ⟨c, hcd, hdesc⟩ := hc.mapped ssid hlt pgt' ht
      have hkept := h.kept ssid hlt hne c (h.added.old ssid c hcd)
      exact ⟨c, h.added.old ssid c hcd, (hkept 0 (by decide)).trans hdesc.word0,
        (hkept 1 (by decide)).trans hdesc.word1, (hkept 3 (by decide)).trans hdesc.word3⟩
  · have hne : ssid ≠ (d.master 0).ssid := by
      intro heq
      rw [heq, update_self] at ht
      cases ht
    rw [update_of_ne hne] at ht
    have hkept : d'.heap.mem c = d.heap.mem c := h.kept ssid hlt hne c hcd 0 (by decide)
    rw [hkept]
    cases hold : cdAddr (d.master 0) ssid with
    | some c' =>
      cases hcd.symm.trans (h.added.old ssid c' hold)
      exact hc.unmapped ssid hlt ht c hold
    | none =>
      obtain ⟨hneed, hgroup, hc'⟩ := h.added.new ssid hold c hcd
      rw [hc']
      apply hclear hneed
      · omega
      · omega
  · obtain ⟨hold, hmem⟩ := h.absent h2 i hi hnone
    rw [hmem, hc.absent h2 i hi hold]

theorem AfterMap.clear_of_substreams (hs : smmu.Ok)
    (h : AfterMap smmu sid bits p a leafPtr pgt d d') (hat : Attached smmu sid bits d p a)
    (hssid : (d.master 0).ssid < 2 ^ bits) (hc : Contents smmu d.heap (d.master 0) p bits table)
    (hsub : Substreams smmu d'.heap.mem sid bits
      (update table (d.master 0).ssid (some pgt))) (hneed : NeedsLeaf (d.master 0)) {i : Nat}
    (hi : i < 1024) (hne : i ≠ (d.master 0).ssid % 1024) :
    getField 1 31 (d.heap.mem (alignToSize leafPtr (2 ^ 16) + i * 64)) = 0 := by
  have h2 := hat.cdTable.twoLevel_of_needsLeaf hneed
  have hgroup := leafIndex_lt h2 (hat.max.symm ▸ hssid)
  have hpow := twoLevel_pow h2
  rw [hat.max] at hgroup hpow
  obtain ⟨ssid, hslot, hidx⟩ : ∃ ssid, ssid % 1024 = i ∧ ssid / 1024 = (d.master 0).ssid / 1024 :=
    ⟨(d.master 0).ssid / 1024 * 1024 + i, by omega, by omega⟩
  have hlt : ssid < 2 ^ bits := by
    omega
  have hother : ssid ≠ (d.master 0).ssid := by
    intro heq
    rw [heq] at hslot
    exact hne hslot.symm
  have hnone : table ssid = none := by
    by_contra hsome
    obtain ⟨pgt', hpgt'⟩ := ne_none_iff_exists'.mp hsome
    obtain ⟨c, hcd, -⟩ := hc.mapped ssid hlt pgt' hpgt'
    rw [hat.cdTable.cdAddr_twoLevel hat.table h2, hidx, hneed.2] at hcd
    cases hcd
  have hcd : cdAddr (d'.master 0) ssid = some (alignToSize leafPtr (2 ^ 16) + i * 64) := by
    have h2' : smmu.cdTwoLevel (d'.master 0).s1cdmax = true := by
      rw [h.attached.max, ← hat.max]
      exact h2
    rw [h.attached.cdTable.cdAddr_twoLevel h.attached.table h2', hidx, h.added.leaf hneed, hslot]
    rfl
  have hkept := h.kept ssid hlt hother _ hcd 0 (by decide)
  rw [mul_zero, add_zero] at hkept
  rw [← hkept]
  apply hsub.not_valid hs h.attached h.words hlt _ hcd
  rw [update_of_ne hother, hnone]

end

/-! ## The call -/

variable {c : SubMap}

section

variable {d2 : State}

theorem prepareLevel2_master (smmu : SmmuDev) (d : State) (sid l2ptr : Nat) :
    (prepareLevel2 smmu d sid l2ptr).master = d.master ∧
      (prepareLevel2 smmu d sid l2ptr).count = d.count := by
  rw [prepareLevel2]
  split
  · rw [smmuStrtabInitLevel2]
    split <;> exact ⟨rfl, rfl⟩
  · exact ⟨rfl, rfl⟩

def SubMap.prepared (c : SubMap) (smmu : SmmuDev) (d : State) (sid bits : Nat) : State :=
  prepareStage1 smmu (prepareLevel2 smmu (mapState d (c.attr sid bits)) sid c.al.level2) 0
    c.al.cdtab

structure Tabled (smmu : SmmuDev) (sid bits : Nat) (d : State) (c : SubMap)
    (table : Nat → Option PgtDescriptor) (d2 : State) (p a : Nat) : Prop where
  taken : (takeMaster d (c.attr sid bits)).1 = 0
  stream : ((mapState d (c.attr sid bits)).master 0).sid = sid
  attached : Attached smmu sid bits d2 p a
  contents : Contents smmu d2.heap (d2.master 0) p bits table
  ssid : (d2.master 0).ssid = c.ssid
  l1Desc : smmu.cdTwoLevel bits = true → (d2.master 0).l1Desc = (d.master 0).l1Desc
  mem : ∀ x, d2.heap.own x = none → d2.heap.mem x = d.heap.mem x

theorem SubMap.Ok.call_eq (hs : smmu.Ok) (hok : c.Ok smmu d sid bits)
    (hd2 : c.prepared smmu d sid bits = d2) (h : Tabled smmu sid bits d c table d2 p a) :
    sid < 2 ^ smmu.sidBits ∧ (c.call smmu d sid bits).2 =
      (writeContext d2 0 c.al.leaf c.pgt).writeEntry a
        (some (.stage1 p (d2.master 0).s1cdmax (d2.master 0).s1fmt)) ∧
      (NeedsLeaf (d2.master 0) → Fresh d2.heap c.al.leaf (2 ^ 17)) := by
  obtain ⟨hrange, heq⟩ := valSmmuMap_eq_mapStream hok.success
  have halloc := hok.alloc
  have hk := h.taken
  have hsid := h.stream
  have hstage : ((mapState d (c.attr sid bits)).master 0).stage = .s1 := by
    rw [mapState, hk]
    rfl
  have hat := h.attached
  have hssid2 := h.ssid
  rw [hk] at heq halloc
  have hleaf := halloc.leaf hstage
  rw [hsid, ← SubMap.prepared, hd2] at hleaf
  obtain ⟨hmaster, -⟩ := prepareLevel2_master smmu (mapState d (c.attr sid bits)) sid
    c.al.level2
  have hlt : c.ssid < 2 ^ (d2.master 0).s1cdmax := by
    rw [hat.max]
    exact hok.ssid
  have hlt' := hat.cdTable.ssid_lt hlt
  have hst : ((prepareLevel2 smmu (mapState d (c.attr sid bits)) sid
      c.al.level2).master 0).stage = .s1 := by
    rw [hmaster, hstage]
  have hfresh : NeedsLeaf (d2.master 0) → Fresh d2.heap c.al.leaf (2 ^ 17) := by
    intro hneed
    exact hleaf (by rw [hssid2]; exact hlt) hneed
  have hwrite : smmuCdtabWriteCtxDesc d2 0 c.ssid c.al.leaf
      ⟨0, c.pgt.pgtBase, stage1Tcr c.pgt.tcr, c.pgt.mair⟩ =
        some (writeContext d2 0 c.al.leaf c.pgt) := by
    rw [smmuCdtabWriteCtxDesc_eq (by omega), if_pos hlt]
    rfl
  obtain ⟨cd, d1, hpl⟩ := exists_place hat.cdTable hat.table (hssid2.symm ▸ hlt) hfresh
  obtain ⟨l1Desc, hm⟩ := hpl.master
  have hctx : (writeContext d2 0 c.al.leaf c.pgt).master 0 = d1.master 0 ∧
      (writeContext d2 0 c.al.leaf c.pgt).level1 = d1.level1 := by
    rw [writeContext, hpl.get]
    exact ⟨rfl, rfl⟩
  refine ⟨hrange, ?_, hfresh⟩
  rw [SubMap.call, heq, mapStream, if_neg (by omega)]
  simp only [hsid, hst]
  rw [← SubMap.prepared, hd2, hssid2, hwrite]
  simp only [hctx.1, hm]
  rw [hat.stream, hat.table, getD_some, writeStream_eq hs hrange]
  rw [hctx.2, hpl.level1, hat.located.ste]

theorem tabled_again (h : Attached smmu sid bits d p a)
    (hc : Contents smmu d.heap (d.master 0) p bits table) (c : SubMap) :
    Tabled smmu sid bits d c table (c.prepared smmu d sid bits) p a := by
  have hat : smmuMasterAt d sid = (0, d) := by
    rw [smmuMasterAt, h.count, findMaster, if_pos h.stream]
  have htake : takeMaster d (c.attr sid bits) = (0, d) := by
    rw [takeMaster, hat]
    simp [h.used]
  -- but for the stage and the substream of the master the state is the one before
  have hstate : mapState d (c.attr sid bits) = { d with
      master := update d.master 0 { d.master 0 with stage := .s1, ssid := c.ssid } } := by
    rw [mapState, htake]
    rfl
  have hlevel2 : prepareLevel2 smmu (mapState d (c.attr sid bits)) sid c.al.level2 =
      mapState d (c.attr sid bits) := by
    rw [prepareLevel2]
    split_ifs with h2
    · have hste := h.located.ste
      rw [steOf, if_pos h2] at hste
      obtain ⟨q, hq, -⟩ := map_eq_some_iff.mp hste
      rw [hstate, smmuStrtabInitLevel2, shiftRight_split, hq]
    · rfl
  have ht := h.cdTable
  have hprep : c.prepared smmu d sid bits = mapState d (c.attr sid bits) := by
    rw [SubMap.prepared, hlevel2, hstate]
    exact prepareStage1_of_table
      ⟨ht.aligned, ht.room, ht.max, ht.fits, ht.fmt, ht.owns, ht.leaf⟩ h.table
  refine ⟨by rw [htake], by rw [hstate]; exact h.stream, ?_, ?_, ?_, ?_, ?_⟩
  all_goals rw [hprep, hstate]
  · exact ⟨h.count, h.used, h.stream, h.width, h.table,
      ⟨ht.aligned, ht.room, ht.max, ht.fits, ht.fmt, ht.owns, ht.leaf⟩,
      h.located.strtab, h.located.ste, h.located.table⟩
  · exact ⟨hc.mapped, hc.unmapped, hc.absent⟩
  · rfl
  · exact fun _ => rfl
  · exact fun _ _ => rfl

theorem located_prepareLevel2 (hs : smmu.Ok) (hsid : sid < 2 ^ smmu.sidBits)
    (hstrtab : d.heap.Owns .strtab smmu.strtab64 smmu.strtabWords)
    (hnone : d.level1 (sid / 256) = none) {l2ptr : Nat}
    (hfresh : smmu.stLevel2lvl = true → Fresh d.heap l2ptr (2 ^ 15)) :
    (∃ a, Located smmu (prepareLevel2 smmu d sid l2ptr) sid a) ∧
      ∀ x, (prepareLevel2 smmu d sid l2ptr).heap.own x = none →
        (prepareLevel2 smmu d sid l2ptr).heap.mem x = d.heap.mem x := by
  rw [prepareLevel2]
  cases h2 : smmu.stLevel2lvl with
  | false =>
    refine ⟨⟨smmu.strtab64 + sid * 64, hstrtab, ?_, fun h => ?_⟩, fun _ _ => rfl⟩
    · rw [steOf, h2, if_neg (by decide)]
    · cases h2.symm.trans h
  | true =>
    have hf := frame_withLevel2 smmu (hfresh h2) (sid / 256)
    have hdst := own_level1 hstrtab h2 (group_lt hs h2 hsid)
    rw [if_pos rfl, smmuStrtabInitLevel2_of_none hnone]
    refine ⟨⟨alignToSize l2ptr (2 ^ 14) + sid % 256 * 64, hstrtab.frame hf, ?_, fun _ q hq => ?_⟩,
      fun x hx => mem_withLevel2_of_free (hfresh h2).room (by simp [hdst]) hx⟩
    · rw [steOf_update h2, if_pos rfl]
    · simp only [update_self, some_inj] at hq
      rw [← hq]
      exact level2Table_withLevel2 smmu (hfresh h2) (sid / 256)

theorem contents_withCdtab {h : Heap Owner} {m : Master} {ptr : Nat} (hbits : m.ssidBits ≤ 20)
    (hfresh : CdtabFresh smmu h m.ssidBits ptr) :
    Contents smmu (calloc h 2 (smmu.cdtabSize m.ssidBits) ptr (.cdtab 0))
      (withCdtab smmu m (alignToSize ptr (smmu.cdtabSize m.ssidBits)))
      (alignToSize ptr (smmu.cdtabSize m.ssidBits)) m.ssidBits (fun _ => none) := by
  have ht := @cdTable_withCdtab smmu 0 h ptr m hbits hfresh
  have hroom := hfresh.fresh.room
  obtain ⟨n, hn, hsize⟩ := cdtabSize_eq smmu hbits
  have hmod := cdtabSize_mod smmu hbits
  rw [hsize] at hroom
  obtain ⟨hlo, hhi, -⟩ := alignToSize_bounds (by omega) hroom
  rw [← hsize] at hlo hhi
  have hzero : ∀ x, alignToSize ptr (smmu.cdtabSize m.ssidBits) ≤ x →
      x < alignToSize ptr (smmu.cdtabSize m.ssidBits) + smmu.cdtabSize m.ssidBits →
      (calloc h 2 (smmu.cdtabSize m.ssidBits) ptr (.cdtab 0)).mem x = 0 := by
    intro x hx hx'
    exact Heap.mem_zero_inside (by omega)
  refine ⟨fun _ _ _ h => ?_, fun ssid hlt _ c hcd => ?_, fun h2 i hi _ => ?_⟩
  · cases h
  · cases h2 : smmu.cdTwoLevel m.ssidBits with
    | false =>
      rw [ht.cdAddr_linear rfl h2, some_inj] at hcd
      have hsize' : smmu.cdtabSize m.ssidBits = 2 ^ m.ssidBits * 64 := by
        rw [SmmuDev.cdtabSize, h2, Nat.one_shiftLeft]
        rfl
      rw [hzero c (by omega) (by omega)]
      decide
    | true =>
      rw [withCdtab, h2] at hcd
      cases hcd
  · have hwords := cdtabWords_twoLevel h2
    exact hzero _ (by omega) (by omega)

theorem tabled_first (hs : smmu.Ok) (hbits : bits ≤ 20) (mem : Nat → Nat)
    (hok : c.Ok smmu (start smmu mem).dev sid bits) :
    ∃ p a, Tabled smmu sid bits (start smmu mem).dev c (fun _ => none)
      (c.prepared smmu (start smmu mem).dev sid bits) p a := by
  have halloc := hok.alloc
  have haligned := hok.aligned rfl
  obtain ⟨hsid, -⟩ := valSmmuMap_eq_mapStream hok.success
  have hstrtab : (start smmu mem).dev.heap.Owns .strtab smmu.strtab64 smmu.strtabWords :=
    strtab_strtabInit hs _
  have hk : (takeMaster (start smmu mem).dev (c.attr sid bits)).1 = 0 := rfl
  obtain ⟨e, he⟩ : ∃ e, mapState (start smmu mem).dev (c.attr sid bits) = e := ⟨_, rfl⟩
  have hm : e.master 0 = ⟨true, .s1, none, fun _ => none, 0, 0, sid, c.ssid, bits⟩ := by
    simp [← he, mapState, takeMaster, smmuMasterAt, start, smmuStrtabInit, findMaster, setStage,
      State.setMaster, Master.zero]
  obtain ⟨hheap, hlevel1, hcount⟩ :
      e.heap = (start smmu mem).dev.heap ∧ e.level1 = (fun _ => none) ∧ e.count = 1 := by
    rw [← he]
    exact ⟨rfl, rfl, rfl⟩
  have hl1 : ((start smmu mem).dev.master 0).l1Desc = fun _ => none := rfl
  rw [hk, he] at halloc
  rw [← hheap] at hstrtab
  rw [SubMap.prepared, he]
  have hfresh2 : smmu.stLevel2lvl = true → Fresh e.heap c.al.level2 (2 ^ 15) := by
    intro h2
    exact halloc.level2 h2 (by rw [hlevel1])
  have hfresh1 := halloc.cdtab (by rw [hm]) (by rw [hm])
  obtain ⟨⟨a, hloc⟩, hfree⟩ := located_prepareLevel2 hs hsid hstrtab (by rw [hlevel1]) hfresh2
  obtain ⟨hmaster, hcount1⟩ := prepareLevel2_master smmu e sid c.al.level2
  rw [hm] at hfresh1
  generalize prepareLevel2 smmu e sid c.al.level2 = e1 at *
  have hm1 : e1.master 0 = ⟨true, .s1, none, fun _ => none, 0, 0, sid, c.ssid, bits⟩ := by
    rw [hmaster, hm]
  have hwidth : (e1.master 0).ssidBits = bits := by rw [hm1]
  have hnew : CdtabFresh smmu e1.heap (e1.master 0).ssidBits c.al.cdtab := by
    rw [hwidth]
    exact ⟨hfresh1, haligned⟩
  have hbits1 : (e1.master 0).ssidBits ≤ 20 := hwidth.symm ▸ hbits
  have ht := @cdTable_withCdtab smmu 0 _ c.al.cdtab _ hbits1 hnew
  have hcont := contents_withCdtab hbits1 hnew
  have hf := @CdtabFresh.frame smmu 0 _ c.al.cdtab _ hbits1 hnew fun _ => False
  have hd2 := @prepareStage1_of_none smmu e1 0 c.al.cdtab hbits1 (by rw [hm1])
  generalize hh : calloc e1.heap 2 (smmu.cdtabSize (e1.master 0).ssidBits) c.al.cdtab
    (.cdtab 0) = h2 at *
  obtain ⟨p, hp⟩ : ∃ p, p = alignToSize c.al.cdtab (smmu.cdtabSize (e1.master 0).ssidBits) :=
    ⟨_, rfl⟩
  rw [← hp] at ht hcont hd2
  obtain ⟨d2, hd2'⟩ : ∃ d2, d2 = prepareStage1 smmu e1 0 c.al.cdtab := ⟨_, rfl⟩
  have hheap2 : d2.heap = h2 := by rw [hd2', hd2]
  have hm2 : d2.master 0 = withCdtab smmu (e1.master 0) p := by
    simp [hd2', hd2]
  have hsame : d2.level1 = e1.level1 ∧ d2.count = e1.count := by
    rw [hd2', hd2]
    exact ⟨rfl, rfl⟩
  rw [← hd2']
  refine ⟨p, a, hk, by rw [he, hm], ⟨?_, ?_, ?_, ?_, ?_, ?_, ?_⟩, ?_, ?_, ?_, ?_⟩
  · rw [hsame.2, hcount1, hcount]
  · rw [hm2, withCdtab, hm1]
  · rw [hm2, withCdtab, hm1]
  · rw [hm2, withCdtab, hm1]
  · rw [hm2, withCdtab]
  · rw [hm2, hheap2]
    exact ht
  · rw [← hheap2] at hf
    exact hloc.frame hs hsid hf hsame.1 fun _ _ _ h => h
  · rw [hm2, hheap2, ← hwidth]
    exact hcont
  · rw [hm2, withCdtab, hm1]
  · intro h2
    rw [hl1, hm2, withCdtab, hwidth, h2, if_pos rfl]
  · intro x hx
    rw [hheap2] at hx ⊢
    have hx1 : e1.heap.own x = none := by
      by_contra hsome
      obtain ⟨o, ho⟩ := ne_none_iff_exists'.mp hsome
      cases (hf.own x o ho).symm.trans hx
    rw [← hheap, ← hfree x hx1, ← hh]
    apply Heap.mem_zero_outside
    intro hin
    rw [← hh, calloc, Heap.own_zero, Heap.own_claim_inside hin.1 hin.2] at hx
    cases hx

/-- Whether the call needs a leaf table, and what the memory for it holds, is known before. -/
theorem Tabled.leafClear_iff (h : Tabled smmu sid bits d c table d2 p a)
    (hfresh : NeedsLeaf (d2.master 0) → Fresh d2.heap c.al.leaf (2 ^ 17)) :
    c.LeafClear smmu d bits ↔ (NeedsLeaf (d2.master 0) → ∀ i < 1024,
      i ≠ (d2.master 0).ssid % 1024 →
        getField 1 31 (d2.heap.mem (alignToSize c.al.leaf (2 ^ 16) + i * 64)) = 0) := by
  have hmem : NeedsLeaf (d2.master 0) → ∀ i < 1024,
      d2.heap.mem (alignToSize c.al.leaf (2 ^ 16) + i * 64) =
        d.heap.mem (alignToSize c.al.leaf (2 ^ 16) + i * 64) := by
    intro hneed i hi
    have hroom : c.al.leaf + 2 * 2 ^ 16 ≤ 2 ^ 52 := (hfresh hneed).room
    obtain ⟨hlo, hhi, -⟩ := alignToSize_bounds (by decide) hroom
    apply h.mem
    apply (hfresh hneed).free
    · omega
    · omega
  have hmax := h.attached.max
  rw [h.ssid]
  constructor
  · intro hclear hneed i hi hne
    have h2 := h.attached.cdTable.twoLevel_of_needsLeaf hneed
    rw [hmax] at h2
    have hnone := hneed.2
    rw [h.ssid, h.l1Desc h2] at hnone
    rw [hmem hneed i hi]
    exact hclear h2 hnone i hi hne
  · intro hclear h2 hnone i hi hne
    have hneed : NeedsLeaf (d2.master 0) := by
      refine ⟨h.attached.cdTable.fmt_twoLevel (hmax.symm ▸ h2), ?_⟩
      rw [h.ssid, h.l1Desc h2, hnone]
    rw [← hmem hneed i hi]
    exact hclear hneed i hi hne

end

section

variable {mem : Nat → Nat}

def Mapping (smmu : SmmuDev) (sid bits : Nat) (d : State) (table : Nat → Option PgtDescriptor) :
    Prop :=
  ∃ p a, Attached smmu sid bits d p a ∧ EntryWords d.heap.mem (d.master 0) p a ∧
    Contents smmu d.heap (d.master 0) p bits table

/-- What a call does in a state where its stream is not mapped yet, or has its tables. -/
theorem afterMap_call (hs : smmu.Ok) (hbits : bits ≤ 20) (hok : c.Ok smmu d sid bits)
    (h : (d = (start smmu mem).dev ∧ table = fun _ => none) ∨ Mapping smmu sid bits d table) :
    ∃ d2 p a, Tabled smmu sid bits d c table d2 p a ∧
      (NeedsLeaf (d2.master 0) → Fresh d2.heap c.al.leaf (2 ^ 17)) ∧
      AfterMap smmu sid bits p a c.al.leaf c.pgt d2 (c.call smmu d sid bits).2 := by
  obtain ⟨p, a, htab⟩ : ∃ p a, Tabled smmu sid bits d c table (c.prepared smmu d sid bits) p a := by
    obtain ⟨rfl, rfl⟩ | ⟨p, a, hat, -, hcont⟩ := h
    · exact tabled_first hs hbits mem hok
    · exact ⟨p, a, tabled_again hat hcont c⟩
  obtain ⟨hsid, hcall, hfresh⟩ := hok.call_eq hs rfl htab
  refine ⟨_, p, a, htab, hfresh, ?_⟩
  rw [hcall]
  apply afterMap_write hs hsid htab.attached _ hfresh
  rw [htab.ssid]
  exact hok.ssid

theorem SubRun.mapping (hs : smmu.Ok) (hbits : bits ≤ 20) (h : SubRun smmu mem sid bits d table) :
    (d = (Smmu.start smmu mem).dev ∧ table = fun _ => none) ∨ Mapping smmu sid bits d table := by
  induction h with
  | start => exact .inl ⟨rfl, rfl⟩
  | map run ok clear ih =>
    right
    obtain ⟨d2, p, a, htab, hfresh, hafter⟩ := afterMap_call hs hbits ok ih
    have hcont := hafter.contents htab.contents ((htab.leafClear_iff hfresh).mp clear)
    rw [htab.ssid] at hcont
    exact ⟨p, a, hafter.attached, hafter.words, hcont⟩

/-- The SMMU finds the descriptors of the maps and no others exactly if the memory for a leaf
table that the last map needs has none. -/
theorem substreams_iff_leafClear (hs : smmu.Ok) (hbits : bits ≤ 20)
    (run : SubRun smmu mem sid bits d table) (ok : c.Ok smmu d sid bits) :
    Substreams smmu (c.call smmu d sid bits).2.heap.mem sid bits
        (update table c.ssid (some c.pgt)) ↔ c.LeafClear smmu d bits := by
  obtain ⟨d2, p, a, htab, hfresh, hafter⟩ := afterMap_call hs hbits ok (run.mapping hs hbits)
  rw [htab.leafClear_iff hfresh, ← htab.ssid]
  constructor
  · intro hsub hneed i hi hne
    apply hafter.clear_of_substreams hs htab.attached _ htab.contents hsub hneed hi hne
    rw [htab.ssid]
    exact ok.ssid
  · intro hclear
    exact substreams_of_contents hs hafter.attached hafter.words
      (hafter.contents htab.contents hclear)

end

/-! ## Memory that is not clear -/

def leafSmmu : SmmuDev := ⟨2, false, true, true, true, 0x1000⟩

def leafMap : SubMap := ⟨0, samplePgt, ⟨0, 0x2000, 0x20000⟩⟩

theorem leafMap_ok (mem : Nat → Nat)
    (h : (leafMap.call leafSmmu (start leafSmmu mem).dev 1 13).1 = 0) :
    leafMap.Ok leafSmmu (start leafSmmu mem).dev 1 13 := by
  have hsize : 0x1000 + 2 * leafSmmu.strtabSize % 2 ^ 32 ≤ 0x2000 := by decide
  have hfree : ∀ x, 0x2000 ≤ x → (start leafSmmu mem).dev.heap.own x = none := by
    intro x hx
    rw [own_start, if_neg]
    intro hin
    exact absurd (hin.2.trans_le hsize) (not_lt.mpr hx)
  have hroom : 0x2000 + 2 * leafSmmu.cdtabSize 13 ≤ 2 ^ 52 := by decide
  refine ⟨by decide, h, ⟨fun h => ?_, fun _ _ => ⟨fun x hlo _ => hfree x hlo, hroom⟩,
    fun _ _ _ => ⟨fun x hlo _ => ?_, by decide⟩⟩, fun _ => by decide⟩
  · cases h
  · have hcdtab : 0x2000 + 2 * leafSmmu.cdtabSize 13 % 2 ^ 32 ≤ 0x20000 := by decide
    show (if 0x2000 ≤ x ∧ x < 0x2000 + 2 * leafSmmu.cdtabSize 13 % 2 ^ 32 then some (Owner.cdtab 0)
      else (start leafSmmu mem).dev.heap.own x) = none
    have hlo : 0x20000 ≤ x := hlo
    rw [if_neg (by omega), hfree x (by omega)]

/-- In clear memory no other substream has a descriptor. -/
theorem substreams_clear_memory : leafMap.Ok leafSmmu (start leafSmmu (fun _ => 0)).dev 1 13 ∧
    Substreams leafSmmu (leafMap.call leafSmmu (start leafSmmu (fun _ => 0)).dev 1 13).2.heap.mem 1
      13 (update (fun _ => none) 0 (some samplePgt)) := by
  have hok := leafMap_ok (fun _ => 0) (by decide)
  have hsmmu : leafSmmu.Ok := ⟨by decide, by decide, by decide, by decide⟩
  refine ⟨hok, (substreams_iff_leafClear hsmmu (by decide) .start hok).mpr ?_⟩
  intro _ _ i _ _
  have hleaf : alignToSize leafMap.al.leaf (2 ^ 16) = 0x30000 := by decide
  have htable : leafSmmu.strtab64 + leafSmmu.l1EntCount * 64 ≤ 0x2000 := by decide
  have hend : leafSmmu.strtabPtr + 2 * leafSmmu.strtabSize % 2 ^ 32 ≤ 0x2000 := by decide
  have hmem : (start leafSmmu (fun _ => 0)).dev.heap.mem (0x30000 + i * 64) = 0 := by
    show (abortEntries leafSmmu.strtab64 leafSmmu.l1EntCount (calloc _ 2 leafSmmu.strtabSize
      leafSmmu.strtabPtr .strtab)).mem (0x30000 + i * 64) = 0
    rw [abortEntries_outside (by omega), calloc, Heap.mem_zero_outside (by omega)]
    rfl
  rw [hleaf, hmem]
  decide

/-- In other memory the SMMU finds a descriptor for substream 5, which was never mapped. -/
theorem unmapped_substream_valid :
    leafMap.Ok leafSmmu (start leafSmmu (fun _ => 2 ^ 31)).dev 1 13 ∧
      ¬ Substreams leafSmmu
        (leafMap.call leafSmmu (start leafSmmu (fun _ => 2 ^ 31)).dev 1 13).2.heap.mem 1 13
        (update (fun _ => none) 0 (some samplePgt)) := by
  refine ⟨leafMap_ok (fun _ => 2 ^ 31) (by decide), fun h => ?_⟩
  obtain ⟨ste, hfetch, -, hall⟩ := h
  have hnone :
      fetchCd (leafMap.call leafSmmu (start leafSmmu (fun _ => 2 ^ 31)).dev 1 13).2.heap.mem
      ste 5 = none := hall 5 (by decide)
  have hvalid : ((fetch leafSmmu
      (leafMap.call leafSmmu (start leafSmmu (fun _ => 2 ^ 31)).dev 1 13).2.heap.mem 1).bind
      (fun ste =>
        fetchCd (leafMap.call leafSmmu (start leafSmmu (fun _ => 2 ^ 31)).dev 1 13).2.heap.mem
        ste 5)).isSome = true := by
    decide +kernel
  rw [hfetch, bind_some, hnone] at hvalid
  cases hvalid

end ServerSoc.Smmu
