/-
Going through all functions with val_pcie_increment_bdf (acs_pcie.c).

The function looks for the ECAM entry of the BDF in every step, from the end of the table and by
segment only, so with several windows in one segment it always goes by the last of them.
-/
import ServerSoc.Base.Chain
import ServerSoc.Pcie.BdfTable

namespace ServerSoc.Pcie

open Base List Nat

/-- The loop `while (ecam_cnt--)`. -/
def findEcamIndex (t : Option (List PcieInfoBlock)) (seg : Nat) : Nat → Option Nat
  | 0 => none
  | ecamCnt + 1 =>
    if seg = valPcieGetInfo t .segment ecamCnt then some ecamCnt else findEcamIndex t seg ecamCnt

def valPcieIncrementBdf (t : Option (List PcieInfoBlock)) (bdf : Nat) : Nat :=
  let seg := pcieExtractBdfSeg bdf
  let bus := pcieExtractBdfBus bdf
  let dev := pcieExtractBdfDev bdf
  let func := pcieExtractBdfFunc bdf
  match findEcamIndex t seg (valPcieGetInfo t .numEcam 0) with
  | none => 0
  | some ecamIndex =>
    if func < pcieMaxFunc - 1 then pcieCreateBdf seg bus dev (func + 1)
    else if dev < pcieMaxDev - 1 then pcieCreateBdf seg bus (dev + 1) 0
    else if bus < valPcieGetInfo t .endBus ecamIndex then pcieCreateBdf seg (bus + 1) 0 0
    else if ecamIndex + 1 < valPcieGetInfo t .numEcam 0 then
      pcieCreateBdf (valPcieGetInfo t .segment (ecamIndex + 1))
        (valPcieGetInfo t .startBus (ecamIndex + 1)) 0 0
    else 0

def firstBdf (blocks : List PcieInfoBlock) : Nat :=
  pcieCreateBdf (blockAt blocks 0).segmentNum (blockAt blocks 0).startBusNum 0 0

/-- From the first BDF on until it returns 0, the function visits every function of every
window, in the order of the table and once. -/
def VisitsAll (blocks : List PcieInfoBlock) : Prop :=
  ∃ rest, Chain (valPcieIncrementBdf (some blocks))
      (valPcieIncrementBdf (some blocks) (firstBdf blocks)) rest ∧
    firstBdf blocks :: rest = (slots blocks).map Slot.bdf ∧ ((slots blocks).map Slot.bdf).Nodup

/-- Windows of one segment follow each other in the table, each from the bus behind the end of
the one before, and segment 0 from bus 0 on is not behind another window. -/
def InBusOrder (blocks : List PcieInfoBlock) : Prop :=
  ∀ i, i + 1 < blocks.length →
    ((∀ j, i < j → j < blocks.length →
        (blockAt blocks j).segmentNum ≠ (blockAt blocks i).segmentNum) ∨
      ((blockAt blocks (i + 1)).segmentNum = (blockAt blocks i).segmentNum ∧
        (blockAt blocks (i + 1)).startBusNum = (blockAt blocks i).endBusNum + 1)) ∧
    ¬((blockAt blocks (i + 1)).segmentNum = 0 ∧ (blockAt blocks (i + 1)).startBusNum = 0)

/-- Windows with a segment that fits in a BDF and with at least one bus, none shared. -/
structure WindowTable (blocks : List PcieInfoBlock) : Prop extends InfoTable blocks where
  segments_lt : ∀ b ∈ blocks, b.segmentNum < 256
  nonempty : ∀ b ∈ blocks, b.startBusNum ≤ b.endBusNum

/-! ## The entry the search finds -/

variable {blocks : List PcieInfoBlock} {i l : Nat}

theorem segment_eq (i : Nat) :
    valPcieGetInfo (some blocks) .segment i = (blockAt blocks i).segmentNum :=
  (valPcieGetInfo_blockAt blocks i).2.1

theorem startBus_eq (i : Nat) :
    valPcieGetInfo (some blocks) .startBus i = (blockAt blocks i).startBusNum :=
  (valPcieGetInfo_blockAt blocks i).2.2.1

theorem endBus_eq (i : Nat) :
    valPcieGetInfo (some blocks) .endBus i = (blockAt blocks i).endBusNum :=
  (valPcieGetInfo_blockAt blocks i).2.2.2

structure LastEntry (blocks : List PcieInfoBlock) (i l : Nat) : Prop where
  le : i ≤ l
  lt : l < blocks.length
  segment : (blockAt blocks l).segmentNum = (blockAt blocks i).segmentNum
  last : ∀ j, l < j → j < blocks.length →
    (blockAt blocks j).segmentNum ≠ (blockAt blocks i).segmentNum

theorem findEcamIndex_eq (hi : i < blocks.length) :
    ∃ l, LastEntry blocks i l ∧
      findEcamIndex (some blocks) (blockAt blocks i).segmentNum blocks.length = some l := by
  -- entries above `cnt` have other segments
  suffices h : ∀ cnt, i < cnt → cnt ≤ blocks.length →
      (∀ j, cnt ≤ j → j < blocks.length →
        (blockAt blocks j).segmentNum ≠ (blockAt blocks i).segmentNum) →
      ∃ l, LastEntry blocks i l ∧
        findEcamIndex (some blocks) (blockAt blocks i).segmentNum cnt = some l from
    h blocks.length hi le_rfl fun j h1 h2 => absurd h2 (not_lt.mpr h1)
  intro cnt
  induction cnt with
  | zero => exact fun h => absurd h (not_lt_zero i)
  | succ cnt ih =>
    intro hic hcn habove
    rw [findEcamIndex, segment_eq]
    by_cases hseg : (blockAt blocks i).segmentNum = (blockAt blocks cnt).segmentNum
    · exact ⟨cnt, ⟨by omega, by omega, hseg.symm, fun j h1 h2 => habove j (by omega) h2⟩,
        if_pos hseg⟩
    · rw [if_neg hseg]
      have hne : i ≠ cnt := by
        rintro rfl
        exact hseg rfl
      refine ih (by omega) (by omega) fun j h1 h2 => ?_
      rcases eq_or_lt_of_le h1 with rfl | h1
      · exact fun h => hseg h.symm
      · exact habove j (by omega) h2

section

variable (h : LastEntry blocks i l)
include h

theorem LastEntry.unique {l' : Nat} (h' : LastEntry blocks i l') : l = l' := by
  rcases lt_trichotomy l l' with hlt | heq | hlt
  · exact absurd h'.segment (h.last l' hlt h'.lt)
  · exact heq
  · exact absurd h.segment (h'.last l hlt h.lt)

theorem LastEntry.eq_iff :
    l = i ↔ ∀ j, i < j → j < blocks.length →
      (blockAt blocks j).segmentNum ≠ (blockAt blocks i).segmentNum := by
  constructor
  · rintro rfl
    exact h.last
  · intro hlast
    by_contra hne
    have hle := h.le
    exact hlast l (by omega) h.lt h.segment

theorem LastEntry.succ (hne : l ≠ i)
    (hseg : (blockAt blocks (i + 1)).segmentNum = (blockAt blocks i).segmentNum) :
    LastEntry blocks (i + 1) l := by
  have hle := h.le
  exact ⟨by omega, h.lt, h.segment.trans hseg.symm, fun j h1 h2 => hseg ▸ h.last j h1 h2⟩

end

/-! ## One step -/

def startBdf (b : PcieInfoBlock) : Nat := pcieCreateBdf b.segmentNum b.startBusNum 0 0

def endBdf (b : PcieInfoBlock) : Nat := pcieCreateBdf b.segmentNum b.endBusNum 31 7

variable {bus : Nat}

section

variable {dev func seg : Nat}

theorem blockAt_mem (hi : i < blocks.length) : blockAt blocks i ∈ blocks := by
  rw [blockAt, getD_eq_getElem _ _ hi]
  exact getElem_mem hi

theorem valPcieIncrementBdf_eq (ht : WindowTable blocks) (hl : LastEntry blocks i l)
    (hi : i < blocks.length) (hb : bus < 256) (hd : dev < 32) (hf : func < 8) :
    valPcieIncrementBdf (some blocks) (pcieCreateBdf (blockAt blocks i).segmentNum bus dev func) =
      if func < 7 then pcieCreateBdf (blockAt blocks i).segmentNum bus dev (func + 1)
      else if dev < 31 then pcieCreateBdf (blockAt blocks i).segmentNum bus (dev + 1) 0
      else if bus < (blockAt blocks l).endBusNum then
        pcieCreateBdf (blockAt blocks i).segmentNum (bus + 1) 0 0
      else if l + 1 < blocks.length then startBdf (blockAt blocks (l + 1))
      else 0 := by
  obtain ⟨hseg, hbus, hdev, hfunc⟩ := pcieCreateBdf_fields (ht.segments_lt _ (blockAt_mem hi)) hb
    (show dev < 256 by omega) (show func < 256 by omega)
  obtain ⟨l', hl', hfind⟩ := findEcamIndex_eq hi
  obtain rfl := hl.unique hl'
  simp only [valPcieIncrementBdf, hseg, hbus, hdev, hfunc, valPcieGetInfo_numEcam, hfind,
    segment_eq, startBus_eq, endBus_eq]
  rfl

theorem pcieCreateBdf_inj {seg' bus' : Nat} (hs : seg < 256) (hs' : seg' < 256) (hb : bus < 256)
    (hb' : bus' < 256) :
    pcieCreateBdf seg bus 0 0 = pcieCreateBdf seg' bus' 0 0 ↔ seg = seg' ∧ bus = bus' := by
  rw [pcieCreateBdf_eq _ _ _ (by decide), pcieCreateBdf_eq _ _ _ (by decide)]
  omega

theorem pcieCreateBdf_eq_zero (hs : seg < 256) (hb : bus < 256) :
    pcieCreateBdf seg bus 0 0 = 0 ↔ seg = 0 ∧ bus = 0 := by
  rw [pcieCreateBdf_eq _ _ _ (by decide)]
  omega

def Next (blocks : List PcieInfoBlock) (x y : Nat) : Prop :=
  valPcieIncrementBdf (some blocks) x = y ∧ y ≠ 0

section

variable (ht : WindowTable blocks)
include ht

theorem next_func (hi : i < blocks.length) (hb : bus < 256) (hd : dev < 32) (hf : func + 1 < 8) :
    Next blocks (pcieCreateBdf (blockAt blocks i).segmentNum bus dev func)
      (pcieCreateBdf (blockAt blocks i).segmentNum bus dev (func + 1)) := by
  obtain ⟨l, hl, -⟩ := findEcamIndex_eq hi
  refine ⟨?_, ?_⟩
  · rw [valPcieIncrementBdf_eq ht hl hi hb hd (by omega), if_pos (by omega)]
  · rw [pcieCreateBdf_eq _ _ _ (by omega)]
    omega

theorem next_dev (hi : i < blocks.length) (hb : bus < 256) (hd : dev + 1 < 32) :
    Next blocks (pcieCreateBdf (blockAt blocks i).segmentNum bus dev 7)
      (pcieCreateBdf (blockAt blocks i).segmentNum bus (dev + 1) 0) := by
  obtain ⟨l, hl, -⟩ := findEcamIndex_eq hi
  refine ⟨?_, ?_⟩
  · rw [valPcieIncrementBdf_eq ht hl hi hb (by omega) (by omega), if_neg (by omega),
      if_pos (by omega)]
  · rw [pcieCreateBdf_eq _ _ _ (by omega)]
    omega

theorem valPcieIncrementBdf_last (hl : LastEntry blocks i l)
    (hi : i < blocks.length) (hb : bus < 256) :
    valPcieIncrementBdf (some blocks) (pcieCreateBdf (blockAt blocks i).segmentNum bus 31 7) =
      if bus < (blockAt blocks l).endBusNum then
        pcieCreateBdf (blockAt blocks i).segmentNum (bus + 1) 0 0
      else if l + 1 < blocks.length then startBdf (blockAt blocks (l + 1))
      else 0 := by
  rw [valPcieIncrementBdf_eq ht hl hi hb (by omega) (by omega), if_neg (by omega),
    if_neg (by omega)]

section

variable (hi : i < blocks.length)
include hi

theorem WindowTable.endBus_lt : (blockAt blocks i).endBusNum < 256 := ht.buses _ (blockAt_mem hi)

theorem WindowTable.startBus_lt : (blockAt blocks i).startBusNum < 256 :=
  (ht.nonempty _ (blockAt_mem hi)).trans_lt (ht.endBus_lt hi)

theorem WindowTable.segment_lt :
    (blockAt blocks i).segmentNum < 256 := ht.segments_lt _ (blockAt_mem hi)

theorem WindowTable.index_eq {j : Nat}
    (hj : j < blocks.length) (hseg : (blockAt blocks i).segmentNum = (blockAt blocks j).segmentNum)
    (hi1 : (blockAt blocks i).startBusNum ≤ bus) (hi2 : bus ≤ (blockAt blocks i).endBusNum)
    (hj1 : (blockAt blocks j).startBusNum ≤ bus) (hj2 : bus ≤ (blockAt blocks j).endBusNum) :
    i = j := by
  have hdis := pairwise_iff_getElem.mp ht.disjoint
  simp only [blockAt, getD_eq_getElem _ _ hi, getD_eq_getElem _ _ hj] at *
  rcases lt_trichotomy i j with hij | rfl | hij
  · exact absurd ⟨hi1, hi2, hj1, hj2⟩ (hdis i j hi hj hij hseg bus)
  · rfl
  · exact absurd ⟨hj1, hj2, hi1, hi2⟩ (hdis j i hj hi hij hseg.symm bus)

end

/-- The step from an entry to the next is right when the search found this entry, or when the
next one goes on with the buses. -/
theorem next_entry_iff (hl : LastEntry blocks i l) (hi : i + 1 < blocks.length) :
    Next blocks (endBdf (blockAt blocks i)) (startBdf (blockAt blocks (i + 1))) ↔
      (l = i ∨ ((blockAt blocks i).endBusNum < (blockAt blocks l).endBusNum ∧
        (blockAt blocks (i + 1)).segmentNum = (blockAt blocks i).segmentNum ∧
        (blockAt blocks (i + 1)).startBusNum = (blockAt blocks i).endBusNum + 1)) ∧
      ¬((blockAt blocks (i + 1)).segmentNum = 0 ∧ (blockAt blocks (i + 1)).startBusNum = 0) := by
  have hi0 : i < blocks.length := by omega
  have hs := ht.segment_lt hi0
  have hs' := ht.segment_lt hi
  have hb' := ht.startBus_lt hi
  rw [Next, endBdf, valPcieIncrementBdf_last ht hl hi0 (ht.endBus_lt hi0), ne_eq, startBdf,
    startBdf, pcieCreateBdf_eq_zero hs' hb']
  refine and_congr_left fun hne => ?_
  by_cases hend : (blockAt blocks i).endBusNum < (blockAt blocks l).endBusNum
  · have hlt := ht.endBus_lt hl.lt
    rw [if_pos hend, pcieCreateBdf_inj hs hs' (by omega) hb']
    constructor
    · rintro ⟨hseg, hbus⟩
      exact .inr ⟨hend, hseg.symm, hbus.symm⟩
    · rintro (rfl | ⟨-, hseg, hbus⟩)
      · exact absurd hend (lt_irrefl _)
      · exact ⟨hseg.symm, hbus.symm⟩
  · split_ifs with hmore
    · rw [pcieCreateBdf_inj (ht.segment_lt hmore) hs' (ht.startBus_lt hmore) hb']
      constructor
      · rintro ⟨hseg, hbus⟩
        have hnext := ht.index_eq hmore hi hseg le_rfl
          (ht.nonempty _ (blockAt_mem hmore)) hbus.symm.le
          (hbus ▸ ht.nonempty _ (blockAt_mem hi))
        omega
      · rintro (rfl | ⟨h, -⟩)
        · exact ⟨rfl, rfl⟩
        · exact absurd h hend
    · constructor
      · intro h
        exact absurd ((pcieCreateBdf_eq_zero hs' hb').mp h.symm) hne
      · rintro (rfl | ⟨h, -⟩)
        · exact absurd hi hmore
        · exact absurd h hend

theorem next_bus (hl : LastEntry blocks i l) (hi : i < blocks.length)
    (hb : bus < (blockAt blocks l).endBusNum) :
    Next blocks (pcieCreateBdf (blockAt blocks i).segmentNum bus 31 7)
      (pcieCreateBdf (blockAt blocks i).segmentNum (bus + 1) 0 0) := by
  have hlt := ht.endBus_lt hl.lt
  refine ⟨?_, ?_⟩
  · rw [valPcieIncrementBdf_last ht hl hi (by omega), if_pos hb]
  · rw [ne_eq, pcieCreateBdf_eq_zero (ht.segment_lt hi) (by omega)]
    omega

theorem valPcieIncrementBdf_end (hi : i + 1 = blocks.length) :
    valPcieIncrementBdf (some blocks) (endBdf (blockAt blocks i)) = 0 := by
  have hi0 : i < blocks.length := by omega
  obtain ⟨l, hl, -⟩ := findEcamIndex_eq hi0
  obtain rfl : l = i := by
    have hle := hl.le
    have hlt := hl.lt
    omega
  rw [endBdf, valPcieIncrementBdf_last ht hl hi0 (ht.endBus_lt hi0), if_neg (lt_irrefl _),
    if_neg (by omega)]

theorem endBus_lt_of_inBusOrder (h : InBusOrder blocks) (hl : LastEntry blocks i l) (hne : l ≠ i) :
    (blockAt blocks i).endBusNum < (blockAt blocks l).endBusNum := by
  -- from entry to entry, down to the last one
  induction hn : l - i generalizing i with
  | zero =>
    have hle := hl.le
    omega
  | succ n ih =>
    have hlt := hl.lt
    obtain ⟨hno | ⟨hseg, hstart⟩, -⟩ := h i (by omega)
    · exact absurd (hl.eq_iff.mpr hno) hne
    · have hnext := ht.nonempty _ (blockAt_mem (show i + 1 < blocks.length by omega))
      by_cases hlast : l = i + 1
      · rw [hlast]
        omega
      · have hrest := ih (hl.succ hne hseg) hlast (by omega)
        omega

end

end

/-! ## The whole table -/

section

variable {b : PcieInfoBlock}

def busBdfs (seg bus : Nat) : List Nat :=
  (range 32).flatMap (fun dev => (range 8).flatMap (fun func =>
    [pcieCreateBdf seg bus dev func]))

def windowBdfs (b : PcieInfoBlock) : List Nat :=
  (range (b.endBusNum - b.startBusNum + 1)).flatMap (fun k =>
    busBdfs b.segmentNum (b.startBusNum + k))

theorem windowBdfs_eq (h : b.startBusNum ≤ b.endBusNum) :
    (range' b.startBusNum (b.endBusNum + 1 - b.startBusNum)).flatMap (fun bus =>
      (range pcieMaxDev).flatMap (fun dev => (range pcieMaxFunc).map (fun func =>
        pcieCreateBdf b.segmentNum bus dev func))) = windowBdfs b := by
  rw [range'_eq_map_range, flatMap_map,
    show b.endBusNum + 1 - b.startBusNum = b.endBusNum - b.startBusNum + 1 by omega]
  refine flatMap_congr fun k _ => ?_
  exact flatMap_congr fun dev _ => map_eq_flatMap

theorem map_bdf_slots (ht : WindowTable blocks) :
    (slots blocks).map Slot.bdf =
      (range blocks.length).flatMap (fun i => windowBdfs (blockAt blocks i)) := by
  rw [← loopBdfs_eq, loopBdfs, valPcieGetInfo_numEcam]
  refine flatMap_congr fun i hi => ?_
  simp only [segment_eq, startBus_eq, endBus_eq]
  exact windowBdfs_eq (ht.nonempty _ (blockAt_mem (mem_range.mp hi)))

theorem head?_busBdfs (seg bus : Nat) :
    (busBdfs seg bus).head? = some (pcieCreateBdf seg bus 0 0) := rfl

theorem getLast?_busBdfs (seg bus : Nat) :
    (busBdfs seg bus).getLast? = some (pcieCreateBdf seg bus 31 7) := by
  have hdevs := getLast?_flatMap_range (n := 31) (f := fun dev => (range 8).flatMap
    (fun func => [pcieCreateBdf seg bus dev func])) fun h => by cases h
  exact hdevs

theorem busBdfs_ne_nil (seg bus : Nat) : busBdfs seg bus ≠ [] :=
  ne_nil_of_mem (mem_of_mem_head? (head?_busBdfs seg bus))

theorem head?_windowBdfs (b : PcieInfoBlock) : (windowBdfs b).head? = some (startBdf b) := by
  rw [windowBdfs, head?_flatMap_range (f := fun k => busBdfs b.segmentNum (b.startBusNum + k))
    (busBdfs_ne_nil _ _), head?_busBdfs, add_zero, startBdf]

theorem windowBdfs_ne_nil (b : PcieInfoBlock) : windowBdfs b ≠ [] :=
  ne_nil_of_mem (mem_of_mem_head? (head?_windowBdfs b))

theorem getLast?_windowBdfs (h : b.startBusNum ≤ b.endBusNum) :
    (windowBdfs b).getLast? = some (endBdf b) := by
  rw [windowBdfs, getLast?_flatMap_range (f := fun k => busBdfs b.segmentNum (b.startBusNum + k))
    (busBdfs_ne_nil _ _), getLast?_busBdfs, Nat.add_sub_cancel' h, endBdf]

section

variable (ht : WindowTable blocks)
include ht

theorem isChain_busBdfs (hi : i < blocks.length) (hb : bus < 256) :
    (busBdfs (blockAt blocks i).segmentNum bus).IsChain (Next blocks) := by
  rw [busBdfs, isChain_flatMap_range (fun dev _ h => by cases h)]
  refine ⟨fun dev hdev => ?_, fun dev hdev x hx y hy => ?_⟩
  · rw [isChain_flatMap_range (fun func _ h => by cases h)]
    refine ⟨fun func _ => isChain_singleton _, fun func hfunc x hx y hy => ?_⟩
    cases hx
    cases hy
    exact next_func ht hi hb hdev hfunc
  · cases hx
    cases hy
    exact next_dev ht hi hb hdev

theorem isChain_slots_iff :
    ((slots blocks).map Slot.bdf).IsChain (Next blocks) ↔ InBusOrder blocks := by
  rw [map_bdf_slots ht, isChain_flatMap_range (fun i _ => windowBdfs_ne_nil _)]
  have hentry : ∀ i, i + 1 < blocks.length →
      ((∀ x ∈ (windowBdfs (blockAt blocks i)).getLast?,
        ∀ y ∈ (windowBdfs (blockAt blocks (i + 1))).head?, Next blocks x y) ↔
      Next blocks (endBdf (blockAt blocks i)) (startBdf (blockAt blocks (i + 1)))) := by
    intro i hi
    rw [getLast?_windowBdfs (ht.nonempty _ (blockAt_mem (by omega))), head?_windowBdfs]
    simp
  constructor
  · rintro ⟨-, hlink⟩ i hi
    obtain ⟨l, hl, -⟩ := findEcamIndex_eq (show i < blocks.length by omega)
    obtain ⟨hright, hzero⟩ := (next_entry_iff ht hl hi).mp ((hentry i hi).mp (hlink i hi))
    refine ⟨?_, hzero⟩
    rcases hright with heq | ⟨-, hseg, hstart⟩
    · exact .inl (hl.eq_iff.mp heq)
    · exact .inr ⟨hseg, hstart⟩
  · intro h
    refine ⟨fun i hi => ?_, fun i hi => ?_⟩
    · obtain ⟨l, hl, -⟩ := findEcamIndex_eq hi
      have hend := ht.endBus_lt hi
      have hrange := ht.nonempty _ (blockAt_mem hi)
      have hle : (blockAt blocks i).endBusNum ≤ (blockAt blocks l).endBusNum := by
        by_cases hne : l = i
        · rw [hne]
        · exact (endBus_lt_of_inBusOrder ht h hl hne).le
      rw [windowBdfs, isChain_flatMap_range (fun k _ => busBdfs_ne_nil _ _)]
      refine ⟨fun k hk => isChain_busBdfs ht hi (by omega), fun k hk x hx y hy => ?_⟩
      cases hx
      cases hy
      exact next_bus ht hl hi (by omega)
    · obtain ⟨l, hl, -⟩ := findEcamIndex_eq (show i < blocks.length by omega)
      refine (hentry i hi).mpr ((next_entry_iff ht hl hi).mpr ⟨?_, (h i hi).2⟩)
      rcases (h i hi).1 with hno | ⟨hseg, hstart⟩
      · exact .inl (hl.eq_iff.mpr hno)
      · by_cases hne : l = i
        · exact .inl hne
        · exact .inr ⟨endBus_lt_of_inBusOrder ht h hl hne, hseg, hstart⟩

theorem nodup_bdf_slots : ((slots blocks).map Slot.bdf).Nodup := by
  apply List.Nodup.of_map decodeBdf
  have hdecode : ((slots blocks).map Slot.bdf).map decodeBdf = (slots blocks).map Slot.ident := by
    rw [map_map]
    refine map_congr_left fun x hx => ?_
    rw [Function.comp, decodeBdf_bdf ht.toInfoTable hx,
      mod_eq_of_lt (ht.segments_lt _ (mem_slots.mp hx).1)]
    rfl
  rw [hdecode]
  exact nodup_ident ht.toInfoTable

theorem inBusOrder_of_visitsAll (h : VisitsAll blocks) : InBusOrder blocks := by
  obtain ⟨rest, hchain, heq, -⟩ := h
  rw [← isChain_slots_iff ht, ← heq]
  exact (chain_iff_isChain.mp hchain).1

end

/-- The iteration visits every function of every window once and in order, exactly when the
windows of a segment stand in bus order and without gaps. -/
theorem valPcieIncrementBdf_visitsAll_iff (ht : WindowTable blocks) (hne : blocks ≠ []) :
    VisitsAll blocks ↔ InBusOrder blocks := by
  obtain ⟨n, hn⟩ : ∃ n, blocks.length = n + 1 :=
    Nat.exists_eq_succ_of_ne_zero fun h => hne (length_eq_zero_iff.mp h)
  have hfirst : ((slots blocks).map Slot.bdf).head? = some (firstBdf blocks) := by
    rw [map_bdf_slots ht, hn, head?_flatMap_range (windowBdfs_ne_nil _), head?_windowBdfs]
    rfl
  have hlast : ∀ x ∈ ((slots blocks).map Slot.bdf).getLast?,
      valPcieIncrementBdf (some blocks) x = 0 := by
    intro x hx
    rw [map_bdf_slots ht, hn, getLast?_flatMap_range (windowBdfs_ne_nil _),
      getLast?_windowBdfs (ht.nonempty _ (blockAt_mem (by omega)))] at hx
    cases hx
    exact valPcieIncrementBdf_end ht hn.symm
  obtain ⟨rest, hrest⟩ := head?_eq_some_iff.mp hfirst
  constructor
  · exact inBusOrder_of_visitsAll ht
  · intro h
    refine ⟨rest, chain_iff_isChain.mpr ⟨?_, ?_⟩, hrest.symm, nodup_bdf_slots ht⟩
    · rw [← hrest]
      exact (isChain_slots_iff ht).mpr h
    · rw [← hrest]
      exact hlast

end

/-! ## Two windows -/

def ascendingWindows : List PcieInfoBlock := [⟨0x30000000, 0, 0, 1⟩, ⟨0x40000000, 0, 2, 3⟩]

theorem windowTable_ascending : WindowTable ascendingWindows where
  segments := by decide
  buses := by decide
  disjoint := by
    simp only [ascendingWindows]
    simp
    omega
  segments_lt := by decide
  nonempty := by decide

theorem valPcieIncrementBdf_ascending : VisitsAll ascendingWindows :=
  (valPcieIncrementBdf_visitsAll_iff windowTable_ascending (by decide)).mpr (by
    intro i hi
    obtain rfl : i = 0 := by
      have hlen : ascendingWindows.length = 2 := rfl
      omega
    exact ⟨.inr ⟨rfl, rfl⟩, by decide⟩)

def descendingWindows : List PcieInfoBlock := [⟨0x30000000, 0, 2, 3⟩, ⟨0x40000000, 0, 0, 1⟩]

theorem windowTable_descending : WindowTable descendingWindows where
  segments := by decide
  buses := by decide
  disjoint := by
    simp only [descendingWindows]
    simp
    omega
  segments_lt := by decide
  nonempty := by decide

/-- At the end of bus 2 the function goes by the window that ends at bus 1 and returns 0. -/
theorem valPcieIncrementBdf_descending :
    valPcieIncrementBdf (some descendingWindows) (pcieCreateBdf 0 2 31 7) = 0 ∧
      ¬VisitsAll descendingWindows := by
  refine ⟨by decide, fun h => ?_⟩
  obtain ⟨hno | ⟨-, hstart⟩, -⟩ := inBusOrder_of_visitsAll windowTable_descending h 0 (by decide)
  · exact hno 1 (by decide) (by decide) rfl
  · exact absurd hstart (by decide)

end ServerSoc.Pcie
