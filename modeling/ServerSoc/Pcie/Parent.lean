/-
The root port a function is attached to (acs_pcie.c).

val_pcie_parent_is_rootport takes the first root port of the table whose secondary bus is the bus
of the function.  It does not compare segments, and it also asks that the bus is not above the
subordinate bus.  val_pcie_get_rootport compares the segment.
-/
import ServerSoc.Pcie.Lookup

namespace ServerSoc.Pcie

open List

section

variable (v : CfgView)

/-- The loop of `val_pcie_parent_is_rootport`; `rpBdf` is what `*rp_bdf` held before. -/
def searchParent (fuel dsfBus rpBdf : Nat) : List Nat → Nat → Option (Nat × Nat)
  | [], _ => some (1, rpBdf)
  | bdf :: table, regValue =>
    match valPcieDevicePortType v fuel bdf with
    | none => none
    | some dpType =>
      if dpType = rp ∨ dpType = iEpRp then
        let regValue := (valPcieReadCfg v.info v.read bdf type1Pbn).getD regValue
        if dsfBus = secBus regValue ∧ dsfBus ≤ subBus regValue then some (0, bdf)
        else searchParent fuel dsfBus rpBdf table regValue
      else searchParent fuel dsfBus rpBdf table regValue

def valPcieParentIsRootport (fuel : Nat) (table : List Nat) (dsfBdf rpBdf : Nat) :
    Option (Nat × Nat) :=
  searchParent v fuel (pcieExtractBdfBus dsfBdf) rpBdf table (v.stack dsfBdf)

/-- The function is an endpoint or part of a switch: its type is found, and it is neither a
root port nor integrated in the root complex. -/
def EndpointOrSwitch (bdf : Nat) : Prop :=
  ∃ dpType, HasType v bdf dpType ∧ dpType ∉ [rp, iEpRp, rcIEp, rcEc]

def OnSecondaryBus (port bdf : Nat) : Prop :=
  RootPort v port ∧ pcieExtractBdfBus bdf = secBus (cfgWord v.info v.read port type1Pbn)

def LooksLikeParent (port bdf : Nat) : Prop :=
  OnSecondaryBus v port bdf ∧
    pcieExtractBdfBus bdf ≤ subBus (cfgWord v.info v.read port type1Pbn)

def TypesBefore (table : List Nat) (bdf : Nat) : Prop :=
  ∀ b ∈ table.takeWhile (· ≠ bdf), ∃ dpType, HasType v b dpType

/-- A parent is the root port of the other lookup, and a function on the secondary bus of a
root port of its segment has a parent. -/
def ParentAgrees (table : List Nat) (bdf : Nat) : Prop :=
  (∀ fuel rpBdf r, valPcieParentIsRootport v fuel table bdf rpBdf = some (0, r) →
    ∃ fuel', valPcieGetRootport v fuel' table bdf = some (0, r)) ∧
  ((∃ port ∈ table, OnSecondaryBus v port bdf ∧
      pcieExtractBdfSeg port = pcieExtractBdfSeg bdf) →
    ∀ rpBdf, ∃ fuel r, valPcieParentIsRootport v fuel table bdf rpBdf = some (0, r))

/-- The first root port with the bus of the function as secondary bus is of the segment of
the function; and when there is a root port of this segment on whose secondary bus the
function is, one with its bus numbers in order is reached. -/
def ParentReached (table : List Nat) (bdf : Nat) : Prop :=
  (∀ r ∈ table, LooksLikeParent v r bdf → TypesBefore v table r →
    (∀ b ∈ table.takeWhile (· ≠ r), ¬ LooksLikeParent v b bdf) →
    pcieExtractBdfSeg r = pcieExtractBdfSeg bdf) ∧
  ((∃ port ∈ table, OnSecondaryBus v port bdf ∧
      pcieExtractBdfSeg port = pcieExtractBdfSeg bdf) →
    ∃ r ∈ table, LooksLikeParent v r bdf ∧ TypesBefore v table r)

end

section

variable {v : CfgView} {table : List Nat} {bdf fuel rpBdf r regValue dpType : Nat}

/-- One round: a function that passes the test ends the search, any other one whose type is
found leads to the next. -/
theorem searchParent_cons {b : Nat} (htype : valPcieDevicePortType v fuel b = some dpType)
    (bdf rpBdf : Nat) (table : List Nat) (regValue : Nat) :
    (LooksLikeParent v b bdf ∧
      searchParent v fuel (pcieExtractBdfBus bdf) rpBdf (b :: table) regValue = some (0, b)) ∨
    (¬ LooksLikeParent v b bdf ∧ ∃ regValue',
      searchParent v fuel (pcieExtractBdfBus bdf) rpBdf (b :: table) regValue =
        searchParent v fuel (pcieExtractBdfBus bdf) rpBdf table regValue') := by
  have hroot := rootPort_iff ⟨fuel, htype⟩
  rw [searchParent, htype]
  simp only
  by_cases hrp : dpType = rp ∨ dpType = iEpRp
  · have hread := valPcieReadCfg_of_mapped (hroot.mpr hrp).mapped v.read type1Pbn
    rw [hread]
    split_ifs with htest
    · exact .inl ⟨⟨⟨hroot.mpr hrp, htest.1⟩, htest.2⟩, rfl⟩
    · exact .inr ⟨fun h => htest ⟨h.1.2, h.2⟩, _, rfl⟩
  · rw [if_neg hrp]
    exact .inr ⟨fun h => hrp (hroot.mp h.1.1), regValue, rfl⟩

theorem of_searchParent
    (h : searchParent v fuel (pcieExtractBdfBus bdf) rpBdf table regValue = some (0, r)) :
    r ∈ table ∧ LooksLikeParent v r bdf ∧ TypesBefore v table r ∧
      ∀ b ∈ table.takeWhile (· ≠ r), ¬ LooksLikeParent v b bdf := by
  induction table generalizing regValue with
  | nil => simp [searchParent] at h
  | cons b table ih =>
    cases htype : valPcieDevicePortType v fuel b with
    | none => simp [searchParent, htype] at h
    | some dpType =>
      rcases searchParent_cons htype bdf rpBdf table regValue with
        ⟨hparent, hrun⟩ | ⟨hparent, regValue', hrun⟩
      · rw [hrun, Option.some_inj, Prod.mk.injEq] at h
        rw [← h.2]
        simp [TypesBefore, hparent]
      · rw [hrun] at h
        obtain ⟨hmem, hr, htypes, hbefore⟩ := ih h
        have hne : b ≠ r := by
          rintro rfl
          exact hparent hr
        have hcons : (b :: table).takeWhile (· ≠ r) = b :: table.takeWhile (· ≠ r) :=
          takeWhile_cons_of_pos (by simpa using hne)
        rw [TypesBefore, hcons]
        refine ⟨mem_cons_of_mem b hmem, hr, ?_, ?_⟩
        · intro c hc
          rcases mem_cons.mp hc with rfl | hc
          · exact ⟨dpType, fuel, htype⟩
          · exact htypes c hc
        · intro c hc
          rcases mem_cons.mp hc with rfl | hc
          · exact hparent
          · exact hbefore c hc

theorem searchParent_ends (rpBdf regValue : Nat) (hmem : r ∈ table) (hr : LooksLikeParent v r bdf)
    (htypes : ∀ b ∈ r :: table.takeWhile (· ≠ r), ∃ dpType, valPcieDevicePortType v fuel b =
      some dpType) :
    ∃ r' ∈ r :: table.takeWhile (· ≠ r),
      searchParent v fuel (pcieExtractBdfBus bdf) rpBdf table regValue = some (0, r') := by
  induction table generalizing regValue with
  | nil => cases hmem
  | cons b table ih =>
    by_cases hb : b = r
    · obtain ⟨dpType, htype⟩ := htypes r mem_cons_self
      rw [← hb] at htype hr
      rcases searchParent_cons htype bdf rpBdf table regValue with
        ⟨-, hrun⟩ | ⟨hparent, -⟩
      · exact ⟨b, by simp [hb], hrun⟩
      · exact absurd hr hparent
    · have hcons : (b :: table).takeWhile (· ≠ r) = b :: table.takeWhile (· ≠ r) :=
        takeWhile_cons_of_pos (by simpa using hb)
      rw [hcons] at htypes ⊢
      have hsub : ∀ c ∈ r :: table.takeWhile (· ≠ r),
          c ∈ r :: b :: table.takeWhile (· ≠ r) := by
        intro c hc
        rcases mem_cons.mp hc with rfl | hc
        · exact mem_cons_self
        · exact mem_cons_of_mem r (mem_cons_of_mem b hc)
      obtain ⟨dpType, htype⟩ := htypes b (by simp)
      rcases searchParent_cons htype bdf rpBdf table regValue with
        ⟨-, hrun⟩ | ⟨-, regValue', hrun⟩
      · exact ⟨b, by simp, hrun⟩
      · have hmem' : r ∈ table := by simpa [Ne.symm hb] using hmem
        obtain ⟨r', hr', hfound⟩ := ih regValue' hmem'
          (fun c hc => htypes c (hsub c hc))
        exact ⟨r', hsub r' hr', hrun.trans hfound⟩

theorem TypesBefore.exists_fuel (h : TypesBefore v table r) (hr : RootPort v r) :
    ∃ fuel, ∀ b ∈ r :: table.takeWhile (· ≠ r),
      ∃ dpType, valPcieDevicePortType v fuel b = some dpType := by
  have htypes : ∀ b ∈ r :: table.takeWhile (· ≠ r), ∃ dpType, HasType v b dpType := by
    intro b hb
    rcases mem_cons.mp hb with rfl | hb
    · rcases hr with hr | hr
      · exact ⟨rp, hr⟩
      · exact ⟨iEpRp, hr⟩
    · exact h b hb
  obtain ⟨n, hn⟩ := Pcie.exists_fuel htypes
  exact ⟨n, hn n le_rfl⟩

theorem segment_of_searchRootport (h : searchRootport v fuel bdf table regValue = some (0, r)) :
    pcieExtractBdfSeg r = pcieExtractBdfSeg bdf := by
  induction table generalizing regValue with
  | nil => simp [searchRootport] at h
  | cons b table ih =>
    rw [searchRootport] at h
    split at h
    · cases h
    · split_ifs at h with htest
      · rw [Option.some_inj, Prod.mk.injEq] at h
        rw [← h.2]
        exact htest.2.2.2
      · exact ih h

theorem valPcieGetRootport_of_endpointOrSwitch
    (htype : valPcieDevicePortType v fuel bdf = some dpType)
    (hother : dpType ∉ [rp, iEpRp, rcIEp, rcEc]) :
    valPcieGetRootport v fuel table bdf = searchRootport v fuel bdf table (v.stack bdf) := by
  simp only [mem_cons, not_or] at hother
  rw [valPcieGetRootport, htype]
  simp [hother]

theorem segment_of_valPcieGetRootport (hd : EndpointOrSwitch v bdf)
    (h : valPcieGetRootport v fuel table bdf = some (0, r)) :
    pcieExtractBdfSeg r = pcieExtractBdfSeg bdf := by
  obtain ⟨dpType, hdp, hother⟩ := hd
  cases htype : valPcieDevicePortType v fuel bdf with
  | none => simp [valPcieGetRootport, htype] at h
  | some ty =>
    rw [← HasType.unique ⟨fuel, htype⟩ hdp] at hother
    rw [valPcieGetRootport_of_endpointOrSwitch htype hother] at h
    exact segment_of_searchRootport h

theorem exists_valPcieGetRootport (hdisjoint : DisjointRanges v table)
    (hd : EndpointOrSwitch v bdf) (hmem : r ∈ table) (hr : LooksLikeParent v r bdf)
    (htypes : TypesBefore v table r) (hseg : pcieExtractBdfSeg r = pcieExtractBdfSeg bdf) :
    ∃ fuel, valPcieGetRootport v fuel table bdf = some (0, r) := by
  obtain ⟨dpType, ⟨m, hm⟩, hother⟩ := hd
  obtain ⟨n, hn⟩ := htypes.exists_fuel hr.1.1
  have hmore : ∀ b ∈ r :: table.takeWhile (· ≠ r),
      ∃ ty, valPcieDevicePortType v (max m n) b = some ty := by
    intro b hb
    obtain ⟨ty, hty⟩ := hn b hb
    exact ⟨ty, valPcieDevicePortType_mono hty (Nat.le_max_right m n)⟩
  have hbehind : Behind v r bdf := ⟨⟨hr.1.2.symm.le, hr.2⟩, hseg.symm⟩
  obtain ⟨ty, hty⟩ := hmore r mem_cons_self
  refine ⟨max m n, ?_⟩
  rw [valPcieGetRootport_of_endpointOrSwitch
    (valPcieDevicePortType_mono hm (Nat.le_max_left m n)) hother]
  apply searchRootport_eq hmem hty ((rootPort_iff ⟨_, hty⟩).mp hr.1.1) hbehind
  · intro b hb
    exact hmore b (mem_cons_of_mem r hb)
  · intro b hb hne hroot hbehind'
    exact hdisjoint b hb r hmem hroot hr.1.1 (hbehind'.2.symm.trans hseg.symm) hne _
      ⟨hbehind'.1, hbehind.1⟩

end

/-- Where the ranges of the root ports of a segment are disjoint, the lookup of the parent of
an endpoint or switch agrees with the lookup of its root port exactly when the first root
port on whose secondary bus the function seems to be is of its segment, and one is reached if
it is on such a bus. -/
theorem parentLookup_agrees_iff (v : CfgView) (table : List Nat)
    (hdisjoint : DisjointRanges v table) (bdf : Nat) (hd : EndpointOrSwitch v bdf) :
    ParentAgrees v table bdf ↔ ParentReached v table bdf := by
  constructor
  · rintro ⟨hagree, hfind⟩
    constructor
    · intro r hmem hr htypes hbefore
      obtain ⟨n, hn⟩ := htypes.exists_fuel hr.1.1
      obtain ⟨r', hr', hrun⟩ := searchParent_ends 0 (v.stack bdf) hmem hr hn
      -- the search cannot end before the first function that passes the test
      have hsame : r' = r := by
        rcases mem_cons.mp hr' with hr' | hr'
        · exact hr'
        · exact absurd (of_searchParent hrun).2.1 (hbefore r' hr')
      rw [hsame] at hrun
      obtain ⟨fuel, hroot⟩ := hagree n 0 r hrun
      exact segment_of_valPcieGetRootport hd hroot
    · intro hport
      obtain ⟨fuel, r, hrun⟩ := hfind hport 0
      obtain ⟨hmem, hr, htypes, -⟩ := of_searchParent hrun
      exact ⟨r, hmem, hr, htypes⟩
  · rintro ⟨hseg, hreach⟩
    constructor
    · intro fuel rpBdf r hrun
      obtain ⟨hmem, hr, htypes, hbefore⟩ := of_searchParent hrun
      exact exists_valPcieGetRootport hdisjoint hd hmem hr htypes (hseg r hmem hr htypes hbefore)
    · intro hport rpBdf
      obtain ⟨r, hmem, hr, htypes⟩ := hreach hport
      obtain ⟨n, hn⟩ := htypes.exists_fuel hr.1.1
      obtain ⟨r', -, hrun⟩ := searchParent_ends rpBdf (v.stack bdf) hmem hr hn
      exact ⟨n, r', hrun⟩

/-- Segments 0 and 1, each with root port 0:0.0 in front of bus 1, and endpoint 1:0.0 in
segment 1. -/
def twoSegments : CfgView where
  info := some [⟨0x30000000, 0, 0, 255⟩, ⟨0x50000000, 1, 0, 255⟩]
  read := fun _ a =>
    if a = 0x3000000c ∨ a = 0x5000000c then 0x00010000
    else if a = 0x30000018 ∨ a = 0x50000018 then 0x00010100
    else if a = 0x30000034 ∨ a = 0x50000034 ∨ a = 0x50100034 then 0x40
    else if a = 0x30000040 ∨ a = 0x50000040 then 0x00420010
    else if a = 0x50100040 then 0x00020010
    else 0
  onchip := fun _ => false
  stack := fun _ => 0

def port0 : Nat := pcieCreateBdf 0 0 0 0
def port1 : Nat := pcieCreateBdf 1 0 0 0
def endpoint1 : Nat := pcieCreateBdf 1 1 0 0

theorem hasType_twoSegments : HasType twoSegments port0 rp ∧ HasType twoSegments port1 rp ∧
    HasType twoSegments endpoint1 ep :=
  ⟨⟨2, by decide⟩, ⟨2, by decide⟩, ⟨2, by decide⟩⟩

theorem endpoint1_endpointOrSwitch : EndpointOrSwitch twoSegments endpoint1 :=
  ⟨ep, hasType_twoSegments.2.2, by decide⟩

theorem disjointRanges_twoSegments {table : List Nat}
    (htable : ∀ b ∈ table, b = port0 ∨ b = port1 ∨ b = endpoint1) :
    DisjointRanges twoSegments table := by
  have hno : ¬ RootPort twoSegments endpoint1 := by
    rw [rootPort_iff hasType_twoSegments.2.2]
    decide
  -- the two root ports are of different segments
  have hport : ∀ p ∈ table, RootPort twoSegments p → p = port0 ∨ p = port1 := by
    intro p hp hroot
    rcases htable p hp with rfl | rfl | rfl
    · exact .inl rfl
    · exact .inr rfl
    · exact absurd hroot hno
  intro p hp q hq hrp hrq hseg hne
  rcases hport p hp hrp with rfl | rfl
  · rcases hport q hq hrq with rfl | rfl
    · exact absurd rfl hne
    · exact absurd hseg (by decide)
  · rcases hport q hq hrq with rfl | rfl
    · exact absurd hseg (by decide)
    · exact absurd rfl hne

theorem parentLookup_agrees_oneSegment : ParentAgrees twoSegments [port1, endpoint1] endpoint1 := by
  apply (parentLookup_agrees_iff twoSegments [port1, endpoint1]
    (disjointRanges_twoSegments (by simp)) endpoint1 endpoint1_endpointOrSwitch).mpr
  constructor
  · intro r hr _ _ _
    simp only [mem_cons, not_mem_nil, or_false] at hr
    rcases hr with rfl | rfl
    · decide
    · rfl
  · intro _
    refine ⟨port1, by simp, ⟨⟨.inl hasType_twoSegments.2.1, by decide⟩, by decide⟩, ?_⟩
    simp [TypesBefore]

/-- The root port of segment 0 is taken for the parent of the endpoint in segment 1. -/
theorem parentLookup_differs_twoSegments :
    DisjointRanges twoSegments [port0, port1, endpoint1] ∧
      EndpointOrSwitch twoSegments endpoint1 ∧
      valPcieParentIsRootport twoSegments 2 [port0, port1, endpoint1] endpoint1 0 =
        some (0, port0) ∧
      valPcieGetRootport twoSegments 2 [port0, port1, endpoint1] endpoint1 = some (0, port1) ∧
      ¬ ParentAgrees twoSegments [port0, port1, endpoint1] endpoint1 := by
  have hparent : valPcieParentIsRootport twoSegments 2 [port0, port1, endpoint1] endpoint1 0 =
      some (0, port0) := by
    decide
  refine ⟨disjointRanges_twoSegments (by simp), endpoint1_endpointOrSwitch, hparent, by decide, ?_⟩
  intro h
  obtain ⟨fuel, hroot⟩ := h.1 2 0 port0 hparent
  exact absurd (segment_of_valPcieGetRootport endpoint1_endpointOrSwitch hroot) (by decide)

end ServerSoc.Pcie
