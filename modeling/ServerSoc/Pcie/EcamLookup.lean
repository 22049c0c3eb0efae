/-
The ECAM window of a function, as val_pcie_get_ecam_base and val_pcie_get_ecam_index find it
(acs_pcie.c).

The accessors take the window that holds the bus.  val_pcie_get_ecam_base goes by the segment for
a Type 0 function and by the buses behind it otherwise, and counts the entries in eight bits.
-/
import ServerSoc.Base.Counter
import ServerSoc.Pcie.Lookup

namespace ServerSoc.Pcie

open Base

def InWindow (t : Option (List PcieInfoBlock)) (bus segment i : Nat) : Prop :=
  valPcieGetInfo t .startBus i ≤ bus ∧ bus ≤ valPcieGetInfo t .endBus i ∧
    segment = valPcieGetInfo t .segment i

instance (t : Option (List PcieInfoBlock)) (bus segment i : Nat) :
    Decidable (InWindow t bus segment i) :=
  inferInstanceAs (Decidable (_ ∧ _))

def DisjointWindows (t : Option (List PcieInfoBlock)) : Prop :=
  ∀ i j, i < valPcieGetInfo t .numEcam 0 → j < valPcieGetInfo t .numEcam 0 →
    ∀ bus segment, InWindow t bus segment i → InWindow t bus segment j → i = j

section

variable (v : CfgView) (bdf : Nat)

/-- `reg_value` after the read of `TYPE1_PBN`, which sets it only for a function with a
mapping. -/
def busNumbers : Nat := (valPcieReadCfg v.info v.read bdf type1Pbn).getD (v.stack bdf)

def BridgesInto (i : Nat) : Prop :=
  valPcieGetInfo v.info .startBus i ≤ secBus (busNumbers v bdf) ∧
    subBus (busNumbers v bdf) ≤ valPcieGetInfo v.info .endBus i

instance (i : Nat) : Decidable (BridgesInto v bdf i) := inferInstanceAs (Decidable (_ ∧ _))

def FitsHeader (i : Nat) : Prop :=
  valPcieFunctionHeaderType v bdf = type0HeaderType ∨ BridgesInto v bdf i

instance (i : Nat) : Decidable (FitsHeader v bdf i) := inferInstanceAs (Decidable (_ ∨ _))

def selectsBase (ecamIndex : Nat) : Bool :=
  pcieExtractBdfSeg bdf = valPcieGetInfo v.info .segment ecamIndex ∧ FitsHeader v bdf ecamIndex

/-- `ecam_index` is an `uint8_t`. -/
def valPcieGetEcamBase (fuel : Nat) : Option Nat :=
  match counterSearch (selectsBase v bdf) (2 ^ 8) (valPcieGetInfo v.info .numEcam 0) fuel 0 with
  | none => none
  | some none => some 0
  | some (some ecamIndex) => some (valPcieGetInfo v.info .ecam ecamIndex)

/-- `some index` is the return value 0 with `*ecam_index`, `none` the return value 1. -/
def valPcieGetEcamIndex : Option Nat :=
  (List.range (valPcieGetInfo v.info .numEcam 0)).find? (fun index =>
    (pcieExtractBdfSeg bdf = valPcieGetInfo v.info .segment index ∧
      valPcieGetInfo v.info .startBus index ≤ pcieExtractBdfBus bdf ∧
      pcieExtractBdfBus bdf ≤ valPcieGetInfo v.info .endBus index) ∧
    FitsHeader v bdf index)

def accessedEntry : Option Nat :=
  (List.range (valPcieGetInfo v.info .numEcam 0)).find?
    (fun i => InWindow v.info (pcieExtractBdfBus bdf) (pcieExtractBdfSeg bdf) i)

def EcamLookupsAgree : Prop :=
  ∃ k, accessedEntry v bdf = some k ∧
    (∃ fuel, valPcieGetEcamBase v bdf fuel = some (valPcieGetInfo v.info .ecam k)) ∧
    valPcieGetEcamIndex v bdf = some k

/-- The function is of Type 0 or has its secondary and subordinate bus in the window that
holds its own bus.  Of the entries with its segment, and for another type with its
secondary and subordinate bus, the first is one of the first 256 and has the base of that
window. -/
def EcamLookupsReach : Prop :=
  ∃ k, k < valPcieGetInfo v.info .numEcam 0 ∧
    InWindow v.info (pcieExtractBdfBus bdf) (pcieExtractBdfSeg bdf) k ∧ FitsHeader v bdf k ∧
    ∃ i, i < 2 ^ 8 ∧ IsFirst (selectsBase v bdf) i ∧
      valPcieGetInfo v.info .ecam i = valPcieGetInfo v.info .ecam k

end

section

variable {v : CfgView} {bdf k : Nat}

theorem findEcamBase_eq_accessedEntry :
    findEcamBase v.info (pcieExtractBdfBus bdf) (pcieExtractBdfSeg bdf) =
      ((accessedEntry v bdf).map (valPcieGetInfo v.info .ecam)).getD 0 := by
  unfold findEcamBase
  split
  · rename_i i h
    rw [show accessedEntry v bdf = some i from h]
    rfl
  · rename_i h
    rw [show accessedEntry v bdf = none from h]
    rfl

theorem exists_accessedEntry (hmap : Mapped v.info bdf) :
    ∃ k, accessedEntry v bdf = some k ∧ valPcieGetInfo v.info .ecam k ≠ 0 := by
  have hbase := hmap.2.2
  rw [findEcamBase_eq_accessedEntry] at hbase
  cases hk : accessedEntry v bdf with
  | none =>
    rw [hk] at hbase
    exact absurd rfl hbase
  | some k =>
    rw [hk] at hbase
    exact ⟨k, rfl, hbase⟩

theorem accessedEntry_spec (h : accessedEntry v bdf = some k) :
    k < valPcieGetInfo v.info .numEcam 0 ∧
      InWindow v.info (pcieExtractBdfBus bdf) (pcieExtractBdfSeg bdf) k := by
  rw [accessedEntry, find?_range_eq_some_iff] at h
  exact ⟨h.1, by simpa using h.2.holds⟩

theorem valPcieGetEcamIndex_eq_iff (hdis : DisjointWindows v.info)
    (hk : accessedEntry v bdf = some k) :
    valPcieGetEcamIndex v bdf = some k ↔ FitsHeader v bdf k := by
  obtain ⟨hlt, hstart, hend, hseg⟩ := accessedEntry_spec hk
  rw [valPcieGetEcamIndex, find?_range_eq_some_iff]
  constructor
  · intro h
    have hholds := h.2.holds
    simp only [decide_eq_true_eq] at hholds
    exact hholds.2
  · intro hfits
    refine ⟨hlt, by simpa using ⟨⟨hseg, hstart, hend⟩, hfits⟩, fun j hj => ?_⟩
    rw [decide_eq_false_iff_not]
    intro hother
    have hjk := hdis j k (by omega) hlt _ _ ⟨hother.1.2.1, hother.1.2.2, hother.1.1⟩
      ⟨hstart, hend, hseg⟩
    omega

theorem valPcieGetEcamBase_eq_iff {base : Nat} (hbase : base ≠ 0) :
    (∃ fuel, valPcieGetEcamBase v bdf fuel = some base) ↔
      ∃ i, i < valPcieGetInfo v.info .numEcam 0 ∧ i < 2 ^ 8 ∧ IsFirst (selectsBase v bdf) i ∧
        valPcieGetInfo v.info .ecam i = base := by
  constructor
  · rintro ⟨fuel, h⟩
    rw [valPcieGetEcamBase] at h
    split at h
    · cases h
    · cases h
      exact absurd rfl hbase
    · rename_i i hfound
      have hfirst := (counterSearch_found_iff (by decide)).mp ⟨fuel, hfound⟩
      exact ⟨i, hfirst.1, hfirst.2.1, hfirst.2.2, by simpa using h⟩
  · rintro ⟨i, hlt, hcount, hfirst, rfl⟩
    obtain ⟨fuel, hfound⟩ := (counterSearch_found_iff (by decide)).mpr ⟨hlt, hcount, hfirst⟩
    exact ⟨fuel, by rw [valPcieGetEcamBase, hfound]⟩

/-- When none of 256 entries or more is selected, the counter wraps and the search never ends. -/
theorem valPcieGetEcamBase_endless (hmany : 2 ^ 8 ≤ valPcieGetInfo v.info .numEcam 0)
    (hnone : ∀ i, i < 2 ^ 8 → selectsBase v bdf i = false) (fuel : Nat) :
    valPcieGetEcamBase v bdf fuel = none := by
  rw [valPcieGetEcamBase]
  split
  · rfl
  · rename_i hend
    exact absurd hend (counterSearch_ne_none hmany (by decide) (by decide))
  · rename_i i hfound
    have hfirst := (counterSearch_found_iff (by decide)).mp ⟨fuel, hfound⟩
    have hholds := hfirst.2.2.holds
    rw [hnone i hfirst.2.1] at hholds
    cases hholds

theorem valPcieGetEcamBase_endless_otherSegment :
    valPcieGetEcamBase ⟨some (.replicate 256 ⟨0, 1, 0, 0⟩), fun _ _ => 0, fun _ => false,
      fun _ => 0⟩ (pcieCreateBdf 0 1 0 0) 1000 = none :=
  valPcieGetEcamBase_endless (by decide +kernel) (by decide +kernel) 1000

end

/-- For a function in a window, the two lookups end at the window of the accessors exactly
when the first entry they select has its base and can be counted to, and a bridge has its
bus numbers in the window it is in. -/
theorem ecamLookups_agree_iff (v : CfgView) (bdf : Nat) (hdis : DisjointWindows v.info)
    (hmap : Mapped v.info bdf) :
    EcamLookupsAgree v bdf ↔ EcamLookupsReach v bdf := by
  obtain ⟨k, hk, hbase⟩ := exists_accessedEntry hmap
  obtain ⟨hlt, hwindow⟩ := accessedEntry_spec hk
  constructor
  · rintro ⟨k', hk', hfound, hindex⟩
    rw [hk, Option.some_inj] at hk'
    rw [← hk'] at hfound hindex
    obtain ⟨i, -, hcount, hfirst, heq⟩ := (valPcieGetEcamBase_eq_iff hbase).mp hfound
    exact ⟨k, hlt, hwindow, (valPcieGetEcamIndex_eq_iff hdis hk).mp hindex, i, hcount, hfirst, heq⟩
  · rintro ⟨k', hlt', hwindow', hfits, i, hcount, hfirst, heq⟩
    have hsame : k' = k := hdis k' k hlt' hlt _ _ hwindow' hwindow
    rw [hsame] at hfits heq
    -- the entry of the accessors is selected as well, so the first one is in the table
    have hle : i ≤ k := by
      apply hfirst.le
      simpa [selectsBase] using And.intro hwindow.2.2 hfits
    exact ⟨k, hk, (valPcieGetEcamBase_eq_iff hbase).mpr ⟨i, by omega, hcount, hfirst, heq⟩,
      (valPcieGetEcamIndex_eq_iff hdis hk).mpr hfits⟩

def twoWindows : CfgView where
  info := some [⟨0x30000000, 0, 0, 127⟩, ⟨0x60000000, 0, 128, 255⟩]
  read := fun _ _ => 0
  onchip := fun _ => false
  stack := fun _ => 0

theorem twoWindows_disjoint : DisjointWindows twoWindows.info := by
  intro i j hi hj bus segment hin hin'
  have h0 : ∀ b s, InWindow twoWindows.info b s 0 → b ≤ 127 := fun b s h => h.2.1
  have h1 : ∀ b s, InWindow twoWindows.info b s 1 → 128 ≤ b := fun b s h => h.1
  rcases Nat.le_one_iff_eq_zero_or_eq_one.mp (Nat.lt_succ_iff.mp hi) with rfl | rfl
  · rcases Nat.le_one_iff_eq_zero_or_eq_one.mp (Nat.lt_succ_iff.mp hj) with rfl | rfl
    · rfl
    · have hlow := h0 _ _ hin
      have hhigh := h1 _ _ hin'
      omega
  · rcases Nat.le_one_iff_eq_zero_or_eq_one.mp (Nat.lt_succ_iff.mp hj) with rfl | rfl
    · have hlow := h0 _ _ hin'
      have hhigh := h1 _ _ hin
      omega
    · rfl

theorem ecamLookups_agree_firstWindow : EcamLookupsAgree twoWindows (pcieCreateBdf 0 1 0 0) := by
  apply (ecamLookups_agree_iff twoWindows (pcieCreateBdf 0 1 0 0) twoWindows_disjoint
    (by decide)).mpr
  exact ⟨0, by decide, by decide, by decide, 0, by decide, ⟨by decide, by simp⟩, rfl⟩

/-- The function in the second window is read through the second base and looked up at the
first. -/
theorem ecamLookups_differ_secondWindow :
    DisjointWindows twoWindows.info ∧ Mapped twoWindows.info (pcieCreateBdf 0 128 0 0) ∧
      Responds twoWindows.info twoWindows.read (pcieCreateBdf 0 128 0 0) ∧
      accessedEntry twoWindows (pcieCreateBdf 0 128 0 0) = some 1 ∧
      valPcieGetEcamBase twoWindows (pcieCreateBdf 0 128 0 0) 1 = some 0x30000000 ∧
      ¬ EcamLookupsAgree twoWindows (pcieCreateBdf 0 128 0 0) := by
  have hentry : accessedEntry twoWindows (pcieCreateBdf 0 128 0 0) = some 1 := by decide
  have hfirst : IsFirst (selectsBase twoWindows (pcieCreateBdf 0 128 0 0)) 0 := ⟨by decide, by simp⟩
  have hresponds : Responds twoWindows.info twoWindows.read (pcieCreateBdf 0 128 0 0) := by
    simp [Responds, cfgWord, twoWindows, pcieUnknownResponse]
  refine ⟨twoWindows_disjoint, by decide, hresponds, hentry, by decide, ?_⟩
  rintro ⟨k, hk, hfound, -⟩
  rw [hentry, Option.some_inj] at hk
  rw [← hk] at hfound
  obtain ⟨i, -, -, hi, heq⟩ := (valPcieGetEcamBase_eq_iff (by decide)).mp hfound
  rw [← hfirst.unique hi] at heq
  exact absurd heq (by decide)

end ServerSoc.Pcie
