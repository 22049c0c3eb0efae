/-
The memory of the table of PCIe functions (val_pcie_create_device_bdf_table in acs_pcie.c and its
size in val/include/bsa_acs_pcie.h).

The size is said to hold 2048 BDFs.  An entry also has the BDF of its root port, so that 1023
entries fit behind the counter, and nothing in the loops compares the counter with it.
-/
import ServerSoc.Pcie.BdfContract
import ServerSoc.Pcie.CapWalks
import ServerSoc.Pcie.Lookup

namespace ServerSoc.Pcie

open Base List

def pcieDeviceBdfTableSz : Nat := 8192

/-- Offset of `device[index]`, behind `num_entries`.  The BDF comes first and the BDF of the
root port four bytes further. -/
def deviceOffset (index : Nat) : Nat := 4 + index * 8

def entriesThatFit : Nat := (pcieDeviceBdfTableSz - 4) / 8

/-- The table in its memory: the entries, of which `num_entries` is the number, and the
offset and size of every write so far. -/
structure TableArea where
  device : List Nat
  written : List (Nat × Nat)

namespace TableArea

def cleared : TableArea := ⟨[], [(0, 4)]⟩

/-- The area when the entries are `table`, at most one more than before. -/
def become (m : TableArea) (table : List Nat) : TableArea where
  device := table
  written := m.written ++
    if table.length = m.device.length then [] else [(deviceOffset m.device.length, 4), (0, 4)]

structure Inside (m : TableArea) : Prop where
  writes : ∀ w ∈ m.written, w.1 + w.2 ≤ pcieDeviceBdfTableSz
  entries : m.device.length ≤ entriesThatFit

end TableArea

variable {σ : Type}

section

variable (hw : CfgHw σ) (t : Option (List PcieInfoBlock)) (onchip : Nat → Bool) (stack : Nat → Nat)

/-- The writes of `val_pcie_populate_device_rootport` from entry `index` on; a lookup that
does not return is `none`. -/
def rootportWrites (lookup : Nat → Option (Nat × Nat)) : List Nat → Nat → List (Nat × Nat)
  | [], _ => []
  | bdf :: table, index =>
    match lookup bdf with
    | none => []
    | some _ => (deviceOffset index + 4, 4) :: rootportWrites lookup table (index + 1)

def buildAll (fuel : Nat) (valid : Nat → Nat) : List Nat → σ → TableArea → TableArea
  | [], s, m => { m with
      written := m.written ++ rootportWrites
        (valPcieGetRootport ⟨t, hw.read s, onchip, stack⟩ fuel m.device) m.device 0 }
  | bdf :: bdfs, s, m =>
    match probeFunction hw t fuel valid s m.device bdf with
    | none => m
    | some .noMapping => m
    | some (.next s table) => buildAll fuel valid bdfs s (m.become table)

/-- The memory a call of `val_pcie_create_device_bdf_table` allocates, as it leaves it. -/
def tableArea (fuel : Nat) (valid : Nat → Nat) (alloc : Bool) (g : Option (List Nat)) (s : σ) :
    Option TableArea :=
  match g with
  | some _ => none
  | none =>
    if alloc then
      if valPcieGetInfo t .numEcam 0 = 0 then some .cleared
      else some (buildAll hw t onchip stack fuel valid (loopBdfs t) s .cleared)
    else none

def KeepsToTable (valid : Nat → Nat) (s : σ) : Prop :=
  ∀ fuel alloc g m, tableArea hw t onchip stack fuel valid alloc g s = some m → m.Inside

end

section

variable (hw : CfgHw σ) (blocks : List PcieInfoBlock) (s0 : σ)

/-- The enumeration goes on behind this function: it is mapped and the search of its
capability list ends. -/
def Passes (bdf : Nat) : Prop :=
  Mapped (some blocks) bdf ∧ (candidate (some blocks) (hw.read s0) bdf = true →
    ¬ EndlessSearch (some blocks) (hw.read (enabled hw (some blocks) s0)) bdf)

/-- The function answers, is no host bridge, has the PCIe capability on its list or a pointer
to the list that reads all ones, and is valid. -/
def GoesIn (valid : Nat → Nat) (bdf : Nat) : Prop :=
  candidate (some blocks) (hw.read (enabled hw (some blocks) s0)) bdf = true ∧
    (cfgWord (some blocks) (hw.read (enabled hw (some blocks) s0)) bdf type01Cpr =
        pcieUnknownResponse ∨
      OnCapList (some blocks) (hw.read (enabled hw (some blocks) s0)) bdf) ∧
    valid bdf = 0

open Classical in
def FewFunctions (valid : Nat → Nat) : Prop :=
  ∀ l, l <+: loopBdfs (some blocks) → (∀ bdf ∈ l, Passes hw blocks s0 bdf) →
    (l.filter (fun bdf => GoesIn hw blocks s0 valid bdf)).length ≤ entriesThatFit

end

/-! ## The writes follow the entries -/

variable {hw : CfgHw σ} {fuel : Nat} {valid : Nat → Nat} {l : List Nat}

section

variable {t : Option (List PcieInfoBlock)} {onchip : Nat → Bool} {stack : Nat → Nat} {ret bdf : Nat}
  {s' s : σ} {table : List Nat} {m : TableArea}

structure TableArea.Tracks (m : TableArea) : Prop where
  only : ∀ w ∈ m.written, w = (0, 4) ∨ ∃ index, index < m.device.length ∧
    (w = (deviceOffset index, 4) ∨ w = (deviceOffset index + 4, 4))
  all : ∀ index, index < m.device.length → (deviceOffset index, 4) ∈ m.written

theorem TableArea.tracks_cleared : TableArea.cleared.Tracks := by
  refine ⟨fun w hw => .inl (mem_singleton.mp hw), fun index hindex => ?_⟩
  exact absurd hindex (Nat.not_lt_zero index)

theorem probeFunction_table {table' : List Nat}
    (h : probeFunction hw t fuel valid s table bdf = some (.next s' table')) :
    table' = table ∨ table' = table ++ [bdf] := by
  unfold probeFunction at h
  split at h
  · cases h
  · split at h
    · cases h
      exact .inl rfl
    · split at h
      · cases h
        exact .inl rfl
      · simp only at h
        split at h
        · cases h
        · split at h
          · cases h
            exact .inl rfl
          · split at h
            · cases h
              exact .inl rfl
            · cases h
              exact .inr rfl

theorem TableArea.Tracks.become (h : m.Tracks)
    (htable : table = m.device ∨ table = m.device ++ [bdf]) : (m.become table).Tracks := by
  rcases htable with rfl | rfl
  · have hsame : m.become m.device = m := by simp [TableArea.become]
    rwa [hsame]
  · have hwritten : (m.become (m.device ++ [bdf])).written =
        m.written ++ [(deviceOffset m.device.length, 4), (0, 4)] := by
      simp [TableArea.become]
    have hlen : (m.become (m.device ++ [bdf])).device.length = m.device.length + 1 := by
      simp [TableArea.become]
    constructor
    · intro w hw
      rw [hwritten] at hw
      simp only [mem_append, mem_cons, not_mem_nil, or_false] at hw
      rcases hw with hw | rfl | rfl
      · rcases h.only w hw with h0 | ⟨index, hindex, hw⟩
        · exact .inl h0
        · exact .inr ⟨index, by omega, hw⟩
      · exact .inr ⟨m.device.length, by omega, .inl rfl⟩
      · exact .inl rfl
    · intro index hindex
      rw [hlen] at hindex
      rw [hwritten]
      rcases Nat.lt_succ_iff_lt_or_eq.mp hindex with hlt | rfl
      · exact mem_append_left _ (h.all index hlt)
      · exact mem_append_right _ mem_cons_self

theorem mem_rootportWrites {lookup : Nat → Option (Nat × Nat)} {first : Nat}
    {w : Nat × Nat} (h : w ∈ rootportWrites lookup table first) :
    ∃ index, index < first + table.length ∧ w = (deviceOffset index + 4, 4) := by
  induction table generalizing first with
  | nil => cases h
  | cons bdf table ih =>
    rw [rootportWrites] at h
    split at h
    · cases h
    · rcases mem_cons.mp h with rfl | h
      · exact ⟨first, by simp, rfl⟩
      · obtain ⟨index, hindex, rfl⟩ := ih h
        exact ⟨index, by rw [length_cons]; omega, rfl⟩

theorem tracks_buildAll (h : m.Tracks) : (buildAll hw t onchip stack fuel valid l s m).Tracks := by
  induction l generalizing s m with
  | nil =>
    rw [buildAll]
    constructor
    · intro w hw
      rcases mem_append.mp hw with hw | hw
      · exact h.only w hw
      · obtain ⟨index, hindex, rfl⟩ := mem_rootportWrites hw
        exact .inr ⟨index, by simpa using hindex, .inr rfl⟩
    · intro index hindex
      exact mem_append_left _ (h.all index hindex)
  | cons bdf l ih =>
    rw [buildAll]
    split
    · exact h
    · exact h
    · rename_i hprobe
      exact ih (h.become (probeFunction_table hprobe))

theorem TableArea.Tracks.inside_iff (h : m.Tracks) :
    m.Inside ↔ m.device.length ≤ entriesThatFit := by
  constructor
  · exact fun hin => hin.entries
  · intro hlen
    refine ⟨fun w hw => ?_, hlen⟩
    have hfit : entriesThatFit = 1023 := rfl
    rcases h.only w hw with rfl | ⟨index, hindex, rfl | rfl⟩
    · decide
    · show 4 + index * 8 + 4 ≤ 8192
      omega
    · show 4 + index * 8 + 4 + 4 ≤ 8192
      omega

theorem device_buildAll (h : probeAll hw t fuel valid l s m.device = some (ret, table, s')) :
    (buildAll hw t onchip stack fuel valid l s m).device = table := by
  induction l generalizing s m with
  | nil =>
    cases h
    rfl
  | cons bdf l ih =>
    rw [probeAll] at h
    rw [buildAll]
    cases hprobe : probeFunction hw t fuel valid s m.device bdf with
    | none =>
      rw [hprobe] at h
      cases h
    | some probe =>
      rw [hprobe] at h
      cases probe with
      | noMapping =>
        cases h
        rfl
      | next s1 table1 => exact ih h

theorem exists_tableArea_of_return
    (h : valPcieCreateDeviceBdfTable hw t fuel valid true none s = some (ret, some table, s')) :
    ∃ m, tableArea hw t onchip stack fuel valid true none s = some m ∧ m.device = table := by
  simp only [valPcieCreateDeviceBdfTable, if_true] at h
  simp only [tableArea]
  split_ifs at h with hnum
  · rw [if_pos hnum]
    cases h
    exact ⟨.cleared, rfl, rfl⟩
  · rw [if_neg hnum]
    split at h
    · cases h
    · rename_i hrun
      cases h
      exact ⟨_, rfl, device_buildAll hrun⟩

end

/-! ## How many entries there are -/

section

variable {blocks : List PcieInfoBlock} {s0 : σ}

def passesWith (fuel : Nat) (hw : CfgHw σ) (blocks : List PcieInfoBlock) (s0 : σ) (bdf : Nat) :
    Bool :=
  decide (Mapped (some blocks) bdf) && (!candidate (some blocks) (hw.read s0) bdf ||
    (pciecsSearch fuel (some blocks) (hw.read (enabled hw (some blocks) s0)) bdf).isSome)

theorem device_of_undisturbed (hu : Undisturbed hw (some blocks) s0) (onchip : Nat → Bool)
    (stack : Nat → Nat) (fuel : Nat) (valid : Nat → Nat)
    (hl : ∀ bdf ∈ l, bdf ∈ loopBdfs (some blocks)) (gs : List Nat) (m : TableArea) :
    (buildAll hw (some blocks) onchip stack fuel valid l
        (enableAll hw (some blocks) s0 gs) m).device =
      m.device ++ (l.takeWhile (passesWith fuel hw blocks s0)).filter
        (takes fuel valid hw (some blocks) s0) := by
  induction l generalizing gs m with
  | nil => simp [buildAll]
  | cons bdf l ih =>
    have hl' := fun b hb => hl b (mem_cons_of_mem bdf hb)
    rw [buildAll]
    by_cases hmap : Mapped (some blocks) bdf
    · rw [probeFunction_enableAll hu fuel valid gs m.device (hl bdf mem_cons_self) hmap]
      by_cases hc : candidate (some blocks) (hw.read s0) bdf = true
      · rw [if_pos hc]
        cases hsearch : pciecsSearch fuel (some blocks) (hw.read (enabled hw (some blocks) s0))
          bdf with
        | none =>
          have hstop : passesWith fuel hw blocks s0 bdf = false := by
            simp [passesWith, hc, hsearch]
          simp [hstop]
        | some r =>
          have hgo : passesWith fuel hw blocks s0 bdf = true := by
            simp [passesWith, hmap, hsearch]
          rw [takeWhile_cons_of_pos hgo]
          simp only [Option.map_some]
          rw [ih hl']
          by_cases ht : takes fuel valid hw (some blocks) s0 bdf = true <;>
            simp [ht, TableArea.become]
      · have hgo : passesWith fuel hw blocks s0 bdf = true := by
          simp [passesWith, hmap, hc]
        have ht : takes fuel valid hw (some blocks) s0 bdf = false := by simp [takes, hc]
        rw [if_neg hc, takeWhile_cons_of_pos hgo]
        rw [ih hl']
        simp [ht, TableArea.become]
    · have hstop : passesWith fuel hw blocks s0 bdf = false := by simp [passesWith, hmap]
      rw [probeFunction_of_not_mapped hmap]
      simp [hstop]

theorem passes_of_passesWith {bdf : Nat} (h : passesWith fuel hw blocks s0 bdf = true) :
    Passes hw blocks s0 bdf := by
  simp only [passesWith, Bool.and_eq_true, decide_eq_true_eq] at h
  refine ⟨h.1, fun hc hendless => ?_⟩
  rw [endlessSearch_iff h.1] at hendless
  simp [hc, hendless fuel] at h

theorem exists_passesWith (h : ∀ bdf ∈ l, Passes hw blocks s0 bdf) :
    ∃ fuel, ∀ bdf ∈ l, passesWith fuel hw blocks s0 bdf = true := by
  apply exists_common_fuel
  · intro n m bdf hnm hn
    simp only [passesWith, Bool.and_eq_true, decide_eq_true_eq, Bool.or_eq_true] at hn ⊢
    refine ⟨hn.1, hn.2.imp_right (fun hsome => ?_)⟩
    obtain ⟨r, hr⟩ := Option.isSome_iff_exists.mp hsome
    rw [pciecsSearch_mono hn.1 hr hnm]
    rfl
  · intro bdf hbdf
    obtain ⟨hmap, hends⟩ := h bdf hbdf
    by_cases hc : candidate (some blocks) (hw.read s0) bdf = true
    · have hend := hends hc
      rw [endlessSearch_iff hmap, not_forall] at hend
      obtain ⟨fuel, hfuel⟩ := hend
      exact ⟨fuel, by simp [passesWith, hmap, Option.isSome_iff_ne_none.mpr hfuel]⟩
    · exact ⟨0, by simp [passesWith, hmap, hc]⟩

open Classical in
theorem filter_takes_eq (hu : Undisturbed hw (some blocks) s0)
    (h : ∀ bdf ∈ l, passesWith fuel hw blocks s0 bdf = true) :
    l.filter (takes fuel valid hw (some blocks) s0) =
      l.filter (fun bdf => GoesIn hw blocks s0 valid bdf) := by
  apply filter_congr
  intro bdf hbdf
  have hpass := h bdf hbdf
  simp only [passesWith, Bool.and_eq_true, decide_eq_true_eq, Bool.or_eq_true] at hpass
  rw [Bool.eq_iff_iff, decide_eq_true_eq, takes_iff rfl hu hpass.1]
  · rfl
  · intro hc
    exact hpass.2.resolve_left (by simp [hc])

theorem exists_tableArea (hu : Undisturbed hw (some blocks) s0) (onchip : Nat → Bool)
    (stack : Nat → Nat) (valid : Nat → Nat) (fuel : Nat) :
    ∃ m, tableArea hw (some blocks) onchip stack fuel valid true none s0 = some m ∧ m.Tracks ∧
      m.device = ((loopBdfs (some blocks)).takeWhile (passesWith fuel hw blocks s0)).filter
        (takes fuel valid hw (some blocks) s0) := by
  by_cases hnum : valPcieGetInfo (some blocks) .numEcam 0 = 0
  · refine ⟨.cleared, by simp [tableArea, hnum], TableArea.tracks_cleared, ?_⟩
    simp [TableArea.cleared, loopBdfs, hnum]
  · refine ⟨buildAll hw (some blocks) onchip stack fuel valid (loopBdfs (some blocks)) s0 .cleared,
      by simp [tableArea, if_neg hnum],
      tracks_buildAll TableArea.tracks_cleared, ?_⟩
    exact device_of_undisturbed hu onchip stack fuel valid (fun bdf hbdf => hbdf) [] .cleared

end

/-- With hardware that enabling does not disturb, a call keeps to the memory of the table
exactly when at most 1023 of the functions it reaches go in. -/
theorem bdfTable_capacity_iff {σ : Type} (hw : CfgHw σ) (blocks : List PcieInfoBlock)
    (onchip : Nat → Bool) (stack : Nat → Nat) (valid : Nat → Nat) (s0 : σ)
    (hu : Undisturbed hw (some blocks) s0) :
    KeepsToTable hw (some blocks) onchip stack valid s0 ↔ FewFunctions hw blocks s0 valid := by
  constructor
  · intro h l hprefix hpass
    obtain ⟨fuel, hfuel⟩ := exists_passesWith hpass
    obtain ⟨m, hm, htracks, hdevice⟩ := exists_tableArea hu onchip stack valid fuel
    have hlen := (h fuel true none m hm).entries
    -- the functions of `l` are the first ones the run reaches
    have hreached : l <+: (loopBdfs (some blocks)).takeWhile (passesWith fuel hw blocks s0) := by
      obtain ⟨rest, hrest⟩ := hprefix
      rw [← hrest, takeWhile_append_of_pos hfuel]
      exact prefix_append _ _
    have hsub := (hreached.filter (takes fuel valid hw (some blocks) s0)).length_le
    rw [← hdevice, filter_takes_eq hu hfuel] at hsub
    exact hsub.trans hlen
  · intro h fuel alloc g m hm
    obtain ⟨rfl, rfl⟩ : g = none ∧ alloc = true := by
      unfold tableArea at hm
      split at hm
      · cases hm
      · split at hm
        · rename_i halloc
          exact ⟨rfl, halloc⟩
        · cases hm
    obtain ⟨m', hm', htracks, hdevice⟩ := exists_tableArea hu onchip stack valid fuel
    rw [hm, Option.some_inj] at hm'
    rw [← hm'] at htracks hdevice
    rw [htracks.inside_iff, hdevice]
    have hpass : ∀ bdf ∈ (loopBdfs (some blocks)).takeWhile (passesWith fuel hw blocks s0),
        passesWith fuel hw blocks s0 bdf = true := fun bdf hbdf => mem_takeWhile_imp hbdf
    rw [filter_takes_eq hu hpass]
    refine h _ ?_ fun bdf hbdf => passes_of_passesWith (hpass bdf hbdf)
    exact takeWhile_prefix _

/-! ## Windows full of functions -/

/-- Hardware without memory in which every register of every function reads 0x10: each
function answers and has the PCIe capability at offset 0x10. -/
def fullHw : CfgHw Unit := ⟨fun _ => constantFunction 0x10, fun s _ _ => s⟩

theorem undisturbed_fullHw (t : Option (List PcieInfoBlock)) : Undisturbed fullHw t () :=
  ⟨fun _ _ _ _ _ => rfl, fun _ _ _ _ _ _ => rfl⟩

theorem bdfTable_capacity_oneBus :
    KeepsToTable fullHw (some [⟨0x30000000, 0, 0, 0⟩])
      (fun _ => false) (fun _ => 0) (fun _ => 0) () := by
  apply (bdfTable_capacity_iff fullHw [⟨0x30000000, 0, 0, 0⟩] (fun _ => false) (fun _ => 0)
    (fun _ => 0) () (undisturbed_fullHw _)).mpr
  intro l hinit _
  have hall : (loopBdfs (some [⟨0x30000000, 0, 0, 0⟩])).length ≤ entriesThatFit := by
    decide +kernel
  exact (length_filter_le _ _).trans (hinit.length_le.trans hall)

theorem takes_fullHw {blocks : List PcieInfoBlock} {bdf : Nat} (hmap : Mapped (some blocks) bdf) :
    passesWith 1 fullHw blocks () bdf = true ∧
      takes 1 (fun _ => 0) fullHw (some blocks) () bdf = true := by
  have hword : ∀ o, cfgWord (some blocks) (fullHw.read ()) bdf o = 0x10 := fun _ => rfl
  have hcandidate : candidate (some blocks) (fullHw.read ()) bdf = true := by
    simp [candidate, valPcieIsHostBridge, valPcieReadCfg_of_mapped hmap, hword, pcieUnknownResponse]
  have hsearch : pciecsSearch 1 (some blocks) (fullHw.read (enabled fullHw (some blocks) ())) bdf =
      some (pcieSuccess, 0x10) := by
    rw [pciecsSearch_eq hmap]
    simp [hword, pcieUnknownResponse, walk, capStart, hasCid, CidType.cid, type01CprMask, cidPciecs,
      searchResult]
  constructor
  · simp [passesWith, hmap, hsearch]
  · simp [takes, hcandidate, hsearch]

/-- With five buses of functions the last entry is written behind the end of the memory. -/
theorem bdfTable_capacity_exceeded :
    (∃ m, tableArea fullHw (some [⟨0x30000000, 0, 0, 4⟩]) (fun _ => false) (fun _ => 0) 1
        (fun _ => 0) true none () = some m ∧ m.device.length = 1280 ∧
        (deviceOffset 1279, 4) ∈ m.written ∧ pcieDeviceBdfTableSz < deviceOffset 1279) ∧
      ¬ KeepsToTable fullHw (some [⟨0x30000000, 0, 0, 4⟩]) (fun _ => false) (fun _ => 0)
        (fun _ => 0) () := by
  have hmap : ∀ bdf ∈ loopBdfs (some [⟨0x30000000, 0, 0, 4⟩]),
      Mapped (some [⟨0x30000000, 0, 0, 4⟩]) bdf := by
    decide +kernel
  have hcount : (loopBdfs (some [⟨0x30000000, 0, 0, 4⟩])).length = 1280 := by decide +kernel
  obtain ⟨m, hm, htracks, hdevice⟩ := exists_tableArea
    (undisturbed_fullHw (some [⟨0x30000000, 0, 0, 4⟩])) (fun _ => false) (fun _ => 0) (fun _ => 0) 1
  rw [takeWhile_eq_self_iff.mpr (fun bdf hbdf => (takes_fullHw (hmap bdf hbdf)).1),
    filter_eq_self.mpr (fun bdf hbdf => (takes_fullHw (hmap bdf hbdf)).2)] at hdevice
  have hlen : m.device.length = 1280 := by rw [hdevice, hcount]
  refine ⟨⟨m, hm, hlen, htracks.all 1279 (by omega), by decide⟩, fun h => ?_⟩
  have hentries := (h 1 true none m hm).entries
  rw [hlen] at hentries
  exact absurd hentries (by decide)

end ServerSoc.Pcie
