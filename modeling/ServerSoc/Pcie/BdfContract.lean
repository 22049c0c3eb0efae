/-
When the table of PCIe functions is exact (val_pcie_create_device_bdf_table).

A call is exact when success means that the table lists the functions that belong in
it, and that it was built by this call or by an earlier one that returned success.
`valPcieCreateDeviceBdfTable_contract_iff` gives the info tables and configuration
spaces for which every call is.
-/
import Mathlib.Data.List.TakeWhile
import ServerSoc.Pcie.BdfTable

namespace ServerSoc.Pcie

open Base List

variable {σ : Type}

/-! ## Calls -/

/-- The table pointer and the hardware between calls, from the start of the program.
The flag says that one of the calls built the table and returned success. -/
inductive Calls (hw : CfgHw σ) (t : Option (List PcieInfoBlock)) (valid : Nat → Nat) (s0 : σ) :
    Bool → Option (List Nat) → σ → Prop
  | start : Calls hw t valid s0 false none s0
  | call {built : Bool} {g g' : Option (List Nat)} {s s' : σ} {fuel ret : Nat} {alloc : Bool} :
      Calls hw t valid s0 built g s →
      valPcieCreateDeviceBdfTable hw t fuel valid alloc g s = some (ret, g', s') →
      Calls hw t valid s0 (built || (g.isNone && decide (ret = pcieSuccess))) g' s'

/-- Whenever a call returns success, a call that returned success built the table, and
the table is exact. -/
def BdfContract (hw : CfgHw σ) (blocks : List PcieInfoBlock) (valid : Nat → Nat) (s0 : σ) : Prop :=
  ∀ built g s, Calls hw (some blocks) valid s0 built g s → ∀ fuel alloc g' s',
    valPcieCreateDeviceBdfTable hw (some blocks) fuel valid alloc g s =
      some (pcieSuccess, g', s') →
    (built = true ∨ g = none) ∧
      ∃ table, g' = some table ∧ Lists blocks (hw.read s') valid table

variable {hw : CfgHw σ} {blocks : List PcieInfoBlock} {valid : Nat → Nat} {s0 : σ}

section

variable {t : Option (List PcieInfoBlock)}

/-- The pointer is null and the hardware untouched until an allocation succeeds, and
from then on both are what the build left. -/
theorem Calls.cases {built : Bool} {g : Option (List Nat)} {s : σ}
    (h : Calls hw t valid s0 built g s) :
    (built = false ∧ g = none ∧ s = s0) ∨
      ∃ fuel ret table, g = some table ∧ (ret = pcieSuccess → built = true) ∧
        valPcieCreateDeviceBdfTable hw t fuel valid true none s0 = some (ret, some table, s) := by
  induction h with
  | start => exact .inl ⟨rfl, rfl, rfl⟩
  | call hcalls hcall ih =>
    rename_i built g g' s s' fuel ret alloc
    rcases ih with ⟨rfl, rfl, rfl⟩ | ⟨fuel0, ret0, table, rfl, hret, hbuild⟩
    · cases alloc with
      | false =>
        obtain ⟨rfl, rfl, rfl⟩ := hcall
        exact .inl ⟨rfl, rfl, rfl⟩
      | true =>
        have hg : ∃ table, g' = some table := by
          simp only [valPcieCreateDeviceBdfTable, if_true] at hcall
          split at hcall
          · cases hcall
            exact ⟨_, rfl⟩
          · split at hcall
            · cases hcall
            · cases hcall
              exact ⟨_, rfl⟩
        obtain ⟨table, rfl⟩ := hg
        exact .inr ⟨fuel, ret, table, rfl, fun hret => by simp [hret], hcall⟩
    · obtain ⟨-, rfl, rfl⟩ := hcall
      exact .inr ⟨fuel0, ret0, table, rfl, fun h => by simp [hret h], hbuild⟩

theorem bdfContract_iff :
    BdfContract hw blocks valid s0 ↔ ∀ fuel ret table s',
      valPcieCreateDeviceBdfTable hw (some blocks) fuel valid true none s0 =
        some (ret, some table, s') → ret = pcieSuccess ∧ Lists blocks (hw.read s') valid table := by
  constructor
  · intro h fuel ret table s' hbuild
    -- the next call returns success with the table of the first one
    obtain ⟨hbuilt, table', htable, hlists⟩ :=
      h _ _ _ (.call .start hbuild) 0 true (some table) s' rfl
    cases htable
    exact ⟨by simpa using hbuilt, hlists⟩
  · intro h built g s hcalls fuel alloc g' s' hcall
    have hnext := (Calls.call hcalls hcall).cases
    rcases hcalls.cases with ⟨-, rfl, rfl⟩ | ⟨fuel0, ret, table, rfl, hret, hbuild⟩
    · refine ⟨.inr rfl, ?_⟩
      rcases hnext with ⟨hfalse, -, -⟩ | ⟨fuel1, ret1, table, rfl, -, hbuild⟩
      · simp at hfalse
      · exact ⟨table, rfl, (h _ _ _ _ hbuild).2⟩
    · obtain ⟨hsucc, hlists⟩ := h _ _ _ _ hbuild
      obtain ⟨-, rfl, rfl⟩ := hcall
      exact ⟨.inl (hret hsucc), table, rfl, hlists⟩

end

/-! ## The first build -/

def reached (blocks : List PcieInfoBlock) : List Slot :=
  (slots blocks).takeWhile fun x => decide (Mapped (some blocks) x.bdf)

def Hangs (hw : CfgHw σ) (blocks : List PcieInfoBlock) (s0 : σ) : Prop :=
  ∃ x ∈ reached blocks, candidate (some blocks) (hw.read s0) x.bdf = true ∧
    EndlessSearch (some blocks) (hw.read (enabled hw (some blocks) s0)) x.bdf

variable {fuel : Nat}

section

variable {s' : σ} {table : List Nat}

theorem reached_mapped {x : Slot} (hx : x ∈ reached blocks) :
    x ∈ slots blocks ∧ Mapped (some blocks) x.bdf := by
  refine ⟨takeWhile_subset _ hx, ?_⟩
  simpa using mem_takeWhile_imp hx

theorem reached_append (blocks : List PcieInfoBlock) : ∃ rest,
    slots blocks = reached blocks ++ rest ∧
      ∀ x l, rest = x :: l → ¬ Mapped (some blocks) x.bdf := by
  refine ⟨(slots blocks).dropWhile (fun x => decide (Mapped (some blocks) x.bdf)),
    takeWhile_append_dropWhile.symm, ?_⟩
  intro x l hrest
  have hhead := head?_dropWhile_not (fun x => decide (Mapped (some blocks) x.bdf))
    (slots blocks)
  rw [hrest] at hhead
  simpa using hhead

theorem build_eq (hne : blocks ≠ []) (fuel : Nat) (valid : Nat → Nat) :
    valPcieCreateDeviceBdfTable hw (some blocks) fuel valid true none s0 =
      (probeAll hw (some blocks) fuel valid (loopBdfs (some blocks)) s0 []).map
        fun r => (r.1, some r.2.1, r.2.2) := by
  have hlen : valPcieGetInfo (some blocks) .numEcam 0 ≠ 0 := by
    rw [valPcieGetInfo_numEcam]
    exact fun h0 => hne (length_eq_zero_iff.mp h0)
  simp only [valPcieCreateDeviceBdfTable, if_neg hlen, if_true]
  cases probeAll hw (some blocks) fuel valid (loopBdfs (some blocks)) s0 [] <;> rfl

theorem mem_loopBdfs_of_reached {bdf : Nat} (h : bdf ∈ (reached blocks).map Slot.bdf) :
    bdf ∈ loopBdfs (some blocks) ∧ Mapped (some blocks) bdf := by
  obtain ⟨x, hx, rfl⟩ := mem_map.mp h
  obtain ⟨hslot, hmap⟩ := reached_mapped hx
  exact ⟨loopBdfs_eq blocks ▸ mem_map_of_mem hslot, hmap⟩

theorem searchesEnd_of_build (hu : Undisturbed hw (some blocks) s0) {ret : Nat}
    (h : valPcieCreateDeviceBdfTable hw (some blocks) fuel valid true none s0 =
      some (ret, some table, s')) :
    SearchesEnd fuel hw (some blocks) s0 ((reached blocks).map Slot.bdf) := by
  intro bdf hbdf hc
  by_contra hnone
  rw [Option.not_isSome_iff_eq_none] at hnone
  obtain ⟨rest, hslots, -⟩ := reached_append blocks
  obtain ⟨l1, l2, hsplit⟩ := append_of_mem hbdf
  have hloop : loopBdfs (some blocks) = l1 ++ bdf :: (l2 ++ rest.map Slot.bdf) := by
    rw [loopBdfs_eq, hslots, map_append, hsplit]
    simp
  have hstuck := probeAll_endless hu fuel valid (l2 ++ rest.map Slot.bdf) [] []
    (fun b hb => mem_loopBdfs_of_reached (by
      rw [hsplit]
      rcases mem_append.mp hb with hb | hb
      · exact mem_append_left _ hb
      · exact mem_append_right _ (mem_singleton.mp hb ▸ mem_cons_self))) hc hnone
  have hne : blocks ≠ [] := by
    rintro rfl
    cases hbdf
  rw [build_eq hne, hloop, show probeAll hw _ _ _ _ s0 [] = none from hstuck] at h
  cases h

theorem exists_fuel_of_not_hangs (h : ¬ Hangs hw blocks s0) :
    ∃ fuel, SearchesEnd fuel hw (some blocks) s0 ((reached blocks).map Slot.bdf) := by
  have hcommon : ∃ fuel, ∀ x ∈ reached blocks,
      (candidate (some blocks) (hw.read s0) x.bdf = true → ∃ r,
        pciecsSearch fuel (some blocks) (hw.read (enabled hw (some blocks) s0)) x.bdf = some r) ∧
        Mapped (some blocks) x.bdf := by
    apply exists_common_fuel
    · intro n m x hnm hx
      refine ⟨fun hc => ?_, hx.2⟩
      obtain ⟨r, hr⟩ := hx.1 hc
      exact ⟨r, pciecsSearch_mono hx.2 hr hnm⟩
    · intro x hx
      have hmap := (reached_mapped hx).2
      by_cases hc : candidate (some blocks) (hw.read s0) x.bdf = true
      · have hend : ¬ EndlessSearch (some blocks) (hw.read (enabled hw (some blocks) s0)) x.bdf :=
          fun he => h ⟨x, hx, hc, he⟩
        rw [endlessSearch_iff hmap, not_forall] at hend
        obtain ⟨fuel, hfuel⟩ := hend
        exact ⟨fuel, fun _ => Option.ne_none_iff_exists'.mp hfuel, hmap⟩
      · exact ⟨0, fun hc' => absurd hc' hc, hmap⟩
  obtain ⟨fuel, hfuel⟩ := hcommon
  refine ⟨fuel, fun bdf hbdf hc => ?_⟩
  obtain ⟨x, hx, rfl⟩ := mem_map.mp hbdf
  exact Option.isSome_iff_exists.mpr ((hfuel x hx).1 hc)

theorem build_of_mapped (hu : Undisturbed hw (some blocks) s0) (valid : Nat → Nat)
    (hne : blocks ≠ []) (hmap : ∀ x ∈ slots blocks, Mapped (some blocks) x.bdf)
    (hend : SearchesEnd fuel hw (some blocks) s0 (loopBdfs (some blocks))) :
    valPcieCreateDeviceBdfTable hw (some blocks) fuel valid true none s0 =
      some (pcieSuccess,
        some ((loopBdfs (some blocks)).filter (takes fuel valid hw (some blocks) s0)),
        enabled hw (some blocks) s0) := by
  have hmap' : ∀ bdf ∈ loopBdfs (some blocks), Mapped (some blocks) bdf := by
    intro bdf hbdf
    rw [loopBdfs_eq] at hbdf
    obtain ⟨x, hx, rfl⟩ := mem_map.mp hbdf
    exact hmap x hx
  have hcand : candidates hw (some blocks) s0 =
      (loopBdfs (some blocks)).filter (candidate (some blocks) (hw.read s0)) := by
    refine filter_congr fun bdf hbdf => ?_
    rw [decide_eq_true (hmap' bdf hbdf), Bool.true_and]
  have hrun := probeAll_append hu valid [] [] [] (fun bdf hbdf => ⟨hbdf, hmap' bdf hbdf⟩) hend
  rw [append_nil, ← hcand] at hrun
  rw [build_eq hne, show probeAll hw _ _ _ _ s0 [] = _ from hrun]
  rfl

theorem build_fails (hu : Undisturbed hw (some blocks) s0) (valid : Nat → Nat)
    (h : blocks = [] ∨ ∃ x ∈ slots blocks, ¬ Mapped (some blocks) x.bdf)
    (hend : SearchesEnd fuel hw (some blocks) s0 ((reached blocks).map Slot.bdf)) :
    ∃ table s', valPcieCreateDeviceBdfTable hw (some blocks) fuel valid true none s0 =
      some (1, some table, s') := by
  rcases h with rfl | ⟨x, hx, hunmapped⟩
  · exact ⟨[], s0, rfl⟩
  · obtain ⟨rest, hslots, hfirst⟩ := reached_append blocks
    have hxrest : x ∈ rest := by
      rw [hslots] at hx
      rcases mem_append.mp hx with hx | hx
      · exact absurd (reached_mapped hx).2 hunmapped
      · exact hx
    obtain ⟨y, l, rfl⟩ := exists_cons_of_ne_nil (ne_nil_of_mem hxrest)
    have hrun := probeAll_append hu valid ((y :: l).map Slot.bdf) [] []
      (fun bdf hbdf => mem_loopBdfs_of_reached hbdf) hend
    rw [← map_append, ← hslots, ← loopBdfs_eq, map_cons, probeAll,
      probeFunction_of_not_mapped (hfirst y l rfl)] at hrun
    have hne : blocks ≠ [] := by
      rintro rfl
      cases hx
    rw [build_eq hne, show probeAll hw _ _ _ _ s0 [] = _ from hrun]
    exact ⟨_, _, rfl⟩

theorem map_reached (hmap : ∀ x ∈ slots blocks, Mapped (some blocks) x.bdf) :
    (reached blocks).map Slot.bdf = loopBdfs (some blocks) := by
  rw [loopBdfs_eq, reached, takeWhile_eq_self_iff.mpr (fun x hx => by simpa using hmap x hx)]

theorem of_build_success (hu : Undisturbed hw (some blocks) s0)
    (h : valPcieCreateDeviceBdfTable hw (some blocks) fuel valid true none s0 =
      some (pcieSuccess, some table, s')) :
    SearchesEnd fuel hw (some blocks) s0 (loopBdfs (some blocks)) ∧
      table = (loopBdfs (some blocks)).filter (takes fuel valid hw (some blocks) s0) ∧
      s' = enabled hw (some blocks) s0 := by
  have hend := searchesEnd_of_build hu h
  by_cases hok : blocks ≠ [] ∧ ∀ x ∈ slots blocks, Mapped (some blocks) x.bdf
  · rw [map_reached hok.2] at hend
    rw [build_of_mapped hu valid hok.1 hok.2 hend] at h
    cases h
    exact ⟨hend, rfl, rfl⟩
  · rw [not_and_or] at hok
    push Not at hok
    obtain ⟨table', s'', hfail⟩ := build_fails hu valid hok hend
    cases h.symm.trans hfail

end

/-! ## Exact tables -/

/-- The info tables and registers for which a finished enumeration is exact. -/
structure Enumerable (blocks : List PcieInfoBlock) (rd : MmioRead) (valid : Nat → Nat) : Prop where
  nonempty : blocks ≠ []
  mapped : ∀ x ∈ slots blocks, Mapped (some blocks) x.bdf
  /-- no function that belongs in the table has the BDF of a segment that does not fit -/
  narrow : ∀ x ∈ slots blocks, 256 ≤ x.window.segmentNum →
    ∀ y ∈ slots blocks, y.bdf = x.bdf → ¬ y.Listed rd valid
  /-- a capability pointer register that reads all ones ends the search with success -/
  pointer : ∀ x ∈ slots blocks, x.window.segmentNum < 256 → x.Responds rd → ¬ x.HostBridge rd →
    valid x.bdf = 0 → x.word rd type01Cpr = pcieUnknownResponse → x.HasPcieCap rd

/-- A list of BDFs picked from the loops names the functions that belong in the table
exactly when it picks these and no segment beyond eight bits. -/
theorem lists_filter_iff (ht : InfoTable blocks) (rd : MmioRead) (p : Nat → Bool)
    (hmap : ∀ x ∈ slots blocks, Mapped (some blocks) x.bdf) :
    Lists blocks rd valid ((loopBdfs (some blocks)).filter p) ↔
      ∀ x ∈ slots blocks, (p x.bdf = true → x.window.segmentNum < 256) ∧
        (p x.bdf = true ↔ x.Listed rd valid) := by
  classical
  rw [Lists, loopBdfs_eq, filter_map, map_map]
  show map _ ((slots blocks).filter fun x => p x.bdf) = _ ↔ _
  have hident : ∀ x ∈ slots blocks, x.window.segmentNum < 256 →
      (decodeBdf ∘ Slot.bdf) x = x.ident := by
    intro x hx hseg
    rw [Function.comp, decodeBdf_bdf ht hx, Nat.mod_eq_of_lt hseg, Slot.ident]
  constructor
  · intro heq
    have hnodup : (((slots blocks).filter (fun x => p x.bdf)).map (decodeBdf ∘ Slot.bdf)).Nodup :=
      heq ▸ (nodup_ident ht).sublist (filter_sublist.map _)
    -- a slot with a higher segment and the slot it aliases would be one entry twice
    have hseg : ∀ x ∈ slots blocks, p x.bdf = true → x.window.segmentNum < 256 := by
      intro x hx hp
      obtain ⟨y, hy, hbdf, hyseg, -⟩ := exists_alias ht hx (hmap x hx)
      have hxy : x = y := by
        refine inj_on_of_nodup_map hnodup ?_ ?_ ?_
        · exact mem_filter.mpr ⟨hx, hp⟩
        · exact mem_filter.mpr ⟨hy, hbdf.symm ▸ hp⟩
        · exact congrArg decodeBdf hbdf.symm
      rw [← hxy] at hyseg
      omega
    rw [map_congr_left (fun x hx =>
      hident x (mem_filter.mp hx).1 (hseg x (mem_filter.mp hx).1
        (mem_filter.mp hx).2))] at heq
    intro x hx
    refine ⟨hseg x hx, ?_⟩
    -- the two filters agree at `x`, as no other slot has its numbers
    have hmem : ∀ q : Slot → Bool,
        x.ident ∈ ((slots blocks).filter q).map Slot.ident ↔ q x = true := by
      intro q
      constructor
      · intro h
        obtain ⟨y, hy, hyx⟩ := mem_map.mp h
        obtain ⟨hy, hq⟩ := mem_filter.mp hy
        rwa [ident_inj ht hx hy hyx.symm]
      · exact fun hq => mem_map_of_mem (mem_filter.mpr ⟨hx, hq⟩)
    rw [← hmem (fun x => p x.bdf), heq, hmem, decide_eq_true_eq]
  · intro h
    rw [map_congr_left (fun x hx =>
      hident x (mem_filter.mp hx).1 ((h x (mem_filter.mp hx).1).1
        (mem_filter.mp hx).2))]
    congr 1
    refine filter_congr fun x hx => ?_
    rw [Bool.eq_iff_iff, decide_eq_true_eq]
    exact (h x hx).2

section

variable {rd : MmioRead} (hrd : hw.read (enabled hw (some blocks) s0) = rd)
include hrd

theorem takes_iff (hu : Undisturbed hw (some blocks) s0) {bdf : Nat}
    (hmap : Mapped (some blocks) bdf)
    (hend : candidate (some blocks) (hw.read s0) bdf = true →
      (pciecsSearch fuel (some blocks) rd bdf).isSome) :
    takes fuel valid hw (some blocks) s0 bdf = true ↔ candidate (some blocks) rd bdf = true ∧
      (cfgWord (some blocks) rd bdf type01Cpr = pcieUnknownResponse ∨
        OnCapList (some blocks) rd bdf) ∧ valid bdf = 0 := by
  subst hrd
  rw [enabled, candidate_enableAll hu _ hmap, ← enabled, takes, Bool.and_eq_true]
  refine and_congr_right fun hc => ?_
  obtain ⟨r, hr⟩ := Option.isSome_iff_exists.mp (hend hc)
  rw [← pciecsSearch_success_iff hmap hr, hr]
  simp

section

variable (ht : InfoTable blocks) (hu : Undisturbed hw (some blocks) s0)
include ht hu

/-- What the enumeration takes, where the segment fits: what belongs in the table, and
functions whose capability pointer register reads all ones. -/
theorem takes_slot_iff {x : Slot}
    (hx : x ∈ slots blocks) (hmap : Mapped (some blocks) x.bdf) (hseg : x.window.segmentNum < 256)
    (hend : candidate (some blocks) (hw.read s0) x.bdf = true →
      (pciecsSearch fuel (some blocks) rd x.bdf).isSome) :
    takes fuel valid hw (some blocks) s0 x.bdf = true ↔
      x.Responds rd ∧ ¬ x.HostBridge rd ∧
        (x.word rd type01Cpr = pcieUnknownResponse ∨ x.HasPcieCap rd) ∧ valid x.bdf = 0 := by
  have hword := cfgWord_bdf ht hx hseg rd
  have hcap : OnCapList (some blocks) rd x.bdf ↔ x.HasPcieCap rd := by
    have hnext : capNext (some blocks) rd x.bdf .pcieCap =
        fun o => CidType.pcieCap.nextCapOffset (x.word rd o) := by
      funext o
      rw [capNext, hword]
    simp [OnCapList, Slot.HasPcieCap, hnext, hasCid, capStart, hword]
  rw [takes_iff hrd hu hmap hend, hcap]
  simp only [candidate, valPcieIsHostBridge, valPcieReadCfg_of_mapped hmap, hword,
    Option.getD_some, decide_eq_true_eq, decide_eq_false_iff_not, Slot.Responds,
    Slot.HostBridge, and_assoc]

/-- With every slot mapped and every search ended, the table is exact on the registers
that `Enumerable` describes. -/
theorem lists_takes_iff (hne : blocks ≠ []) (hmap : ∀ x ∈ slots blocks, Mapped (some blocks) x.bdf)
    (hend : SearchesEnd fuel hw (some blocks) s0 (loopBdfs (some blocks))) :
    Lists blocks rd valid ((loopBdfs (some blocks)).filter (takes fuel valid hw (some blocks) s0)) ↔
      Enumerable blocks rd valid := by
  have hsearch : ∀ x ∈ slots blocks, candidate (some blocks) (hw.read s0) x.bdf = true →
      (pciecsSearch fuel (some blocks) rd x.bdf).isSome := by
    subst hrd
    exact fun x hx => hend x.bdf (loopBdfs_eq blocks ▸ mem_map_of_mem hx)
  have hlisted : ∀ x ∈ slots blocks, x.window.segmentNum < 256 →
      x.Listed rd valid →
      takes fuel valid hw (some blocks) s0 x.bdf = true := by
    intro x hx hseg hl
    exact (takes_slot_iff hrd ht hu hx (hmap x hx) hseg (hsearch x hx)).mpr ⟨hl.1, hl.2.1,
      .inr hl.2.2.1, hl.2.2.2⟩
  rw [lists_filter_iff ht _ _ hmap]
  constructor
  · intro h
    refine ⟨hne, hmap, ?_, ?_⟩
    · intro x hx hge y hy hbdf hl
      have hp := (h y hy).2.mpr hl
      rw [hbdf] at hp
      exact absurd ((h x hx).1 hp) (not_lt.mpr hge)
    · intro x hx hseg hresp hhb hvalid hones
      exact ((h x hx).2.mp ((takes_slot_iff hrd ht hu hx (hmap x hx) hseg (hsearch x hx)).mpr
        ⟨hresp, hhb, .inl hones, hvalid⟩)).2.2.1
  · intro h x hx
    have hfits : ∀ y ∈ slots blocks, y.window.segmentNum < 256 →
        (takes fuel valid hw (some blocks) s0 y.bdf = true ↔
          y.Listed rd valid) := by
      intro y hy hseg
      refine ⟨fun hp => ?_, hlisted y hy hseg⟩
      obtain ⟨hresp, hhb, hcap, hvalid⟩ :=
        (takes_slot_iff hrd ht hu hy (hmap y hy) hseg (hsearch y hy)).mp hp
      refine ⟨hresp, hhb, ?_, hvalid⟩
      rcases hcap with hones | hcap
      · exact h.pointer y hy hseg hresp hhb hvalid hones
      · exact hcap
    rcases lt_or_ge x.window.segmentNum 256 with hseg | hge
    · exact ⟨fun _ => hseg, hfits x hx hseg⟩
    · obtain ⟨y, hy, hbdf, hyseg, -⟩ := exists_alias ht hx (hmap x hx)
      have hnot : ¬ takes fuel valid hw (some blocks) s0 x.bdf = true := by
        rw [← hbdf, hfits y hy (hyseg ▸ Nat.mod_lt _ (by decide))]
        exact h.narrow x hx hge y hy hbdf
      exact ⟨fun hp => absurd hp hnot,
        iff_of_false hnot (h.narrow x hx hge x hx rfl)⟩

end

end

/-- Every call is exact when the first build never returns, or runs over mapped slots,
none of which is a function to list in a segment beyond eight bits or taken for one
with a capability because its pointer register reads all ones. -/
theorem valPcieCreateDeviceBdfTable_contract_iff (ht : InfoTable blocks)
    (hu : Undisturbed hw (some blocks) s0) :
    BdfContract hw blocks valid s0 ↔ Hangs hw blocks s0 ∨
      Enumerable blocks (hw.read (enabled hw (some blocks) s0)) valid := by
  rw [bdfContract_iff]
  by_cases hhang : Hangs hw blocks s0
  · refine iff_of_true ?_ (.inl hhang)
    intro fuel ret table s' hbuild
    obtain ⟨x, hx, hc, hendless⟩ := hhang
    have hend := searchesEnd_of_build hu hbuild x.bdf (mem_map_of_mem hx) hc
    rw [(endlessSearch_iff (reached_mapped hx).2).mp hendless fuel] at hend
    cases hend
  · obtain ⟨fuel0, hend0⟩ := exists_fuel_of_not_hangs hhang
    simp only [hhang, false_or]
    by_cases hok : blocks ≠ [] ∧ ∀ x ∈ slots blocks, Mapped (some blocks) x.bdf
    · obtain ⟨hne, hmap⟩ := hok
      rw [map_reached hmap] at hend0
      constructor
      · intro h
        exact (lists_takes_iff rfl ht hu hne hmap hend0).mp
          (h _ _ _ _ (build_of_mapped hu valid hne hmap hend0)).2
      · intro h fuel ret table s' hbuild
        have hend := searchesEnd_of_build hu hbuild
        rw [map_reached hmap] at hend
        rw [build_of_mapped hu valid hne hmap hend] at hbuild
        cases hbuild
        exact ⟨rfl, (lists_takes_iff rfl ht hu hne hmap hend).mpr h⟩
    · refine iff_of_false ?_ (fun h => hok ⟨h.nonempty, h.mapped⟩)
      intro h
      rw [not_and_or] at hok
      push Not at hok
      obtain ⟨table, s', hbuild⟩ := build_fails hu valid hok hend0
      exact absurd (h _ _ _ _ hbuild).1 (by decide)

/-! ## One function -/

def oneFunctionHw : CfgHw Unit := ⟨fun _ => oneFunction, fun s _ _ => s⟩

theorem undisturbed_oneFunctionHw (t : Option (List PcieInfoBlock)) :
    Undisturbed oneFunctionHw t () :=
  ⟨fun _ _ _ _ _ => rfl, fun _ _ _ _ _ _ => rfl⟩

theorem valPcieCreateDeviceBdfTable_segmentZero :
    BdfContract oneFunctionHw [⟨0x30000000, 0, 0, 0⟩] (fun _ => 0) () := by
  have ht : InfoTable [⟨0x30000000, 0, 0, 0⟩] := ⟨by decide, by decide, pairwise_singleton _ _⟩
  have hseg : ∀ x ∈ slots [⟨0x30000000, 0, 0, 0⟩], x.window.segmentNum = 0 := by
    intro x hx
    rw [mem_singleton.mp (mem_slots.mp hx).1]
  have hpointer : ∀ x ∈ slots [⟨0x30000000, 0, 0, 0⟩],
      x.word oneFunction type01Vidr ≠ pcieUnknownResponse →
      x.word oneFunction type01Cpr ≠ pcieUnknownResponse := by
    decide +kernel
  refine (valPcieCreateDeviceBdfTable_contract_iff ht (undisturbed_oneFunctionHw _)).mpr
    (.inr ⟨by decide, by decide +kernel, ?_, ?_⟩)
  · intro x hx hge
    rw [hseg x hx] at hge
    exact absurd hge (by decide)
  · intro x hx _ hresp _ _ hones
    exact absurd hones (hpointer x hx hresp)

/-- Segment 256 becomes segment 0 in the BDF, and the first slot is not mapped.  The
first call fails, the next one reports success with an empty table. -/
theorem valPcieCreateDeviceBdfTable_segment256 :
    valPcieCreateDeviceBdfTable oneFunctionHw (some [⟨0x30000000, 256, 0, 0⟩]) 1 (fun _ => 0) true
        none () = some (1, some [], ()) ∧
      valPcieCreateDeviceBdfTable oneFunctionHw (some [⟨0x30000000, 256, 0, 0⟩]) 1 (fun _ => 0)
        true (some []) () = some (pcieSuccess, some [], ()) ∧
      ¬ Lists [⟨0x30000000, 256, 0, 0⟩] oneFunction (fun _ => 0) [] ∧
      ¬ BdfContract oneFunctionHw [⟨0x30000000, 256, 0, 0⟩] (fun _ => 0) () := by
  have hfirst : valPcieCreateDeviceBdfTable oneFunctionHw (some [⟨0x30000000, 256, 0, 0⟩]) 1
      (fun _ => 0) true none () = some (1, some [], ()) := by
    decide +kernel
  refine ⟨hfirst, rfl, ?_, fun h => ?_⟩
  · -- function 0 of device 0 answers and has the capability at 0x40
    have hcap : Slot.HasPcieCap ⟨⟨0x30000000, 256, 0, 0⟩, 0, 0, 0⟩ oneFunction :=
      ⟨0x40, .here (by decide), by decide⟩
    have hlisted : Slot.Listed ⟨⟨0x30000000, 256, 0, 0⟩, 0, 0, 0⟩ oneFunction (fun _ => 0) :=
      ⟨by unfold Slot.Responds; decide, by unfold Slot.HostBridge; decide, hcap, rfl⟩
    intro h
    rw [Lists, map_nil, eq_comm, map_eq_nil_iff, filter_eq_nil_iff] at h
    exact h ⟨⟨0x30000000, 256, 0, 0⟩, 0, 0, 0⟩ (mem_slots.mpr (by decide)) (by simpa using hlisted)
  · exact absurd (bdfContract_iff.mp h _ _ _ _ hfirst).1 (by decide)

end ServerSoc.Pcie
