/-
Arrays of regions and earlier calls (val_pgt_create in acs_pgt.c).

The loop over the array moves one pointer on and maps the region of another one, so a call with
several regions maps the first of them again and again. What an earlier call leaves behind for a
later one, besides its tables, is the counters of filled entries.
-/
import ServerSoc.Pgt.Build

namespace ServerSoc.Pgt

open Base Radix List

variable {g : Granule} {ias oas fuel : Nat} {r : MemoryRegion} {P : Pages g ias} {s s' : State}

section

variable {base b i : Nat} {h : Heap (List Nat)} {bases : List Nat} {trees : Nat → Nat → Radix}

def MadeTable (g : Granule) (ias : Nat) (r : MemoryRegion) (table : Nat → Radix) : Prop :=
  ∀ va l, leafAt g.fan (va / g.pageSize) (topHeight g ias)
    (table (va / g.pageSize / g.fan ^ topHeight g ias % g.fan)) = some l → Made g ias r va l

theorem MadeTable.mapRegion {table : Nat → Radix} (hm : MadeTable g ias r table) (info : AcsPgt) :
    MadeTable g ias r (mapRegion g ias r info table) := by
  intro va l hl
  rcases leafAt_overlay_cases hl with ⟨l', hl', rfl⟩ | hold
  · exact ⟨info, l'.1, hl', rfl⟩
  · exact hm va l hold

/-- However many turns the loop makes, every leaf is one of the first region. -/
theorem Tables.regions (ht : Tables P s h bases trees) (hf : Format g ias)
    (hr : RegionOk g ias oas r) (hfuel : (topHeight g ias + 1) * (g.fan + 1) ≤ fuel)
    (hi : bases[i]? = some base) (hm : MadeTable g ias r (trees i)) {regions : List MemoryRegion}
    (hcall : createRegions (globalsOf g ias) P.alloc fuel g.log2 base ⟨b, ias, oas⟩ regions r s =
      some (0, s')) :
    ∃ h' trees', Tables P s' h' bases trees' ∧ MadeTable g ias r (trees' i) := by
  induction regions generalizing s h trees with
  | nil =>
    cases hcall
    exact ⟨h, trees, ht, hm⟩
  | cons q rest ih =>
    rcases ht.fill hf hr hfuel hi with ⟨s1, hfill, -⟩ | ⟨s1, h1, hfill, ht1, -⟩
    · rw [hr.createRegions_eq base b fuel _ s hfill] at hcall
      cases hcall
    · rw [hr.createRegions_eq base b fuel _ s hfill] at hcall
      refine ih ht1 ?_ hcall
      rw [Function.update_self]
      exact hm.mapRegion _

end

section

variable {desc : PgtDescriptor} {r2 : MemoryRegion} {rest : List MemoryRegion}

theorem not_maps_second (hf : Format g ias) (hr : RegionOk g ias oas r)
    (hr2 : RegionOk g ias oas r2) (hapart : ∀ va, InRegion r va → ¬ InRegion r2 va)
    (hfuel : (topHeight g ias + 1) * (g.fan + 1) ≤ fuel)
    (hc : Counters g (topHeight g ias) (initValues s).info)
    (hcall : valPgtCreate g.pageSize P.alloc fuel (r :: rest) ⟨0, ias, oas⟩ s = some (0, desc, s'))
    (hm : MapsRegion g ias r s'.mem desc.pgtBase) : ¬ MapsRegion g ias r2 s'.mem desc.pgtBase := by
  intro hm2
  cases hp : P.alloc s.allocated with
  | none => cases hcall.symm.trans (valPgtCreate_no_page hp fuel (r :: rest) ias oas)
  | some p =>
    obtain ⟨s1, h1, halloc, ht1, -⟩ := (tables_none P s hc).newPage hp
    obtain ⟨hbase, hregions⟩ := hf.createRegions_of_call ((if_pos rfl).trans halloc) hcall
    obtain rfl := hbase rfl
    obtain ⟨h', trees', ht', hmade⟩ := ht1.regions (i := 0) hf hr hfuel rfl
      (fun va l hl => by cases hl) hregions
    have hwalk := (ht'.enc 0 _ rfl).hwWalk_eq ht'.owned.allocated hf.lt.le hf.le
    rw [ht'.owned.mem] at hwalk
    have hmade' : ∀ va l, hwWalk g s'.mem (topHeight g ias) desc.pgtBase va = some l →
        Made g ias r va l := fun va l hl => hmade va l ((hwalk va).symm.trans hl)
    have hpos := hr2.lengthPos
    have hin : InRegion r2 r2.virtualAddress := ⟨le_rfl, by omega⟩
    obtain ⟨l, hl, -⟩ := hm2 _ hin
    obtain ⟨info, o, hleaf, -⟩ := hmade' _ l hl
    -- the leaves of a straight region are inside it
    cases hleaf.symm.trans ((within_plan (hm.straight hr hf hmade') (hr.inBlock_top hf)
      (hr.div_top hf (hr2.va_lt hin))).leafAt_none
        fun hrange => hapart _ ((hr.inRange_iff _).mp hrange) hin)

/-- A call for a new table maps every region of its array exactly when there is at most one, and
that one is built as it should be. -/
theorem valPgtCreate_regions_iff (P : Pages g ias) (hias : ias ≤ 48) {regions : List MemoryRegion}
    (hregions : ∀ r ∈ regions, RegionOk g ias oas r)
    (hapart : regions.Pairwise fun r r2 => ∀ va, InRegion r va → ¬ InRegion r2 va)
    (hfuel : (topHeight g ias + 1) * (g.fan + 1) ≤ fuel) (hz : (initValues s).info = AcsPgt.zero)
    (hcall : valPgtCreate g.pageSize P.alloc fuel regions ⟨0, ias, oas⟩ s = some (0, desc, s')) :
    (∀ r ∈ regions, MapsRegion g ias r s'.mem desc.pgtBase) ↔
      regions.length ≤ 1 ∧ ∀ r ∈ regions, BuildsExactly g ias r := by
  have hf := P.format_of_create hias hcall
  have hc : Counters g (topHeight g ias) (initValues s).info := hz ▸ counters_zero g _
  match regions with
  | [] => exact iff_of_true nofun ⟨Nat.zero_le 1, nofun⟩
  | [r] =>
    have hr := hregions r (mem_singleton.mpr rfl)
    have hwalk := (tables_none P s hc).hwWalk_create hf hr hfuel hcall
    rw [hz] at hwalk
    simp only [mem_singleton, forall_eq, length_singleton, le_refl, true_and]
    constructor
    · intro hm
      exact hm.buildsExactly hr hf hwalk
    · intro hb
      exact (hb.mapsExactly hr hf hwalk).inside
  | r :: r2 :: rest =>
    have hr := hregions r mem_cons_self
    have hmem : r2 ∈ r :: r2 :: rest := mem_cons_of_mem _ mem_cons_self
    refine iff_of_false (fun hall => ?_) fun hall => absurd hall.1 (Nat.not_le_of_gt ?_)
    · exact not_maps_second hf hr (hregions r2 hmem)
        (rel_of_pairwise_cons hapart mem_cons_self) hfuel hc hcall
        (hall r mem_cons_self) (hall r2 hmem)
    · simp

theorem valPgtCreate_regions_pageZero :
    RegionOk .k4 22 32 pageZero ∧ ∀ r ∈ [pageZero], MapsRegion .k4 22 r smallTable.mem 0x10000 := by
  have hb : BuildsExactly .k4 22 pageZero :=
    ⟨straight_of_dvd (Nat.dvd_zero _), .inl le_rfl, by decide⟩
  have hcall : smallCall pageZero 0 (firstState fun _ => 0) =
      some (0, ⟨0x10000, 22, 32⟩, smallTable) := smallCall_eq (by decide +kernel)
  refine ⟨regionOk_pageZero, (valPgtCreate_regions_iff smallPages (by decide) ?_
    (pairwise_singleton _ _) (by decide) rfl hcall).mpr ⟨Nat.le_refl 1, ?_⟩⟩
  · exact forall_mem_singleton.mpr regionOk_pageZero
  · exact forall_mem_singleton.mpr hb

/-- Two pages that do not meet: the second one is not mapped. -/
theorem valPgtCreate_regions_lost :
    RegionOk .k4 22 32 pageZero ∧ RegionOk .k4 22 32 pageOne ∧ InRegion pageOne 0x1000 ∧
      (valPgtCreate Granule.k4.pageSize smallPages.alloc 1026 [pageZero, pageOne] ⟨0, 22, 32⟩
        (firstState fun _ => 0)).map (fun res => (res.1, res.2.1.pgtBase,
          hwWalk .k4 res.2.2.mem 1 res.2.1.pgtBase 0,
            hwWalk .k4 res.2.2.mem 1 res.2.1.pgtBase 0x1000)) =
        some (0, 0x10000, some (0x100003, 0), none) := by
  refine ⟨regionOk_pageZero, by constructor <;> decide, ?_, by decide +kernel⟩
  unfold InRegion
  decide

end

/-- The region is made of blocks of the first table, for which no counter is read. -/
structure BlocksOnly (g : Granule) (ias : Nat) (r : MemoryRegion) : Prop where
  first : g.fan ^ topHeight g ias ∣ firstPage g r
  out : g.fan ^ topHeight g ias ∣ outPage g r
  count : g.fan ^ topHeight g ias ∣ pageCount g r

theorem BlocksOnly.regionPlan_eq (h : BlocksOnly g ias r) (info info' : AcsPgt) :
    (regionPlan g ias r info).1 = (regionPlan g ias r info').1 := by
  have hpos := g.fan_pow_pos (topHeight g ias)
  have hleaf : ∀ k < blocks (g.fan ^ topHeight g ias) (pageCount g r), ∀ info,
      (planLoop g (topHeight g ias) (firstPage g r) (pageCount g r) (outPage g r) k info).1 =
        .leaf (outPage g r + k * g.fan ^ topHeight g ias) := by
    intro k hk info
    rw [lt_blocks_iff hpos] at hk
    have hmul := Nat.dvd_mul_left (g.fan ^ topHeight g ias) k
    exact planEntry_leaf (Nat.dvd_add h.first hmul) (Nat.dvd_add h.out hmul)
      (Nat.dvd_sub h.count hmul) (by omega)
  exact sweep_congr hleaf info info'

section

variable {fuel1 fuel2 : Nat} {s1 s2 s1' s2' : State} {desc1 desc2 : PgtDescriptor}

/-- Two programs that come to the call with the same counters, or with a region of blocks, whatever
else they did before and wherever their pages are, make tables with the same translations. -/
theorem valPgtCreate_same_walks (P1 P2 : Pages g ias) (hias : ias ≤ 48) (hr : RegionOk g ias oas r)
    (hfuel1 : (topHeight g ias + 1) * (g.fan + 1) ≤ fuel1)
    (hfuel2 : (topHeight g ias + 1) * (g.fan + 1) ≤ fuel2)
    (hc1 : Counters g (topHeight g ias) (initValues s1).info)
    (hc2 : Counters g (topHeight g ias) (initValues s2).info)
    (hsame : (initValues s1).info = (initValues s2).info ∨ BlocksOnly g ias r)
    (hcall1 : valPgtCreate g.pageSize P1.alloc fuel1 [r] ⟨0, ias, oas⟩ s1 = some (0, desc1, s1'))
    (hcall2 : valPgtCreate g.pageSize P2.alloc fuel2 [r] ⟨0, ias, oas⟩ s2 = some (0, desc2, s2'))
    (va : Nat) :
    hwWalk g s1'.mem (topHeight g ias) desc1.pgtBase va =
      hwWalk g s2'.mem (topHeight g ias) desc2.pgtBase va := by
  have hf := P1.format_of_create hias hcall1
  rw [(tables_none P1 s1 hc1).hwWalk_create hf hr hfuel1 hcall1 va,
    (tables_none P2 s2 hc2).hwWalk_create hf hr hfuel2 hcall2 va]
  rcases hsame with hsame | hblocks
  · rw [hsame]
  · rw [hblocks.regionPlan_eq _ (initValues s2).info]

def evenBlock : MemoryRegion := ⟨0x400000, 0, 0x200000, 0⟩

-- the physical pages of this one are not a block
def unevenBlock : MemoryRegion := ⟨0x301000, 0, 0x200000, 0⟩

/-- A block is not counted, so a table of one page is the same before and after it. -/
theorem valPgtCreate_same_walks_block :
    RegionOk .k4 22 32 pageZero ∧ ∀ va, hwWalk .k4 smallTable.mem 1 0x10000 va =
      hwWalk .k4 (afterCall pageZero 0 (afterCall evenBlock 0 (firstState fun _ => 0))).mem 1
        0x11000 va := by
  have hcall1 : smallCall pageZero 0 (firstState fun _ => 0) =
      some (0, ⟨0x10000, 22, 32⟩, smallTable) := smallCall_eq (by decide +kernel)
  have hcall2 : smallCall pageZero 0 (afterCall evenBlock 0 (firstState fun _ => 0)) =
      some (0, ⟨0x11000, 22, 32⟩,
        afterCall pageZero 0 (afterCall evenBlock 0 (firstState fun _ => 0))) :=
    smallCall_eq (by decide +kernel)
  have hc := (tables_start smallPages fun _ => 0).counters
  have hsame : (initValues (firstState fun _ => 0)).info =
      (initValues (afterCall evenBlock 0 (firstState fun _ => 0))).info := by decide +kernel
  exact ⟨regionOk_pageZero, valPgtCreate_same_walks smallPages smallPages (by decide)
    regionOk_pageZero (by decide) (by decide) hc (hsame ▸ hc) (.inl hsame) hcall1 hcall2⟩

/-- The last page of the block is mapped by the first call of a program, and not when a table of
one page was made before. -/
theorem valPgtCreate_history_lost :
    RegionOk .k4 22 32 unevenBlock ∧ InRegion unevenBlock 0x1ff000 ∧
      (smallCall unevenBlock 0 (firstState fun _ => 0)).map (fun res => (res.1,
        hwWalk .k4 res.2.2.mem 1 res.2.1.pgtBase 0x1ff000)) = some (0, some (0x500003, 0)) ∧
      (smallCall unevenBlock 0 smallTable).map (fun res => (res.1,
        hwWalk .k4 res.2.2.mem 1 res.2.1.pgtBase 0x1ff000)) = some (0, none) := by
  refine ⟨by constructor <;> decide, ?_, by decide +kernel, by decide +kernel⟩
  unfold InRegion
  decide

end

end ServerSoc.Pgt
