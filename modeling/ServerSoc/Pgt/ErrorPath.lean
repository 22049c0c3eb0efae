/-
Calls of `val_pgt_create` that fail.

Every loop that is open when the allocator fails frees its table, also one from before the call,
and a table that was completed is not freed.  So a failed call gives back what it allocated only if
the allocator fails while the first tables are opened.
-/
import Mathlib.Data.List.Perm.Subperm
import ServerSoc.Pgt.Frame

namespace ServerSoc.Pgt

open Base List

/-- The checks of `val_pgt_create` on a region: its addresses are pages, and its output address
is inside the output size. -/
def FailsChecks (g : Granule) (oas : Nat) (r : MemoryRegion) : Prop :=
  ¬ g.pageSize ∣ r.virtualAddress ∨ ¬ g.pageSize ∣ r.physicalAddress ∨ 2 ^ oas ≤ r.physicalAddress

inductive TablePage (g : Granule) (mem : Nat → Nat) : Nat → Nat → Nat → Prop
  | base (n base : Nat) : TablePage g mem n base base
  | step {n base p : Nat} (i : Nat) (hi : i < g.fan)
    (htable : isPgtEntryTable (mem (base + 8 * i)) = true)
    (hbelow : TablePage g mem n (g.tableAddress (mem (base + 8 * i))) p) :
    TablePage g mem (n + 1) base p

def newlyFreed (s s' : State) : List Nat := s'.freed.drop s.freed.length

/-- A failed call left the table it was given alone, and freed each page it allocated once. -/
structure ErrorClean (g : Granule) (ias : Nat) (alloc : Nat → Option Nat) (base : Nat)
    (s s' : State) : Prop where
  walk : base ≠ 0 → ∀ va < 2 ^ ias,
    hwWalk g s'.mem (topHeight g ias) base va = hwWalk g s.mem (topHeight g ias) base va
  kept : base ≠ 0 → ∀ p, TablePage g s.mem (topHeight g ias) base p → p ∉ newlyFreed s s'
  freed : ∀ k, s.allocated ≤ k → k < s'.allocated → ∀ p, alloc k = some p →
    (newlyFreed s s').count p = 1

/-- With a table, it is the checks that fail.  Without one, the page for the first table fails, or
the checks do not and the allocator fails while the first tables are opened. -/
def ErrorFits (g : Granule) (ias oas : Nat) (alloc : Nat → Option Nat) (base : Nat)
    (r : MemoryRegion) (s : State) : Prop :=
  base ≠ 0 ∧ FailsChecks g oas r ∨
  base = 0 ∧ (alloc s.allocated = none ∨ ¬ FailsChecks g oas r ∧
    ∃ j ≤ openRegion g ias r (initValues s).info, alloc (s.allocated + j) = none)

section

variable {g : Granule} {ias oas fuel base : Nat} {P : Pages g ias} {r : MemoryRegion} {s s' : State}
  {h : Heap (List Nat)} {bases : List Nat} {trees : Nat → Nat → Radix} {desc : PgtDescriptor}
  {rest : List MemoryRegion}

theorem RegionOk.not_failsChecks (hr : RegionOk g ias oas r) : ¬ FailsChecks g oas r := by
  intro hc
  rcases hc with hv | hp | hlt
  · exact hv hr.virtualAligned
  · exact hp hr.physicalAligned
  · exact absurd hr.physicalLt (not_lt.mpr hlt)

theorem FailsChecks.createRegions_eq (hc : FailsChecks g oas r) (alloc : Nat → Option Nat)
    (fuel ttBase : Nat) (s : State) :
    createRegions (globalsOf g ias) alloc fuel g.log2 ttBase ⟨base, ias, oas⟩ (r :: rest) r s =
      some (1, s) := by
  have hmask (x : Nat) : x &&& (globalsOf g ias).pageSize - 1 ≠ 0 ↔ ¬ g.pageSize ∣ x := by
    rw [Nat.dvd_iff_mod_eq_zero]
    exact not_congr
      (by rw [show x &&& (globalsOf g ias).pageSize - 1 = x % g.pageSize from and_low x g.log2])
  rw [createRegions]
  by_cases halign : r.virtualAddress &&& (globalsOf g ias).pageSize - 1 ≠ 0 ∨
      r.physicalAddress &&& (globalsOf g ias).pageSize - 1 ≠ 0
  · rw [if_pos halign]
  · rw [if_neg halign]
    rw [hmask, hmask] at halign
    have hlt : 1 <<< oas ≤ r.physicalAddress := by
      rw [Nat.one_shiftLeft]
      rcases hc with hv | hp | hlt
      · exact absurd (.inl hv) halign
      · exact absurd (.inr hp) halign
      · exact hlt
    exact if_pos hlt

def pagesGiven (P : Pages g ias) (s s' : State) : List Nat :=
  (List.range' s.allocated (s'.allocated - s.allocated)).map fun k => (P.alloc k).getD 0

theorem Given.mem_pages (hg : Given P.alloc s s') {p : Nat} :
    p ∈ pagesGiven P s s' ↔ ∃ k, s.allocated ≤ k ∧ k < s'.allocated ∧ P.alloc k = some p := by
  rw [pagesGiven, mem_map]
  constructor
  · rintro ⟨k, hk, heq⟩
    obtain ⟨h1, h2⟩ := mem_range'_1.mp hk
    obtain ⟨q, hq⟩ := Option.ne_none_iff_exists'.mp (hg.pages k h1 (by omega))
    rw [hq] at heq
    exact ⟨k, h1, by omega, hq.trans (congrArg some heq)⟩
  · rintro ⟨k, h1, h2, hk⟩
    exact ⟨k, mem_range'_1.mpr ⟨h1, by omega⟩, by rw [hk]; rfl⟩

theorem Given.nodup_pages (hg : Given P.alloc s s') : (pagesGiven P s s').Nodup := by
  apply List.Nodup.map_on
  · intro j hj k hk heq
    obtain ⟨h1, h2⟩ := mem_range'_1.mp hj
    obtain ⟨h3, h4⟩ := mem_range'_1.mp hk
    obtain ⟨p, hp⟩ := Option.ne_none_iff_exists'.mp (hg.pages j h1 (by omega))
    obtain ⟨q, hq⟩ := Option.ne_none_iff_exists'.mp (hg.pages k h3 (by omega))
    rw [hp, hq] at heq
    obtain rfl : p = q := heq
    exact P.inj j k p hp hq
  · exact nodup_range'

theorem Failed.clean_iff {c : Nat} (hf : Failed P c s s') (hg : Given P.alloc s s') :
    (∀ k, s.allocated ≤ k → k < s'.allocated → ∀ p, P.alloc k = some p →
      (newlyFreed s s').count p = 1) ↔ s'.allocated < s.allocated + c := by
  obtain ⟨freed, heq, hnodup, hpages, hle, hiff⟩ := hf
  have hnew : newlyFreed s s' = freed := by
    rw [newlyFreed, heq, drop_left]
  have hsub : freed ⊆ pagesGiven P s s' := fun p hp => hg.mem_pages.mpr (hpages p hp)
  have hlength : (pagesGiven P s s').length = s'.allocated - s.allocated := by
    rw [pagesGiven, length_map, length_range']
  rw [hnew]
  constructor
  · intro hall
    have hback : pagesGiven P s s' ⊆ freed := by
      intro p hp
      obtain ⟨k, h1, h2, hk⟩ := hg.mem_pages.mp hp
      exact count_pos_iff.mp (by rw [hall k h1 h2 p hk]; decide)
    have hlen := (hg.nodup_pages.subperm hback).length_le
    omega
  · intro hall k h1 h2 p hk
    have hperm := (hnodup.subperm hsub).perm_of_length_le (by omega)
    exact count_eq_one_of_mem hnodup
      (hperm.mem_iff.mpr (hg.mem_pages.mpr ⟨k, h1, h2, hk⟩))

theorem Given.exists_none_iff (hg : Given P.alloc s s') (hnone : P.alloc s'.allocated = none)
    (c : Nat) :
    (∃ j ≤ c, P.alloc (s.allocated + j) = none) ↔ s'.allocated < s.allocated + (1 + c) := by
  have hle := hg.le
  constructor
  · rintro ⟨j, hj, hjn⟩
    by_contra hlt
    exact hg.pages (s.allocated + j) (by omega) (by omega) hjn
  · intro hlt
    refine ⟨s'.allocated - s.allocated, by omega, ?_⟩
    rw [Nat.add_sub_cancel' hle]
    exact hnone

/-- Whichever turn of the loop fails, the first table is freed. -/
theorem Tables.regions_freed (ht : Tables P s h bases trees) (hf : Format g ias)
    (hr : RegionOk g ias oas r) (hfuel : (topHeight g ias + 1) * (g.fan + 1) ≤ fuel) {i b : Nat}
    (hi : bases[i]? = some base) {regions : List MemoryRegion}
    (hcall : createRegions (globalsOf g ias) P.alloc fuel g.log2 base ⟨b, ias, oas⟩ regions r s =
      some (1, s')) : ∃ freed, s.freed ++ freed = s'.freed ∧ base ∈ freed := by
  induction regions generalizing s h trees with
  | nil => cases hcall
  | cons q rest ih =>
    rcases ht.fill hf hr hfuel hi with ⟨s1, hfill, hb⟩ | ⟨s1, h1, hfill, ht1, hgrown⟩
    · rw [hr.createRegions_eq base b fuel _ s hfill] at hcall
      cases hcall
      obtain ⟨freed, hfreed⟩ := hb.given.freed
      refine ⟨freed ++ [base], ?_, mem_append_right _ (mem_singleton_self base)⟩
      rw [← append_assoc, hfreed]
      rfl
    · rw [hr.createRegions_eq base b fuel _ s hfill] at hcall
      exact hgrown.freed ▸ ih ht1 hcall

section

variable (ht : Tables P s h bases trees) (hf : Format g ias)
  (hr : FailsChecks g oas r ∨ RegionOk g ias oas r)
  (hfuel : (topHeight g ias + 1) * (g.fan + 1) ≤ fuel)
include ht hf hr hfuel

theorem errorClean_update {i : Nat} (hi : bases[i]? = some base) (hpos : base ≠ 0)
    (hcall : valPgtCreate g.pageSize P.alloc fuel (r :: rest) ⟨base, ias, oas⟩ s =
      some (1, desc, s')) : ErrorClean g ias P.alloc base s s' ↔ FailsChecks g oas r := by
  obtain ⟨-, hregions⟩ := hf.createRegions_of_call (if_neg hpos) hcall
  rcases hr with hc | hr
  · cases hregions.symm.trans (hc.createRegions_eq P.alloc fuel base s)
    have hnone : newlyFreed s s = [] := drop_length
    refine ⟨fun _ => hc, fun _ => ⟨fun _ _ _ => rfl, fun _ p _ => ?_, fun k h1 h2 => ?_⟩⟩
    · rw [hnone]
      exact not_mem_nil
    · omega
  · obtain ⟨freed, hfreed, hmem⟩ := ht.regions_freed hf hr hfuel hi hregions
    refine ⟨fun hclean => ?_, fun hc => absurd hc hr.not_failsChecks⟩
    refine absurd ?_ (hclean.kept hpos base (.base _ base))
    rwa [newlyFreed, ← hfreed, drop_left]

theorem errorClean_create
    (hcall : valPgtCreate g.pageSize P.alloc fuel (r :: rest) ⟨0, ias, oas⟩ s = some (1, desc, s'))
    (hfirst : ∀ desc s', valPgtCreate g.pageSize P.alloc fuel [r] ⟨0, ias, oas⟩ s ≠
      some (0, desc, s')) :
    ErrorClean g ias P.alloc 0 s s' ↔ P.alloc s.allocated = none ∨ ¬ FailsChecks g oas r ∧
      ∃ j ≤ openRegion g ias r (initValues s).info, P.alloc (s.allocated + j) = none := by
  have hclean : ErrorClean g ias P.alloc 0 s s' ↔ ∀ k, s.allocated ≤ k → k < s'.allocated →
      ∀ p, P.alloc k = some p → (newlyFreed s s').count p = 1 :=
    ⟨fun hc => hc.freed, fun hc => ⟨fun hne => absurd rfl hne, fun hne => absurd rfl hne, hc⟩⟩
  rw [hclean]
  cases hp : P.alloc s.allocated with
  | none =>
    cases hcall.symm.trans (valPgtCreate_no_page hp fuel (r :: rest) ias oas)
    exact ⟨fun _ => .inl rfl, fun _ k h1 h2 => absurd h2 (not_lt.mpr h1)⟩
  | some p =>
    rcases hr with hc | hr
    · -- the page for the table is lost
      obtain ⟨s1, h1, halloc, -, -, hgrown⟩ := ht.newPage hp
      obtain ⟨-, hregions⟩ := hf.createRegions_of_call ((if_pos rfl).trans halloc) hcall
      cases hregions.symm.trans (hc.createRegions_eq P.alloc fuel p s1)
      have hnone : newlyFreed s s' = [] := by
        rw [newlyFreed, hgrown.freed, drop_length]
      refine ⟨fun hall => ?_, fun hfits => ?_⟩
      · have hone := hall s.allocated le_rfl (by rw [hgrown.allocated]; omega) p hp
        rw [hnone] at hone
        cases hone
      · rcases hfits with hn | ⟨hn, -⟩
        · cases hn
        · exact absurd hc hn
    · have hbroken := (ht.create hf hr hfuel hp).failure hcall hfirst
      rw [(hbroken.failed trivial).clean_iff hbroken.given,
        ← hbroken.given.exists_none_iff hbroken.full]
      refine ⟨fun hj => .inr ⟨hr.not_failsChecks, hj⟩, fun hfits => ?_⟩
      rcases hfits with hn | ⟨-, hj⟩
      · cases hn
      · exact hj

end

/-- A call that fails leaves a table it was given as it was and gives back what it allocated,
exactly if the checks fail for a given table, or the first page or one of the tables opened first
fails for a new one.  For a new table this is about arrays whose first region fails. -/
theorem valPgtCreate_error_iff (hf : Format g ias)
    (hs : Reachable P oas s bases) (hbase : base = 0 ∨ base ∈ bases)
    (hr : FailsChecks g oas r ∨ RegionOk g ias oas r)
    (hfuel : (topHeight g ias + 1) * (g.fan + 1) ≤ fuel)
    (hcall : valPgtCreate g.pageSize P.alloc fuel (r :: rest) ⟨base, ias, oas⟩ s =
      some (1, desc, s'))
    (hfirst : base = 0 → ∀ desc s', valPgtCreate g.pageSize P.alloc fuel [r] ⟨base, ias, oas⟩ s ≠
      some (0, desc, s')) :
    ErrorClean g ias P.alloc base s s' ↔ ErrorFits g ias oas P.alloc base r s := by
  obtain ⟨h, trees, ht⟩ := hs.tables hf
  rcases hbase with rfl | hmem
  · rw [errorClean_create ht hf hr hfuel hcall (hfirst rfl)]
    refine ⟨fun hfits => .inr ⟨rfl, hfits⟩, fun hfits => ?_⟩
    rcases hfits with ⟨hne, -⟩ | ⟨-, hfits⟩
    · exact absurd rfl hne
    · exact hfits
  · obtain ⟨i, hi⟩ := List.mem_iff_getElem?.mp hmem
    have hpos := Nat.pos_iff_ne_zero.mp ((ht.enc i base hi).table_lt ht.owned.allocated).1
    rw [errorClean_update ht hf hr hfuel hi hpos hcall]
    refine ⟨fun hc => .inl ⟨hpos, hc⟩, fun hfits => ?_⟩
    rcases hfits with ⟨-, hc⟩ | ⟨hzero, -⟩
    · exact hc
    · exact absurd hzero hpos

end

def Pages.take {g : Granule} {ias : Nat} (P : Pages g ias) (n : Nat) : Pages g ias where
  alloc k := if k < n then P.alloc k else none
  aligned k p h := P.aligned k p (Option.ite_none_right_eq_some.mp h).2
  pos k p h := P.pos k p (Option.ite_none_right_eq_some.mp h).2
  below k p h := P.below k p (Option.ite_none_right_eq_some.mp h).2
  inj j k p hj hk :=
    P.inj j k p (Option.ite_none_right_eq_some.mp hj).2 (Option.ite_none_right_eq_some.mp hk).2

def fewPagesCall (n : Nat) (r : MemoryRegion) (base : Nat) (s : State) :
    Option (Nat × PgtDescriptor × State) :=
  valPgtCreate Granule.k4.pageSize (smallPages.take n).alloc 1026 [r] ⟨base, 22, 32⟩ s

def afterFewPages (n : Nat) (r : MemoryRegion) (base : Nat) (s : State) : State :=
  (fewPagesCall n r base s).elim s fun res => res.2.2

theorem fewPagesCall_eq {n status base : Nat} {r : MemoryRegion} {s : State} {desc : PgtDescriptor}
    (h : (fewPagesCall n r base s).map (fun res => (res.1, res.2.1)) = some (status, desc)) :
    fewPagesCall n r base s = some (status, desc, afterFewPages n r base s) := by
  unfold afterFewPages
  cases hres : fewPagesCall n r base s with
  | none =>
    rw [hres] at h
    cases h
  | some res =>
    rw [hres] at h
    cases h
    rfl

/-- There is a page for the first table and none for the second. -/
theorem valPgtCreate_error_onePage :
    fewPagesCall 1 pageZero 0 (firstState fun _ => 0) =
        some (1, ⟨0, 22, 32⟩, afterFewPages 1 pageZero 0 (firstState fun _ => 0)) ∧
      ErrorClean .k4 22 (smallPages.take 1).alloc 0 (firstState fun _ => 0)
        (afterFewPages 1 pageZero 0 (firstState fun _ => 0)) := by
  have hcall : fewPagesCall 1 pageZero 0 (firstState fun _ => 0) =
      some (1, ⟨0, 22, 32⟩, afterFewPages 1 pageZero 0 (firstState fun _ => 0)) :=
    fewPagesCall_eq (by decide +kernel)
  have hstart : Reachable (smallPages.take 1) 32 (firstState fun _ => 0) [] := .start _
  have hiff := valPgtCreate_error_iff ⟨by decide, by decide⟩ hstart (.inl rfl)
    (.inr regionOk_pageZero) (by decide) hcall fun _ _ _ hok => by cases hcall.symm.trans hok
  refine ⟨hcall, hiff.mpr (.inr ⟨rfl, .inr ⟨regionOk_pageZero.not_failsChecks, 1, ?_, ?_⟩⟩)⟩
  · decide +kernel
  · rfl

def fullTable : State := afterFewPages 2 pageZero 0 (firstState fun _ => 0)

def pageBehind : MemoryRegion := ⟨0x100000, 0x200000, 0x1000, 0⟩

/-- An update that finds no page frees the first table of the caller, which still translates. -/
theorem valPgtCreate_frees_caller_table :
    Reachable (smallPages.take 2) 32 fullTable [0x10000] ∧ RegionOk .k4 22 32 pageBehind ∧
      fewPagesCall 2 pageBehind 0x10000 fullTable =
        some (1, ⟨0x10000, 22, 32⟩, afterFewPages 2 pageBehind 0x10000 fullTable) ∧
      newlyFreed fullTable (afterFewPages 2 pageBehind 0x10000 fullTable) = [0x10000] ∧
      hwWalk .k4 (afterFewPages 2 pageBehind 0x10000 fullTable).mem 1 0x10000 0 =
        some (0x100003, 0) := by
  have hcreate : fewPagesCall 2 pageZero 0 (firstState fun _ => 0) =
      some (0, ⟨0x10000, 22, 32⟩, fullTable) := fewPagesCall_eq (by decide +kernel)
  refine ⟨.create pageZero (.start _) regionOk_pageZero (by decide) hcreate,
    by constructor <;> decide, fewPagesCall_eq (by decide +kernel), ?_, ?_⟩
  · decide +kernel
  · decide +kernel

end ServerSoc.Pgt
