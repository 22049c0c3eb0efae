/-
Giving a table back (free_translation_table and val_pgt_destroy in acs_pgt.c).

The teardown goes over the tree and frees the page of every table it finds.  It gives back what
the calls allocated as long as no table was lost from the tree.  A call loses one when it writes a
block descriptor over a table descriptor.
-/
import Mathlib.Data.List.Perm.Subperm
import ServerSoc.Pgt.Build
import ServerSoc.Pgt.Read

namespace ServerSoc.Pgt

open Base Radix List Nat

/-! ## The teardown -/

/-- The pages that are freed, each with the level of the table on it.  Levels go down to 3, the
recursion has fuel, and `none` is a call that is still running when the fuel ends. -/
def freeTranslationTable (g : Globals) (mem : Nat → Nat) :
    Nat → Nat → Nat → Nat → Option (List (Nat × Nat))
  | 0, _, _, _ => none
  | fuel + 1, ttBase, bitsAtThisLevel, level =>
    if level = 3 then some []
    else
      (range (2 ^ bitsAtThisLevel)).foldlM (fun freed index =>
        let desc := mem (ttBase + 8 * index)
        if desc = 0 ∨ isPgtEntryBlock desc then some freed
        else
          let next := desc &&& g.pgtAddrMask
          if next = 0 then some freed
          else
            (freeTranslationTable g mem fuel next g.bitsPerLevel (level + 1)).map
              fun below => freed ++ below ++ [(next, level + 1)]) []

def valPgtDestroy (pageSize fuel : Nat) (desc : PgtDescriptor) (mem : Nat → Nat) :
    Option (List (Nat × Nat)) :=
  if desc.pgtBase = 0 then some []
  else
    let pageSizeLog2 := log2PageSize pageSize
    let bitsPerLevel := sub32 pageSizeLog2 3
    let g : Globals :=
      { pageSize := pageSize
        bitsPerLevel := bitsPerLevel
        pgtAddrMask := (1 <<< sub32 desc.ias pageSizeLog2 - 1) <<< pageSizeLog2 }
    let levels := sub32 (sub32 desc.ias pageSizeLog2 + bitsPerLevel) 1 / bitsPerLevel
    let bits := sub32 desc.ias ((sub32 levels 1 * bitsPerLevel + pageSizeLog2) % 2 ^ 32)
    (freeTranslationTable g mem fuel desc.pgtBase bits (sub32 4 levels)).map
      fun freed => freed ++ [(desc.pgtBase, sub32 4 levels)]

variable {g : Granule} {ias n k base : Nat} {h : Heap (List Nat)} {path : List Nat}
  {table : Nat → Radix} {P : Pages g ias}

section

variable {fuel level bits : Nat} {table' : Nat → Radix} {freed : List (Nat × Nat)}

/-- A page that was freed is a table below one of the first `k` entries of the table at the end
of `path`. -/
def FreedBelow (g : Granule) (h : Heap (List Nat)) (path : List Nat) (k : Nat) (p : Nat × Nat) :
    Prop :=
  p.2 ≤ 3 ∧ g.pageSize ∣ p.1 ∧ ∃ i < k, ∃ path', i :: path <:+ path' ∧ h.Owns path' p.1 g.fan

structure FreedEntries (g : Granule) (h : Heap (List Nat)) (path : List Nat)
    (table : Nat → Radix) (k : Nat) (freed : List (Nat × Nat)) : Prop where
  count : freed.length = ∑ i ∈ Finset.range k, nodes g.fan (table i)
  nodup : (freed.map Prod.fst).Nodup
  below : ∀ p ∈ freed, FreedBelow g h path k p

theorem own_page {path' : List Nat} {p : Nat} (ho : h.Owns path' p g.fan) : h.own p = some path' :=
  ho 0 g.fan_pos

theorem FreedBelow.mono {m : Nat} {p : Nat × Nat} (hp : FreedBelow g h path k p) (hk : k ≤ m) :
    FreedBelow g h path m p := by
  obtain ⟨hl, hd, i, hi, hrest⟩ := hp
  exact ⟨hl, hd, i, hi.trans_le hk, hrest⟩

section

variable (hf : FreedEntries g h path table k freed)
include hf

theorem FreedEntries.skip
    (hnone : nodes g.fan (table k) = 0) : FreedEntries g h path table (k + 1) freed where
  count := by rw [Finset.sum_range_succ, hnone, add_zero, hf.count]
  nodup := hf.nodup
  below p hp := (hf.below p hp).mono (le_succ k)

theorem FreedEntries.pages (he : EncTable g h n path table' base) (hlevel : level ≤ 3) :
    ((freed ++ [(base, level)]).map Prod.fst).Nodup ∧ ∀ p ∈ freed ++ [(base, level)],
      p.2 ≤ 3 ∧ g.pageSize ∣ p.1 ∧ ∃ path', path <:+ path' ∧ h.Owns path' p.1 g.fan := by
  constructor
  · rw [map_append, nodup_append]
    refine ⟨hf.nodup, nodup_singleton _, ?_⟩
    intro x hx y hy heq
    rw [map_singleton, mem_singleton] at hy
    obtain ⟨p, hp, hpx⟩ := mem_map.mp hx
    obtain ⟨-, -, i, -, path', hs, ho⟩ := hf.below p hp
    have hown := own_page ho
    rw [hpx, heq, hy, own_page he.owns] at hown
    cases hown
    exact not_cons_suffix i _ hs
  · intro p hp
    rcases mem_append.mp hp with hp | hp
    · obtain ⟨hl, hd, i, -, path', hs, ho⟩ := hf.below p hp
      exact ⟨hl, hd, path', (suffix_cons i _).trans hs, ho⟩
    · rw [mem_singleton.mp hp]
      exact ⟨hlevel, he.aligned, path, suffix_refl _, he.owns⟩

theorem FreedEntries.node {below : List (Nat × Nat)} {base' : Nat} (hnode : table k = .node table')
    (he : EncTable g h n (k :: path) table' base')
    (hb : FreedEntries g h (k :: path) table' g.fan below) (hlevel : level ≤ 3) :
    FreedEntries g h path table (k + 1) (freed ++ below ++ [(base', level)]) := by
  obtain ⟨hnodup, hpages⟩ := hb.pages he hlevel
  rw [append_assoc]
  constructor
  · rw [Finset.sum_range_succ, hnode, nodes_node, tableNodes, ← hb.count, ← hf.count]
    simp only [length_append, length_singleton]
    omega
  · rw [map_append, nodup_append]
    refine ⟨hf.nodup, hnodup, ?_⟩
    intro x hx y hy heq
    obtain ⟨p, hp, rfl⟩ := mem_map.mp hx
    obtain ⟨q, hq, rfl⟩ := mem_map.mp hy
    -- the pages of the earlier entries have another digit at this place of their path
    obtain ⟨-, -, i, hi, path', hs, ho⟩ := hf.below p hp
    obtain ⟨-, -, path'', hs', ho'⟩ := hpages q hq
    have hown := own_page ho
    rw [heq, own_page ho'] at hown
    cases hown
    have hik := head_unique hs hs'
    omega
  · intro p hp
    rcases mem_append.mp hp with hp | hp
    · exact (hf.below p hp).mono (le_succ k)
    · obtain ⟨hl, hd, path', hs, ho⟩ := hpages p hp
      exact ⟨hl, hd, k, lt_succ_self k, path', hs, ho⟩

end

def freeEntry (g : Globals) (mem : Nat → Nat) (fuel ttBase level : Nat) (freed : List (Nat × Nat))
    (index : Nat) : Option (List (Nat × Nat)) :=
  let desc := mem (ttBase + 8 * index)
  if desc = 0 ∨ isPgtEntryBlock desc then some freed
  else
    let next := desc &&& g.pgtAddrMask
    if next = 0 then some freed
    else
      (freeTranslationTable g mem fuel next g.bitsPerLevel (level + 1)).map
        fun below => freed ++ below ++ [(next, level + 1)]

def TableFreed (g : Granule) (ias : Nat) (h : Heap (List Nat)) (n fuel : Nat) : Prop :=
  ∀ path table base, EncTable g h n path table base →
    ∃ freed, freeTranslationTable (globalsOf g ias) h.mem fuel base g.bits (3 - n) = some freed ∧
      FreedEntries g h path table g.fan freed

section

variable (hf : Format g ias) (ha : Allocated P h k) (hn : n < 3)
  (hbelow : TableFreed g ias h n fuel) (he : EncTable g h (n + 1) path table base)
include hf ha hn hbelow he

theorem freeEntry_spec {i : Nat} (hi : i < g.fan) (hfreed : FreedEntries g h path table i freed) :
    ∃ freed', freeEntry (globalsOf g ias) h.mem fuel base (3 - (n + 1)) freed i = some freed' ∧
      FreedEntries g h path table (i + 1) freed' := by
  rw [freeEntry]
  rcases he.entry_cases ha hf.lt.le hf.le hi with
    ⟨hskip, hnode⟩ | ⟨table', base', htree, he', hpoints⟩
  · rw [if_pos hskip]
    exact ⟨freed, rfl, hfreed.skip (nodes_of_not_node hnode)⟩
  · have hpos := (he'.table_lt ha).1
    have hskip : ¬ (h.mem (base + 8 * i) = 0 ∨ isPgtEntryBlock (h.mem (base + 8 * i)) = true) := by
      simp [hpoints.ne_zero, hpoints.block]
    have hnext : h.mem (base + 8 * i) &&& (globalsOf g ias).pgtAddrMask = base' := hpoints.mask
    obtain ⟨below, hrun, hb⟩ := hbelow (i :: path) table' base' he'
    have hlevel : 3 - (n + 1) + 1 = 3 - n := by omega
    have hrun' : freeTranslationTable (globalsOf g ias) h.mem fuel base'
        (globalsOf g ias).bitsPerLevel (3 - (n + 1) + 1) = some below := by
      rw [hlevel]
      exact hrun
    rw [if_neg hskip, hnext, if_neg (Nat.pos_iff_ne_zero.mp hpos), hrun']
    exact ⟨_, rfl, hfreed.node htree he' hb (by omega)⟩

theorem freeEntries_spec {m : Nat} (hm : m ≤ g.fan) :
    ∃ freed, (range m).foldlM
        (freeEntry (globalsOf g ias) h.mem fuel base (3 - (n + 1))) [] = some freed ∧
      FreedEntries g h path table m freed := by
  induction m with
  | zero => exact ⟨[], rfl, rfl, nodup_nil, fun _ hp => absurd hp not_mem_nil⟩
  | succ m ih =>
    obtain ⟨freed, hrun, hfreed⟩ := ih (le_of_succ_le hm)
    obtain ⟨freed', hrun', hfreed'⟩ := freeEntry_spec hf ha hn hbelow he hm hfreed
    refine ⟨freed', ?_, hfreed'⟩
    rw [range_succ, foldlM_append, hrun]
    show (freeEntry (globalsOf g ias) h.mem fuel base (3 - (n + 1)) freed m).bind some = some freed'
    rw [hrun']
    rfl

end

theorem EncTable.nodes_pages (he : EncTable g h 0 path table base) {i : Nat} (hi : i < g.fan) :
    nodes g.fan (table i) = 0 := by
  have hentry := he.entry i hi
  cases htree : table i with
  | empty => rfl
  | leaf v => rfl
  | node table' =>
    rw [htree] at hentry
    exact hentry.elim

theorem freeTranslationTable_spec (hf : Format g ias) (ha : Allocated P h k) (hn : n ≤ 3)
    (hfuel : n < fuel) (he : EncTable g h n path table base) (hbits : bits ≤ g.bits) :
    ∃ freed, freeTranslationTable (globalsOf g ias) h.mem fuel base bits (3 - n) = some freed ∧
      FreedEntries g h path table (2 ^ bits) freed := by
  have hm : 2 ^ bits ≤ g.fan := Nat.pow_le_pow_right (by decide) hbits
  induction n generalizing fuel path table base bits with
  | zero =>
    cases fuel with
    | zero => exact absurd hfuel (lt_irrefl 0)
    | succ fuel =>
      refine ⟨[], rfl, ?_, nodup_nil, fun _ hp => absurd hp not_mem_nil⟩
      refine (Finset.sum_eq_zero fun i hi => ?_).symm
      exact he.nodes_pages ((Finset.mem_range.mp hi).trans_le hm)
  | succ n ih =>
    cases fuel with
    | zero => exact absurd hfuel (Nat.not_lt_zero _)
    | succ fuel =>
      have hbelow : TableFreed g ias h n fuel := by
        intro path' table' base' he'
        exact ih (by omega) (by omega) he' le_rfl le_rfl
      rw [freeTranslationTable, if_neg (by omega)]
      exact freeEntries_spec hf ha hn hbelow he hm

end

/-! ## Blocks in the place of tables -/

/-- A block of height `m` at page `b` that the region of `cnt` pages at `a` may get. -/
def Eligible (g : Granule) (a cnt out m b : Nat) : Prop :=
  g.fan ^ m ∣ b ∧ a ≤ b ∧ b + g.fan ^ m ≤ a + cnt ∧ g.fan ^ m ∣ out + (b - a)

/-- On the way of an address from the entry `w` at height `n`, the entry at height `m` is a
table. -/
def tableWord (g : Granule) (mem : Nat → Nat) : Nat → Nat → Nat → Nat → Prop
  | 0, _, _, _ => False
  | n + 1, w, m, va =>
    isPgtEntryTable w = true ∧
      (m = n + 1 ∨ tableWord g mem n (mem (g.tableAddress w + 8 * g.index n va)) m va)

def TableAt (g : Granule) (ias : Nat) (mem : Nat → Nat) (base m va : Nat) : Prop :=
  tableWord g mem (topHeight g ias) (mem (base + 8 * g.index (topHeight g ias) va)) m va

/-- The region has no place for a block, or it is straight and no place it has for one has a
table. -/
def KeepsTables (g : Granule) (ias : Nat) (mem : Nat → Nat) (base : Nat) (r : MemoryRegion) :
    Prop :=
  (∀ m b, 1 ≤ m → m ≤ topHeight g ias →
    ¬ Eligible g (firstPage g r) (pageCount g r) (outPage g r) m b) ∨
  Straight g (topHeight g ias) (firstPage g r) (pageCount g r) ∧
    ∀ m b, 1 ≤ m → m ≤ topHeight g ias →
      Eligible g (firstPage g r) (pageCount g r) (outPage g r) m b →
      ¬ TableAt g ias mem base m (b * g.pageSize)

variable {oas : Nat} {r : MemoryRegion}

section

variable {a cnt out w i : Nat} {info : AcsPgt} {old : Radix}

theorem not_replaces_empty (m : Nat) (old : Radix) : ¬ Replaces m old .empty := by
  cases old <;> exact id

theorem not_empty_replaces (m : Nat) (new : Radix) : ¬ Replaces m .empty new := by
  cases new <;> exact id

theorem not_leaf_replaces (m v : Nat) (new : Radix) : ¬ Replaces m (.leaf v) new := by
  cases new <;> exact id

theorem Eligible.step {m b cnt' j : Nat} (hle : cnt' ≤ cnt) (hj : j * g.fan ^ n < cnt')
    (he : Eligible g (a + j * g.fan ^ n) (cnt' - j * g.fan ^ n) (out + j * g.fan ^ n) m b) :
    Eligible g a cnt out m b := by
  obtain ⟨hb, hab, hend, hout⟩ := he
  have hsum : out + j * g.fan ^ n + (b - (a + j * g.fan ^ n)) = out + (b - a) := by omega
  rw [hsum] at hout
  exact ⟨hb, by omega, by omega, hout⟩

/-- A table that an entry of the plan replaces: the plan has a block for its place, and in a
straight range the way of the block meets the table. -/
theorem replaces_planEntry (hf : Format g ias) (ha : Allocated P h k) (he : Enc g h n path old w)
    (hrep : Replaces g.fan old (planEntry g n a cnt out info).1) :
    ∃ m b, 1 ≤ m ∧ m ≤ n ∧ Eligible g a cnt out m b ∧
      (Straight g n a cnt → b / g.fan ^ n = a / g.fan ^ n ∧
        tableWord g h.mem n w m (b * g.pageSize)) := by
  induction n generalizing path old w a cnt out info with
  | zero =>
    cases old with
    | empty => exact hrep.elim
    | leaf v => exact hrep.elim
    | node table => exact he.elim
  | succ n ih =>
    cases old with
    | empty => exact absurd hrep (not_empty_replaces _ _)
    | leaf v => exact absurd hrep (not_leaf_replaces _ _ _)
    | node table =>
      obtain ⟨base', he', hpoints⟩ := he.pointsTo ha hf.lt.le hf.le
      by_cases hblock : IsBlock g (n + 1) a cnt out
      · obtain ⟨h1, h2, h3⟩ := hblock
        refine ⟨n + 1, a, Nat.le_add_left 1 n, le_rfl, ?_, fun _ => ⟨rfl, hpoints.table, .inl rfl⟩⟩
        exact ⟨h1, le_rfl, Nat.add_le_add_left h3 a, by rw [Nat.sub_self]; exact h2⟩
      · rw [planEntry_table hblock] at hrep
        obtain ⟨i, hi, hrep⟩ := hrep
        have hsub : subCount g n cnt info ≤ cnt := min_le_left _ _
        rcases planTable_cases g n a (subCount g n cnt info) out
          (incrementPgtIndex info (3 - (n + 1)) g.fan) i with hempty | ⟨j, hj, hij, hplan⟩
        · rw [hempty] at hrep
          exact absurd hrep (not_replaces_empty _ _)
        rw [hplan] at hrep
        have hjc := (lt_blocks_iff (g.fan_pow_pos n)).mp hj
        obtain ⟨m, b, h1, hm, hel, hway⟩ := ih (he'.entry i hi) hrep
        have hel' := hel.step hsub hjc
        refine ⟨m, b, h1, le_succ_of_le hm, hel', fun hst => ?_⟩
        obtain ⟨hdiv, hword⟩ := hway ((hst.lower.mono hsub).step hj)
        have hdigit : b / g.fan ^ n = a / g.fan ^ n + j := by
          rw [hdiv, add_mul_div_right _ _ (g.fan_pow_pos n)]
        refine ⟨?_, hpoints.table, .inr ?_⟩
        · have hin : InBlock (g.fan ^ (n + 1)) a (subCount g n cnt info) := by
            rcases hst.start with hdvd | hin
            · exact inBlock_of_dvd hdvd ((min_le_right _ _).trans (sub_le _ _))
            · exact hin.mono hsub
          have hpos := g.fan_pow_pos m
          obtain ⟨-, hab, hend, -⟩ := hel
          exact hin.div_eq (g.fan_pow_pos _) (by omega) (by omega)
        · rw [hpoints.address, g.index_eq, Nat.mul_div_cancel _ g.pageSize_pos, hdigit, ← hij]
          exact hword

theorem KeepsTables.not_replaces (hk : KeepsTables g ias h.mem base r) (hf : Format g ias)
    (ha : Allocated P h k) (he : EncTable g h (topHeight g ias) path table base) (info : AcsPgt)
    (hi : i < g.fan) : ¬ Replaces g.fan (table i) ((regionPlan g ias r info).1 i) := by
  intro hrep
  have hcases :=
    planTable_cases g (topHeight g ias) (firstPage g r) (pageCount g r) (outPage g r) info i
  rcases hcases with hempty | ⟨j, hj, hij, hplan⟩
  · rw [regionPlan, hempty] at hrep
    exact not_replaces_empty _ _ hrep
  rw [regionPlan, hplan] at hrep
  have hjc := (lt_blocks_iff (g.fan_pow_pos _)).mp hj
  obtain ⟨m, b, h1, hm, hel, hway⟩ := replaces_planEntry hf ha (he.entry i hi) hrep
  have hel' := hel.step le_rfl hjc
  rcases hk with hnone | ⟨hst, hfree⟩
  · exact hnone m b h1 hm hel'
  · obtain ⟨hdiv, hword⟩ := hway (hst.step hj)
    apply hfree m b h1 hm hel'
    rw [add_mul_div_right _ _ (g.fan_pow_pos _)] at hdiv
    rw [TableAt, g.index_eq, Nat.mul_div_cancel _ g.pageSize_pos, hdiv, ← hij]
    exact hword

theorem RegionOk.plan_top (hr : RegionOk g ias oas r) (hf : Format g ias) (info : AcsPgt)
    (hi : 2 ^ topBits g ias ≤ i) : (regionPlan g ias r info).1 i = .empty := by
  have hb := g.fan_pow_pos (topHeight g ias)
  have hpages := hr.inside_pages hf
  have hcases :=
    planTable_cases g (topHeight g ias) (firstPage g r) (pageCount g r) (outPage g r) info i
  rcases hcases with hempty | ⟨j, hj, hij, -⟩
  · exact hempty
  · have hjc := (lt_blocks_iff hb).mp hj
    have hdiv : firstPage g r / g.fan ^ topHeight g ias + j < 2 ^ topBits g ias := by
      rw [← add_mul_div_right _ _ hb, Nat.div_lt_iff_lt_mul hb]
      exact Nat.lt_of_lt_of_le (by omega) hpages
    have hle : i ≤ firstPage g r / g.fan ^ topHeight g ias + j := by
      rw [hij]
      exact mod_le _ _
    omega

end

/-! ## Runs -/

def State.recount (s : State) : State := { s with allocated := 0, freed := [] }

/-- One table: it is made in the state `s0`, and updated by calls that keep its tables. -/
inductive BuildRun {g : Granule} {ias : Nat} (P : Pages g ias) (oas : Nat) (s0 : State) :
    State → Nat → Prop
  | create {s' : State} {desc : PgtDescriptor} {fuel : Nat} (r : MemoryRegion)
    (hr : RegionOk g ias oas r) (hfuel : (topHeight g ias + 1) * (g.fan + 1) ≤ fuel)
    (hcall : valPgtCreate g.pageSize P.alloc fuel [r] ⟨0, ias, oas⟩ s0 = some (0, desc, s')) :
    BuildRun P oas s0 s' desc.pgtBase
  | update {s s' : State} {desc : PgtDescriptor} {fuel base : Nat} (r : MemoryRegion)
    (hs : BuildRun P oas s0 s base) (hr : RegionOk g ias oas r)
    (hfuel : (topHeight g ias + 1) * (g.fan + 1) ≤ fuel) (hkeeps : KeepsTables g ias s.mem base r)
    (hcall : valPgtCreate g.pageSize P.alloc fuel [r] ⟨base, ias, oas⟩ s = some (0, desc, s')) :
    BuildRun P oas s0 s' base

structure OneTable {g : Granule} {ias : Nat} (P : Pages g ias) (s : State) (base : Nat)
    (h : Heap (List Nat)) (trees : Nat → Nat → Radix) : Prop where
  tables : Tables P s h [base] trees
  count : s.allocated = 1 + tableNodes g.fan (trees 0)
  top : ∀ i, 2 ^ topBits g ias ≤ i → trees 0 i = .empty
  freed : s.freed = []

section

variable {P' : Pages g ias} {s : State} {bases : List Nat}

theorem tables_recount (P : Pages g ias) (hf : Format g ias) (hs : Reachable P' oas s bases) :
    Tables P s.recount ⟨s.mem, fun _ => none⟩ [] (fun _ _ => .empty) := by
  obtain ⟨h, trees, ht⟩ := hs.tables hf
  have hinfo : (initValues s.recount).info = (initValues s).info := initValues_info_congr rfl rfl
  exact ⟨⟨rfl, fun _ hown => absurd rfl hown⟩, by rw [hinfo]; exact ht.counters,
    fun _ _ hi => absurd hi (by nofun)⟩

theorem mapRegion_top (hr : RegionOk g ias oas r) (hf : Format g ias) (info : AcsPgt)
    (htop : ∀ i, 2 ^ topBits g ias ≤ i → table i = .empty) (i : Nat) (hi : 2 ^ topBits g ias ≤ i) :
    mapRegion g ias r info table i = .empty := by
  rw [mapRegion, hr.plan_top hf info hi, htop i hi]
  rfl

theorem tableNodes_mapRegion (info : AcsPgt)
    (hkeep : ∀ i < g.fan, ¬ Replaces g.fan (table i) ((regionPlan g ias r info).1 i)) :
    tableNodes g.fan (mapRegion g ias r info table) =
      tableNodes g.fan table + tableFresh g.fan table (regionPlan g ias r info).1 :=
  tableNodes_overlay _ hkeep

theorem BuildRun.oneTable {s1 : State} (hf : Format g ias) (hs1 : Reachable P' oas s1 bases)
    (hs : BuildRun P oas s1.recount s base) : ∃ h trees, OneTable P s base h trees := by
  have ht0 := tables_recount P hf hs1
  induction hs with
  | @create s' desc fuel r hr hfuel hcall =>
    cases hp : P.alloc s1.recount.allocated with
    | none => cases hcall.symm.trans (valPgtCreate_no_page hp fuel [r] ias oas)
    | some p =>
      obtain ⟨rfl, h', ht', hgrown⟩ := (ht0.create hf hr hfuel hp).success hcall
      refine ⟨h', _, ht', ?_, ?_, hgrown.freed⟩
      · have hzero : tableNodes g.fan (fun _ => .empty) = 0 := Finset.sum_eq_zero fun _ _ => rfl
        have hsum := tableNodes_mapRegion (initValues s1.recount).info
          (fun i _ => not_empty_replaces g.fan
            ((regionPlan g ias r (initValues s1.recount).info).1 i))
        rw [hzero, zero_add] at hsum
        rw [hgrown.allocated, ← hsum]
        exact zero_add _
      · exact mapRegion_top hr hf _ fun _ _ => rfl
  | @update s s' desc fuel base r hs hr hfuel hkeeps hcall ih =>
    obtain ⟨h, trees, hone⟩ := ih
    have hfirst : [base][0]? = some base := rfl
    obtain ⟨-, h', ht', hgrown⟩ := (hone.tables.update hf hr hfuel hfirst).success hcall
    refine ⟨h', _, ht', ?_, ?_, hgrown.freed.trans hone.freed⟩
    · rw [← hone.tables.owned.mem] at hkeeps
      have hkeep (i : Nat) (hi : i < g.fan) := hkeeps.not_replaces hf hone.tables.owned.allocated
        (hone.tables.enc 0 base hfirst) (initValues s).info hi
      rw [Function.update_self, tableNodes_mapRegion _ hkeep, hgrown.allocated, hone.count,
        add_assoc]
    · exact mapRegion_top hr hf _ hone.top

theorem Format.valPgtDestroy_eq (hf : Format g ias) (mem : Nat → Nat) (fuel : Nat)
    (hbase : base ≠ 0) :
    valPgtDestroy g.pageSize fuel ⟨base, ias, oas⟩ mem =
      (freeTranslationTable (globalsOf g ias) mem fuel base (topBits g ias)
        (3 - topHeight g ias)).map
        fun freed => freed ++ [(base, 3 - topHeight g ias)] := by
  obtain ⟨hn, hlt, -⟩ := hf.topHeight_spec
  have hle := hf.le
  have hglobals := hf.globals_eq
  rw [log2PageSize_pageSize, sub32_log2] at hglobals
  have hsub : sub32 (topHeight g ias + 1) 1 = topHeight g ias := by
    rw [sub32]
    omega
  have hlevel : sub32 4 (topHeight g ias + 1) = 3 - topHeight g ias := by
    rw [sub32]
    omega
  have hbits : sub32 ias ((topHeight g ias * g.bits + g.log2) % 2 ^ 32) = topBits g ias := by
    rw [sub32, topBits]
    omega
  rw [valPgtDestroy, if_neg hbase]
  dsimp only
  rw [log2PageSize_pageSize, sub32_log2, hglobals, hf.levels_eq, hsub, hlevel, hbits]

theorem OneTable.nodes_top {trees : Nat → Nat → Radix} (hone : OneTable P s base h trees)
    (hf : Format g ias) :
    ∑ i ∈ Finset.range (2 ^ topBits g ias), nodes g.fan (trees 0 i) =
      tableNodes g.fan (trees 0) := by
  obtain ⟨-, hbits, -⟩ := hf.topBits_spec
  have hle : 2 ^ topBits g ias ≤ g.fan := Nat.pow_le_pow_right (by decide) hbits
  apply Finset.sum_subset (Finset.range_subset_range.mpr hle)
  intro i _ hi
  rw [hone.top i (not_lt.mp fun hlt => hi (Finset.mem_range.mpr hlt))]
  rfl

/-- A table that was made by one call and updated by calls that keep its tables: the teardown
frees every page of the run once, and frees nothing else.  No page it takes for a table is below
the last level. -/
theorem valPgtDestroy_frees {bases : List Nat} {s1 : State} (hf : Format g ias)
    (hs1 : Reachable P' oas s1 bases) (hs : BuildRun P oas s1.recount s base) {fuel : Nat}
    (hfuel : topHeight g ias < fuel) :
    s.freed = [] ∧ ∃ freed, valPgtDestroy g.pageSize fuel ⟨base, ias, oas⟩ s.mem = some freed ∧
      (freed.map Prod.fst).Perm ((range s.allocated).filterMap P.alloc) ∧
      ∀ p ∈ freed, p.2 ≤ 3 := by
  obtain ⟨h, trees, hone⟩ := hs.oneTable hf hs1
  have he := hone.tables.enc 0 base rfl
  have ha := hone.tables.owned.allocated
  obtain ⟨hn, -, -⟩ := hf.topHeight_spec
  obtain ⟨-, hbits, -⟩ := hf.topBits_spec
  obtain ⟨freed, hrun, hfreed⟩ := freeTranslationTable_spec hf ha hn hfuel he hbits
  have hbase := Nat.pos_iff_ne_zero.mp (he.table_lt ha).1
  have hdestroy : valPgtDestroy g.pageSize fuel ⟨base, ias, oas⟩ s.mem =
      some (freed ++ [(base, 3 - topHeight g ias)]) := by
    rw [hf.valPgtDestroy_eq _ _ hbase, ← hone.tables.owned.mem, hrun]
    rfl
  obtain ⟨hnodup, hpages⟩ := hfreed.pages he (sub_le 3 (topHeight g ias))
  have hsub : (freed ++ [(base, 3 - topHeight g ias)]).map Prod.fst ⊆
      (range s.allocated).filterMap P.alloc := by
    intro x hx
    obtain ⟨p, hp, rfl⟩ := mem_map.mp hx
    obtain ⟨-, haligned, path', -, howns⟩ := hpages p hp
    obtain ⟨j, hj, hx⟩ := ha.page howns haligned
    exact mem_filterMap.mpr ⟨j, mem_range.mpr hj, hx⟩
  have hlength : ((range s.allocated).filterMap P.alloc).length ≤
      ((freed ++ [(base, 3 - topHeight g ias)]).map Prod.fst).length := by
    refine (length_filterMap_le _ _).trans ?_
    rw [length_range, length_map, length_append, hfreed.count, hone.nodes_top hf,
      hone.count, length_singleton, add_comm]
  exact ⟨hone.freed, _, hdestroy, (hnodup.subperm hsub).perm_of_length_le hlength,
    fun p hp => (hpages p hp).1⟩

end

/-- A table for the first page gets a second page. -/
theorem valPgtDestroy_frees_twoPages :
    BuildRun smallPages 32 (firstState fun _ => 0) (afterCall pageOne 0x10000 smallTable) 0x10000 ∧
      ∃ freed, valPgtDestroy 0x1000 4 ⟨0x10000, 22, 32⟩ (afterCall pageOne 0x10000 smallTable).mem =
          some freed ∧
        (freed.map Prod.fst).Perm ((range
          (afterCall pageOne 0x10000 smallTable).allocated).filterMap smallPages.alloc) := by
  have hcreate : smallCall pageZero 0 (firstState fun _ => 0) =
      some (0, ⟨0x10000, 22, 32⟩, smallTable) := smallCall_eq (by decide +kernel)
  have hupdate : smallCall pageOne 0x10000 smallTable =
      some (0, ⟨0x10000, 22, 32⟩, afterCall pageOne 0x10000 smallTable) :=
    smallCall_eq (by decide +kernel)
  have hkeeps : KeepsTables .k4 22 smallTable.mem 0x10000 pageOne := by
    left
    intro m b hm _ hel
    have hle : 512 ^ 1 ≤ 512 ^ m := Nat.pow_le_pow_right (by decide) hm
    have hend : b + 512 ^ m ≤ 1 + 1 := hel.2.2.1
    omega
  have hrun : BuildRun smallPages 32 (firstState fun _ => 0).recount
      (afterCall pageOne 0x10000 smallTable) 0x10000 :=
    .update pageOne (.create pageZero regionOk_pageZero (by decide) hcreate)
      (by constructor <;> decide) (by decide) hkeeps hupdate
  have hstart : Reachable smallPages 32 (firstState fun _ => 0) [] := .start _
  obtain ⟨-, freed, hdestroy, hperm, -⟩ := valPgtDestroy_frees ⟨by decide, by decide⟩ hstart hrun
    (show topHeight .k4 22 < 4 by decide)
  exact ⟨hrun, freed, hdestroy, hperm⟩

def blockZero : MemoryRegion := ⟨0, 0, 0x200000, 0⟩

/-- The block takes the place of the table of the first page, whose page is never freed. -/
theorem valPgtDestroy_leaks :
    RegionOk .k4 22 32 pageZero ∧ RegionOk .k4 22 32 blockZero ∧
      smallCall pageZero 0 (firstState fun _ => 0) = some (0, ⟨0x10000, 22, 32⟩, smallTable) ∧
      smallCall blockZero 0x10000 smallTable =
        some (0, ⟨0x10000, 22, 32⟩, afterCall blockZero 0x10000 smallTable) ∧
      (range (afterCall blockZero 0x10000 smallTable).allocated).filterMap smallPages.alloc =
        [0x10000, 0x11000] ∧
      (afterCall blockZero 0x10000 smallTable).freed = [] ∧
      valPgtDestroy 0x1000 4 ⟨0x10000, 22, 32⟩ (afterCall blockZero 0x10000 smallTable).mem =
        some [(0x10000, 2)] := by
  refine ⟨regionOk_pageZero, by constructor <;> decide, smallCall_eq (by decide +kernel),
    smallCall_eq (by decide +kernel), ?_, ?_, ?_⟩
  · decide +kernel
  · decide +kernel
  · decide +kernel

end ServerSoc.Pgt
