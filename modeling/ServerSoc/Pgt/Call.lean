/-
Calls of `val_pgt_create`.

A run of the program makes tables and updates them, all of one granule and input size.
Every table in memory is a tree of its own, and a call for a region lays the plan of the
region over one of them.
-/
import ServerSoc.Pgt.Refine

namespace ServerSoc.Pgt

open Base Radix Nat List Option

/-! ## Sizes -/

structure Format (g : Granule) (ias : Nat) : Prop where
  lt : g.log2 < ias
  le : ias ≤ 48

def topHeight (g : Granule) (ias : Nat) : Nat := (ias - g.log2 + g.bits - 1) / g.bits - 1

variable {g : Granule} {ias : Nat}

theorem log2PageSize_pageSize (g : Granule) : log2PageSize g.pageSize = g.log2 := by
  cases g <;> decide

theorem sub32_log2 (g : Granule) : sub32 g.log2 3 = g.bits := by
  cases g <;> decide

section

variable (hf : Format g ias)
include hf

theorem Format.topHeight_spec :
    topHeight g ias ≤ 3 ∧ topHeight g ias * g.bits + g.log2 < ias ∧
      ias ≤ (topHeight g ias + 1) * g.bits + g.log2 := by
  have h1 := hf.lt
  have h2 := hf.le
  cases g <;> simp only [topHeight, Granule.log2, Granule.bits] at * <;> omega

theorem Format.levels_eq : sub32 (sub32 ias g.log2 + g.bits) 1 / g.bits = topHeight g ias + 1 := by
  have h1 := hf.lt
  have h2 := hf.le
  cases g
  · simp only [sub32, topHeight, Granule.bits] at *
    omega
  · simp only [sub32, topHeight, Granule.bits] at *
    omega
  · simp only [sub32, topHeight, Granule.log2, Granule.bits] at *
    omega

theorem Format.numPgtLevels_eq : numPgtLevels g.log2 g.bits ias = topHeight g ias + 1 := by
  have hn := hf.topHeight_spec.1
  simp only [numPgtLevels, hf.levels_eq]
  rw [if_neg (by omega)]

theorem Format.startSizeLog2_eq :
    startSizeLog2 g.log2 g.bits ias = topHeight g ias * g.bits + g.log2 := by
  obtain ⟨-, hlt, -⟩ := hf.topHeight_spec
  have hle := hf.le
  have hsub : sub32 (topHeight g ias + 1) 1 = topHeight g ias := by
    have hn := hf.topHeight_spec.1
    rw [sub32]
    omega
  rw [startSizeLog2, hf.numPgtLevels_eq, hsub, mod_eq_of_lt (by omega)]

theorem Format.pages_eq :
    2 ^ ias = 2 ^ (ias - (topHeight g ias * g.bits + g.log2)) * g.fan ^ topHeight g ias *
      g.pageSize := by
  obtain ⟨-, hlt, -⟩ := hf.topHeight_spec
  rw [mul_assoc, ← g.fan_pow, ← pow_add, Nat.sub_add_cancel hlt.le]

theorem Format.entries_le : 2 ^ (ias - (topHeight g ias * g.bits + g.log2)) ≤ g.fan := by
  obtain ⟨-, -, hle⟩ := hf.topHeight_spec
  rw [add_mul] at hle
  exact Nat.pow_le_pow_right (by decide) (by omega)

end

/-! ## Regions -/

/-- A region that can be mapped: whole pages in the input and the output space, and no
attributes outside the attribute bits. -/
structure RegionOk (g : Granule) (ias oas : Nat) (r : MemoryRegion) : Prop where
  virtualAligned : g.pageSize ∣ r.virtualAddress
  physicalAligned : g.pageSize ∣ r.physicalAddress
  lengthAligned : g.pageSize ∣ r.length
  lengthPos : 0 < r.length
  inside : r.virtualAddress + r.length ≤ 2 ^ ias
  physicalLt : r.physicalAddress < 2 ^ oas
  outputs : oas ≤ 63
  attributes : pgtDescAttributes r.attributes = r.attributes

def firstPage (g : Granule) (r : MemoryRegion) : Nat := r.virtualAddress / g.pageSize
def pageCount (g : Granule) (r : MemoryRegion) : Nat := r.length / g.pageSize
def outPage (g : Granule) (r : MemoryRegion) : Nat := r.physicalAddress / g.pageSize

def regionPlan (g : Granule) (ias : Nat) (r : MemoryRegion) (info : AcsPgt) :
    (Nat → Radix) × AcsPgt :=
  planTable g (topHeight g ias) (firstPage g r) (pageCount g r) (outPage g r) info

def fillRegion (g : Granule) (ias oas : Nat) (alloc : Nat → Option Nat) (fuel ttBase : Nat)
    (r : MemoryRegion) (s : State) : Option (Nat × State) :=
  fillLoop (globalsOf g ias) alloc r.attributes fuel (startTt g.log2 g.bits ias oas ttBase r)
    (firstPage g r * g.pageSize) (outPage g r * g.pageSize) (initValues s)

def openRegion (g : Granule) (ias : Nat) (r : MemoryRegion) (info : AcsPgt) : Nat :=
  openTable g (topHeight g ias) (firstPage g r) (pageCount g r) (outPage g r) info

def mapRegion (g : Granule) (ias : Nat) (r : MemoryRegion) (info : AcsPgt) (table : Nat → Radix) :
    Nat → Radix := fun i =>
  overlay (leafDesc g r.attributes) (topHeight g ias) (table i) ((regionPlan g ias r info).1 i)

variable {oas : Nat} {r : MemoryRegion}

section

variable (hr : RegionOk g ias oas r)
include hr

theorem RegionOk.virtual_eq :
    firstPage g r * g.pageSize = r.virtualAddress := Nat.div_mul_cancel hr.virtualAligned

theorem RegionOk.physical_eq :
    outPage g r * g.pageSize = r.physicalAddress := Nat.div_mul_cancel hr.physicalAligned

theorem RegionOk.length_eq :
    pageCount g r * g.pageSize = r.length := Nat.div_mul_cancel hr.lengthAligned

theorem RegionOk.count_pos : 0 < pageCount g r :=
  Nat.div_pos (le_of_dvd hr.lengthPos hr.lengthAligned) g.pageSize_pos

theorem RegionOk.attributes_mod : r.attributes % 4 = 0 := by
  rw [← hr.attributes, pgtDescAttributes, show 4 = 2 ^ 2 from rfl, and_mod_two_pow,
    show pgtDescAttributesMask % 2 ^ 2 = 0 by decide, and_zero]

theorem RegionOk.inside_pages (hf : Format g ias) :
    firstPage g r + pageCount g r ≤
      2 ^ (ias - (topHeight g ias * g.bits + g.log2)) * g.fan ^ topHeight g ias := by
  have hin := hr.inside
  rw [← hr.virtual_eq, ← hr.length_eq, ← add_mul, hf.pages_eq] at hin
  exact Nat.le_of_mul_le_mul_right hin g.pageSize_pos

theorem RegionOk.fillArgs (hf : Format g ias) (ttBase : Nat) :
    FillArgs g (topHeight g ias) (startTt g.log2 g.bits ias oas ttBase r) (firstPage g r)
      (pageCount g r) (outPage g r) := by
  obtain ⟨hn, hlt, hle⟩ := hf.topHeight_spec
  have hb := g.fan_pow_pos (topHeight g ias)
  have hpages := hr.inside_pages hf
  have hentries := hf.entries_le
  have hin := hr.inside
  have hpa := hr.physicalLt
  have hias : 2 ^ ias ≤ 2 ^ 48 := Nat.pow_le_pow_right (by decide) hf.le
  have hoas : 2 ^ oas ≤ 2 ^ 63 := Nat.pow_le_pow_right (by decide) hr.outputs
  have hva := (Nat.lt_add_of_pos_right hr.lengthPos).trans_le hin
  have hnbits : (startTt g.log2 g.bits ias oas ttBase r).nbits =
      ias - (topHeight g ias * g.bits + g.log2) := by
    show sub32 ias (startSizeLog2 g.log2 g.bits ias) = _
    have hle48 := hf.le
    rw [hf.startSizeLog2_eq, sub32]
    omega
  refine ⟨⟨hn, ?_, hf.startSizeLog2_eq, ?_, hr.count_pos, ?_, ?_, ?_⟩, ?_, ?_⟩
  · show sub32 4 (numPgtLevels g.log2 g.bits ias) = _
    rw [hf.numPgtLevels_eq, sub32]
    omega
  · show sub64 (add64 (r.virtualAddress &&& 1 <<< ias - 1) r.length) 1 = _
    have hlen := hr.lengthPos
    rw [shiftLeft_eq, one_mul, and_low, mod_eq_of_lt hva, add64,
      mod_eq_of_lt (by omega), sub64_of_le (by omega) (by omega), add_mul, hr.virtual_eq,
      hr.length_eq]
  · rw [add_mul, hr.virtual_eq, hr.length_eq]
    omega
  · rw [← g.fan_pow]
    exact Nat.pow_le_pow_right (by decide) (by have := hf.le; omega)
  · rw [add_mul, hr.physical_eq, hr.length_eq]
    omega
  · refine blocks_le hb (Nat.le_trans ?_ (Nat.mul_le_mul_right _ hentries))
    omega
  · intro k hk
    have hkc := (lt_blocks_iff hb).mp hk
    have hdiv : firstPage g r / g.fan ^ topHeight g ias + k <
        2 ^ (ias - (topHeight g ias * g.bits + g.log2)) := by
      rw [← add_mul_div_right _ _ hb, Nat.div_lt_iff_lt_mul hb]
      omega
    rw [hnbits, mod_eq_of_lt hdiv, mod_eq_of_lt (hdiv.trans_le hentries)]

end

/-! ## One call -/

structure Tables {g : Granule} {ias : Nat} (P : Pages g ias) (s : State) (h : Heap (List Nat))
    (bases : List Nat) (trees : Nat → Nat → Radix) : Prop where
  owned : Owned P s h
  counters : Counters g (topHeight g ias) (initValues s).info
  enc : ∀ i base, bases[i]? = some base → EncTable g h (topHeight g ias) [i] (trees i) base

structure Grown (s s' : State) (k : Nat) : Prop where
  allocated : s'.allocated = s.allocated + k
  freed : s'.freed = s.freed

variable {P : Pages g ias} {s : State} {bases : List Nat}

section

variable {ttBase status n a : Nat} {s' s1 : State} {h : Heap (List Nat)} {trees : Nat → Nat → Radix}
  {fuel i base : Nat} {rest : List MemoryRegion} {alloc : Nat → Option Nat}

theorem counters_zero (g : Granule) (n : Nat) : Counters g n AcsPgt.zero :=
  ⟨fun _ => low_zero g, fun _ => .inr g.fan_pos⟩

theorem initValues_init (s : State) : (initValues s).isValuesInit = true := by
  rw [initValues]
  split
  · assumption
  · rfl

theorem initValues_mem (s : State) :
    (initValues s).mem = s.mem ∧ (initValues s).allocated = s.allocated ∧
      (initValues s).freed = s.freed := by
  rw [initValues]
  split <;> exact ⟨rfl, rfl, rfl⟩

theorem initValues_info_congr (hinit : s'.isValuesInit = s.isValuesInit)
    (hinfo : s'.info = s.info) : (initValues s').info = (initValues s).info := by
  rw [initValues, initValues, hinit]
  split
  · exact hinfo
  · rfl

theorem RegionOk.createRegions_eq (hr : RegionOk g ias oas r) (ttBase base : Nat) (fuel : Nat)
    (alloc : Nat → Option Nat) (s : State) {q : MemoryRegion}
    (hfill : fillRegion g ias oas alloc fuel ttBase r s = some (status, s')) :
    createRegions (globalsOf g ias) alloc fuel g.log2 ttBase ⟨base, ias, oas⟩ (q :: rest) r s =
      if status = 0 then
        createRegions (globalsOf g ias) alloc fuel g.log2 ttBase ⟨base, ias, oas⟩ rest r s'
      else some (1, s'.free ttBase) := by
  have hpa := hr.physicalLt
  have hva := (Nat.lt_add_of_pos_right hr.lengthPos).trans_le hr.inside
  have halign :
      ¬ (r.virtualAddress &&& g.pageSize - 1 ≠ 0 ∨ r.physicalAddress &&& g.pageSize - 1 ≠ 0) := by
    rw [Granule.pageSize, and_low, and_low]
    intro hne
    rcases hne with hne | hne
    · exact hne (mod_eq_zero_of_dvd hr.virtualAligned)
    · exact hne (mod_eq_zero_of_dvd hr.physicalAligned)
  have hinput : r.virtualAddress &&& 1 <<< ias - 1 = firstPage g r * g.pageSize := by
    rw [shiftLeft_eq, one_mul, and_low, mod_eq_of_lt hva, hr.virtual_eq]
  have houtput : r.physicalAddress &&& 1 <<< oas - 1 = outPage g r * g.pageSize := by
    rw [shiftLeft_eq, one_mul, and_low, mod_eq_of_lt hpa, hr.physical_eq]
  have hfill' : fillTranslationTable (globalsOf g ias) alloc fuel
      (startTt g.log2 (globalsOf g ias).bitsPerLevel ias oas ttBase r) r.attributes s =
        some (status, s') := by
    show fillLoop _ _ _ _ _ (r.virtualAddress &&& _) (r.physicalAddress &&& _) _ = _
    rw [hinput, houtput]
    exact hfill
  refine (if_neg halign).trans ?_
  dsimp only
  rw [if_neg (by rw [shiftLeft_eq]; omega),
    if_neg (by rw [shiftLeft_eq]; omega), hfill']

theorem Format.globals_eq (hf : Format g ias) :
    ({ pageSize := g.pageSize
       bitsPerLevel := sub32 (log2PageSize g.pageSize) 3
       pgtAddrMask :=
         (1 <<< sub32 ias (log2PageSize g.pageSize) - 1) <<< log2PageSize g.pageSize } : Globals) =
      globalsOf g ias := by
  have hlt := hf.lt
  have hle := hf.le
  have hsub : sub32 ias g.log2 = ias - g.log2 := by
    rw [sub32]
    omega
  rw [log2PageSize_pageSize, sub32_log2, hsub, one_shiftLeft]
  rfl

section

variable (hf : Format g ias)
  (htable : (if base = 0 then allocPage g.pageSize alloc s else some (base, s)) = some (ttBase, s1))
include hf htable

theorem Format.valPgtCreate_eq
    (hregions : createRegions (globalsOf g ias) alloc fuel g.log2 ttBase ⟨base, ias, oas⟩
      (r :: rest) r s1 = some (status, s')) :
    valPgtCreate g.pageSize alloc fuel (r :: rest) ⟨base, ias, oas⟩ s =
      if status = 0 then some (0, ⟨ttBase, ias, oas⟩, s')
        else some (status, ⟨base, ias, oas⟩, s') := by
  rw [valPgtCreate]
  rw [htable, hf.globals_eq, log2PageSize_pageSize]
  dsimp only
  rw [hregions]

theorem Format.createRegions_of_call {desc : PgtDescriptor} (hcall :
      valPgtCreate g.pageSize alloc fuel (r :: rest) ⟨base, ias, oas⟩ s = some (status, desc, s')) :
    (status = 0 → desc.pgtBase = ttBase) ∧
      createRegions (globalsOf g ias) alloc fuel g.log2 ttBase ⟨base, ias, oas⟩ (r :: rest) r s1 =
        some (status, s') := by
  cases hregions : createRegions (globalsOf g ias) alloc fuel g.log2 ttBase ⟨base, ias, oas⟩
      (r :: rest) r s1 with
  | none =>
    rw [valPgtCreate] at hcall
    rw [htable, hf.globals_eq, log2PageSize_pageSize] at hcall
    dsimp only at hcall
    rw [hregions] at hcall
    cases hcall
  | some res =>
    obtain ⟨status', s2⟩ := res
    rw [hf.valPgtCreate_eq htable hregions] at hcall
    split_ifs at hcall with hzero
    · cases hcall
      exact ⟨fun _ => rfl, hzero ▸ rfl⟩
    · cases hcall
      exact ⟨fun h => absurd h hzero, rfl⟩

end

theorem not_belowPath {j : Nat} (hne : i ≠ j) (hi : BelowPath h [i] a) : ¬ BelowPath h [j] a := by
  intro hj
  obtain ⟨p, hp, hsi⟩ := hi
  obtain ⟨q, hq, hsj⟩ := hj
  obtain rfl : p = q := some.inj (hp.symm.trans hq)
  exact hne (head_unique hsi hsj)

theorem EncTable.frame {path : List Nat} {table : Nat → Radix} {h' : Heap (List Nat)}
    {W : Nat → Prop} (he : EncTable g h n path table base) (hf : Heap.Frame W h h')
    (hW : ∀ a, BelowPath h path a → ¬ W a) : EncTable g h' n path table base where
  aligned := he.aligned
  owns := he.owns.frame hf
  entry := by
    intro i hi
    rw [he.owns.mem_eq hf hi (hW _ ⟨path, he.owns i hi, suffix_refl path⟩)]
    refine (he.entry i hi).frame hf fun a ha => ?_
    obtain ⟨path', hown, hsuffix⟩ := ha
    exact hW a ⟨path', hown, (suffix_cons i path).trans hsuffix⟩

/-- A call of `val_pgt_create` for a region, with others behind it, ends with an error and `E` if
the allocator fails for it.  Otherwise the call for the region alone succeeds. -/
def CallEnds (call : List MemoryRegion → Option (Nat × PgtDescriptor × State))
    (desc : PgtDescriptor) (E : State → Prop) (Q : State → Heap (List Nat) → Prop) : Prop :=
  (∃ desc' s', (∀ rest, call rest = some (1, desc', s')) ∧ E s') ∨
    ∃ s' h', call [] = some (0, desc, s') ∧ Q s' h'

section

variable {res : List MemoryRegion → Option (Nat × PgtDescriptor × State)}
    {desc desc' : PgtDescriptor}
  {E : State → Prop} {Q : State → Heap (List Nat) → Prop}

theorem CallEnds.success (he : CallEnds res desc E Q) (hres : res [] = some (0, desc', s')) :
    desc' = desc ∧ ∃ h', Q s' h' := by
  rcases he with ⟨desc1, s1, herr, -⟩ | ⟨s1, h1, hok, hq⟩
  · cases hres.symm.trans (herr [])
  · cases hres.symm.trans hok
    exact ⟨rfl, h1, hq⟩

theorem CallEnds.failure (he : CallEnds res desc E Q) (hres : res rest = some (1, desc', s'))
    (hfirst : ∀ desc s', res [] ≠ some (0, desc, s')) : E s' := by
  rcases he with ⟨desc1, s1, herr, hq⟩ | ⟨s1, h1, hok, -⟩
  · cases hres.symm.trans (herr rest)
    exact hq
  · exact absurd hok (hfirst _ _)

/-- The rest of a call, with the table to fill.  It is freed if the loops fail. -/
theorem Ends.call (hf : Format g ias) (hr : RegionOk g ias oas r)
    (htable : (if base = 0 then allocPage g.pageSize P.alloc s else some (base, s)) =
      some (ttBase, s1))
    (hfill : Ends (fillRegion g ias oas P.alloc fuel ttBase r s1) E Q) :
    CallEnds (fun rest => valPgtCreate g.pageSize P.alloc fuel (r :: rest) ⟨base, ias, oas⟩ s)
      ⟨ttBase, ias, oas⟩ (fun s' => ∃ s3, s' = s3.free ttBase ∧ E s3) Q := by
  rcases hfill with ⟨s', hloop, hq⟩ | ⟨s', h', hloop, hq⟩
  · refine .inl ⟨⟨base, ias, oas⟩, s'.free ttBase, fun rest => ?_, s', rfl, hq⟩
    have hregions : createRegions (globalsOf g ias) P.alloc fuel g.log2 ttBase ⟨base, ias, oas⟩
        (r :: rest) r s1 = some (1, s'.free ttBase) :=
      hr.createRegions_eq ttBase base fuel _ s1 hloop
    exact hf.valPgtCreate_eq htable hregions
  · have hregions : createRegions (globalsOf g ias) P.alloc fuel g.log2 ttBase ⟨base, ias,
        oas⟩ [r] r s1 =
        some (0, s') := hr.createRegions_eq ttBase base fuel _ s1 hloop
    exact .inr ⟨s', h', hf.valPgtCreate_eq htable hregions, hq⟩

end

theorem Broken.of_initValues {empty : Prop} {c : Nat} (hb : Broken P empty c (initValues s) s') :
    Broken P empty c s s' := by
  obtain ⟨-, hallocated, hfreed⟩ := initValues_mem s
  refine ⟨.trans (.of_eq hallocated hfreed) hb.given, hb.full, fun he => ?_⟩
  have hfail := hb.failed he
  rw [Failed, hallocated, hfreed] at hfail
  exact hfail

section

variable (ht : Tables P s h bases trees) (hf : Format g ias) (hr : RegionOk g ias oas r)
  (hfuel : (topHeight g ias + 1) * (g.fan + 1) ≤ fuel) (hi : bases[i]? = some base)
include ht hf hr hfuel hi

theorem Tables.fill :
    Ends (fillRegion g ias oas P.alloc fuel base r s)
      (Broken P (trees i = fun _ => .empty) (openRegion g ias r (initValues s).info) s)
      (fun s' h' => Tables P s' h' bases
        (Function.update trees i (mapRegion g ias r (initValues s).info (trees i))) ∧
        Grown s s' (tableFresh g.fan (trees i) (regionPlan g ias r (initValues s).info).1)) := by
  obtain ⟨hmem, hallocated, hfreed⟩ := initValues_mem s
  have howned : Owned P (initValues s) h :=
    ⟨ht.owned.mem.trans hmem.symm, by rw [hallocated]; exact ht.owned.allocated⟩
  rcases fillSpec P hf.le hf.lt.le hr.attributes_mod (topHeight g ias) fuel
    (startTt g.log2 g.bits ias oas base r) (initValues s) h [i] (trees i) (firstPage g r)
    (pageCount g r) (outPage g r) hfuel (hr.fillArgs hf base) ht.counters
    (initValues_init s) howned (ht.enc i base hi) with ⟨s', herr, hb⟩ | ⟨s', h', hloop, hfilled⟩
  · exact .inl ⟨s', herr, hb.of_initValues⟩
  refine .inr ⟨s', h', hloop, ⟨hfilled.owned, ?_, ?_⟩, ?_, hfilled.freed.trans hfreed⟩
  · rw [initValues, if_pos hfilled.init, hfilled.info]
    exact ht.counters.steps _
  · intro j base' hj
    by_cases hij : j = i
    · obtain rfl := hij
      obtain rfl : base' = base := some.inj (hj.symm.trans hi)
      rw [Function.update_self]
      exact hfilled.enc
    · rw [Function.update_of_ne hij]
      exact (ht.enc j base' hj).frame hfilled.frame fun a ha => not_belowPath hij ha
  · rw [hfilled.allocated, hallocated]
    rfl

theorem Tables.update :
    CallEnds (fun rest => valPgtCreate g.pageSize P.alloc fuel (r :: rest) ⟨base, ias, oas⟩ s)
      ⟨base, ias, oas⟩ (fun s' => ∃ s3, s' = s3.free base ∧
        Broken P (trees i = fun _ => .empty) (openRegion g ias r (initValues s).info) s s3)
      (fun s' h' => Tables P s' h' bases
        (Function.update trees i (mapRegion g ias r (initValues s).info (trees i))) ∧
        Grown s s' (tableFresh g.fan (trees i) (regionPlan g ias r (initValues s).info).1)) := by
  have hpos := Nat.pos_iff_ne_zero.mp ((ht.enc i base hi).table_lt ht.owned.allocated).1
  exact (ht.fill hf hr hfuel hi).call hf hr (if_neg hpos)

end

theorem Tables.newPage (ht : Tables P s h bases trees)
    {p : Nat} (hp : P.alloc s.allocated = some p) :
    ∃ s1 h1, allocPage g.pageSize P.alloc s = some (p, s1) ∧
      Tables P s1 h1 (bases ++ [p]) (Function.update trees bases.length (fun _ => .empty)) ∧
      (initValues s1).info = (initValues s).info ∧ Grown s s1 1 := by
  obtain ⟨s1, h1, halloc, ho1, hinfo1, hinit1, henc1, hframe1, hcount1, hfreed1⟩ :=
    allocPage_spec ht.owned hp (topHeight g ias) [bases.length]
  have hinfo := initValues_info_congr hinit1 hinfo1
  refine ⟨s1, h1, halloc, ⟨ho1, by rw [hinfo]; exact ht.counters, fun j base' hj => ?_⟩, hinfo,
    hcount1, hfreed1⟩
  rcases Nat.lt_trichotomy j bases.length with hlt | heq | hgt
  · rw [getElem?_append_left hlt] at hj
    rw [Function.update_of_ne (Nat.ne_of_lt hlt)]
    exact (ht.enc j base' hj).frame (hframe1 (fun _ => False)) fun _ _ => id
  · rw [heq, getElem?_concat_length] at hj
    rw [heq, Function.update_self, ← some.inj hj]
    exact henc1
  · rw [getElem?_eq_none (by rw [length_append]; exact hgt)] at hj
    exact absurd hj (by nofun)

theorem Tables.create (ht : Tables P s h bases trees) (hf : Format g ias)
    (hr : RegionOk g ias oas r) (hfuel : (topHeight g ias + 1) * (g.fan + 1) ≤ fuel) {p : Nat}
    (hp : P.alloc s.allocated = some p) :
    CallEnds (fun rest => valPgtCreate g.pageSize P.alloc fuel (r :: rest) ⟨0, ias, oas⟩ s)
      ⟨p, ias, oas⟩ (Broken P True (1 + openRegion g ias r (initValues s).info) s)
      (fun s' h' => Tables P s' h' (bases ++ [p])
        (Function.update trees bases.length
          (mapRegion g ias r (initValues s).info (fun _ => .empty))) ∧
        Grown s s' (1 + tableFresh g.fan (fun _ => .empty)
          (regionPlan g ias r (initValues s).info).1)) := by
  obtain ⟨s1, h1, halloc, ht1, hinfo, hgrown1⟩ := ht.newPage hp
  have hfill := ht1.fill hf hr hfuel getElem?_concat_length
  rw [Function.update_self, Function.update_idem, hinfo] at hfill
  have hgrown (s' : State) {k : Nat} (hk : Grown s1 s' k) : Grown s s' (1 + k) :=
    ⟨by rw [hk.allocated, hgrown1.allocated, add_assoc], hk.freed.trans hgrown1.freed⟩
  have hgiven : Given P.alloc s s1 := .page hp hgrown1.allocated hgrown1.freed
  rcases hfill.call hf hr ((if_pos rfl).trans halloc) with
    ⟨desc, s', herr, s3, rfl, hb⟩ | ⟨s', h', hok, ht', hk⟩
  · exact .inl ⟨desc, _, herr, (hgiven.trans hb.given).free p, hb.full,
      fun _ => (hb.failed rfl).opened hp hgrown1.allocated hgrown1.freed⟩
  · exact .inr ⟨s', h', hok, ht', hgrown s' hk⟩

theorem valPgtCreate_no_page (hp : P.alloc s.allocated = none) (fuel : Nat)
    (regions : List MemoryRegion) (ias oas : Nat) :
    valPgtCreate g.pageSize P.alloc fuel regions ⟨0, ias, oas⟩ s = some (1, ⟨0, ias, oas⟩, s) := by
  rw [valPgtCreate]
  rw [if_pos rfl, allocPage, hp]

end

/-! ## Runs -/

/-- The states of a program that makes tables and updates them, with the tables it made. -/
inductive Reachable {g : Granule} {ias : Nat} (P : Pages g ias) (oas : Nat) :
    State → List Nat → Prop
  | start (mem : Nat → Nat) : Reachable P oas (firstState mem) []
  | create {s s' : State} {bases : List Nat} {desc : PgtDescriptor} {fuel : Nat} (r : MemoryRegion)
    (hs : Reachable P oas s bases) (hr : RegionOk g ias oas r)
    (hfuel : (topHeight g ias + 1) * (g.fan + 1) ≤ fuel)
    (hcall : valPgtCreate g.pageSize P.alloc fuel [r] ⟨0, ias, oas⟩ s =
      some (0, desc, s')) : Reachable P oas s' (bases ++ [desc.pgtBase])
  | update {s s' : State} {bases : List Nat} {desc : PgtDescriptor} {fuel base : Nat}
    (r : MemoryRegion) (hs : Reachable P oas s bases) (hr : RegionOk g ias oas r)
    (hfuel : (topHeight g ias + 1) * (g.fan + 1) ≤ fuel) (hbase : base ∈ bases)
    (hcall : valPgtCreate g.pageSize P.alloc fuel [r] ⟨base, ias, oas⟩ s =
      some (0, desc, s')) : Reachable P oas s' bases

theorem tables_none (P : Pages g ias) (s : State)
    (hc : Counters g (topHeight g ias) (initValues s).info) :
    Tables P s ⟨s.mem, fun _ => none⟩ [] (fun _ _ => .empty) :=
  ⟨⟨rfl, fun _ hown => absurd rfl hown⟩, hc, fun _ _ hi => absurd hi (by nofun)⟩

theorem tables_start (P : Pages g ias) (mem : Nat → Nat) :
    Tables P (firstState mem) ⟨mem, fun _ => none⟩ [] (fun _ _ => .empty) :=
  tables_none P (firstState mem) (counters_zero g _)

theorem Reachable.tables (hf : Format g ias) (hs : Reachable P oas s bases) :
    ∃ h trees, Tables P s h bases trees := by
  induction hs with
  | start mem => exact ⟨_, _, tables_start P mem⟩
  | @create s s' bases desc fuel r hs hr hfuel hcall ih =>
    obtain ⟨h, trees, ht⟩ := ih
    cases hp : P.alloc s.allocated with
    | none => cases hcall.symm.trans (valPgtCreate_no_page hp fuel [r] ias oas)
    | some p =>
      obtain ⟨rfl, h', ht', -⟩ := (ht.create hf hr hfuel hp).success hcall
      exact ⟨h', _, ht'⟩
  | update r hs hr hfuel hbase hcall ih =>
    obtain ⟨h, trees, ht⟩ := ih
    obtain ⟨i, hi⟩ := mem_iff_getElem?.mp hbase
    obtain ⟨-, h', ht', -⟩ := (ht.update hf hr hfuel hi).success hcall
    exact ⟨h', _, ht'⟩

end ServerSoc.Pgt
