/-
When the hart info table says what the MADT and the RHCT say.

`HartFaithful` is what a reader of the table relies on.  The list of harts is wrong for flags with
only reserved bits set, an ISA string is copied whatever its length, and nobody writes `mmu_type`,
so its value is what the buffer had there before.
-/
import ServerSoc.Hart.Entry

namespace ServerSoc.Hart

open Memory List Nat

/-! ## Specification -/

def enabledHarts (rs : List MadtRecord) : List Rintc :=
  (rs.filterMap MadtRecord.rintc?).filter fun x => x.flags.testBit 0 ∨ x.flags.testBit 1

structure HartFaithful (t : Mem) (rs : List MadtRecord) (ns : List RhctNode) : Prop where
  num : numOfHart t = (enabledHarts rs).length
  entry : ∀ k r, (enabledHarts rs)[k]? = some r →
    load t (entryBase k + offHartNum) 4 = k ∧ load t (entryBase k + offHartId) 8 = r.hartId ∧
      load t (entryBase k + offAcpiProcessorUid) 4 = r.acpiProcessorUid ∧
      load t (entryBase k + offExtIntcId) 4 = r.externalIntcId ∧
      load t (entryBase k + offImsicBase) 8 = r.imsicBase ∧
      load t (entryBase k + offImsicSize) 4 = r.imsicSize
  isa : ∀ k r, (enabledHarts rs)[k]? = some r → ∀ s, IsaOf ns r.acpiProcessorUid s →
    s.length ≤ isaStringSize ∧ ∃ a, valHartGetIsaString t k = some a ∧
      ∀ i (hi : i < s.length), t (a + i) = s[i]
  mmu : ∀ k r, (enabledHarts rs)[k]? = some r → ∀ mmuType, MmuOf ns r.acpiProcessorUid mmuType →
    valHartGetMmuType t k = mmuType

/-- What the tables and the buffer must be like.  The loop takes a first record even if the
MADT has none. -/
structure HartsIntact (madt : Mem) (rs : List MadtRecord) (ns : List RhctNode) (tbl : Mem) :
    Prop where
  first : rs = [] → ¬ (load madt madtHeaderSize 1 = typeRintc ∧
    Usable (load madt (madtHeaderSize + 4) 4))
  flags : ∀ r ∈ rs.filterMap MadtRecord.rintc?, 1 < r.flags → r.flags % 4 ≠ 0
  isa : ∀ r ∈ enabledHarts rs, ∀ s, IsaOf ns r.acpiProcessorUid s → s.length ≤ isaStringSize
  mmu : ∀ k r, (enabledHarts rs)[k]? = some r → ∀ mmuType, MmuOf ns r.acpiProcessorUid mmuType →
    load tbl (entryBase k + offMmuType) 1 = mmuType

/-! ## The flags -/

theorem usable_iff (flags : Nat) : Usable flags ↔ flags % 2 = 1 ∨ 1 < flags := by
  rw [Usable, enabledBit, onlineCapBit]
  split_ifs with h <;> simp [h]

theorem enabled_iff (flags : Nat) :
    (flags.testBit 0 = true ∨ flags.testBit 1 = true) ↔ flags % 4 ≠ 0 := by
  rw [testBit_eq_decide_div_mod_eq, testBit_eq_decide_div_mod_eq, decide_eq_true_eq,
    decide_eq_true_eq]
  omega

theorem enabledHarts_eq_filter (rs : List MadtRecord) :
    enabledHarts rs = (usableHarts rs).filter (fun x => x.flags.testBit 0 ∨ x.flags.testBit 1) := by
  rw [usableHarts, filter_filter]
  refine filter_congr fun r _ => ?_
  rw [Bool.eq_iff_iff, Bool.and_eq_true, decide_eq_true_eq, decide_eq_true_eq, enabled_iff,
    usable_iff]
  omega

theorem usableHarts_length_eq_iff (rs : List MadtRecord) :
    (usableHarts rs).length = (enabledHarts rs).length ↔
      ∀ r ∈ rs.filterMap MadtRecord.rintc?, 1 < r.flags → r.flags % 4 ≠ 0 := by
  rw [enabledHarts_eq_filter, eq_comm, length_filter_eq_length_iff]
  constructor
  · intro h r hr hbig
    have hmem : r ∈ usableHarts rs :=
      mem_filter.mpr ⟨hr, decide_eq_true ((usable_iff _).mpr (.inr hbig))⟩
    exact (enabled_iff _).mp (of_decide_eq_true (h r hmem))
  · intro h r hr
    obtain ⟨hmem, hu⟩ := mem_filter.mp hr
    have hflags := h r hmem
    have hu := (usable_iff _).mp (of_decide_eq_true hu)
    exact decide_eq_true ((enabled_iff _).mpr (by omega))

theorem usableHarts_eq {rs : List MadtRecord}
    (h : (usableHarts rs).length = (enabledHarts rs).length) :
    usableHarts rs = enabledHarts rs := by
  rw [enabledHarts_eq_filter, eq_comm, length_filter_eq_length_iff] at h
  rw [enabledHarts_eq_filter, filter_eq_self.mpr h]

/-! ## The table -/

section

variable {madt rhct : Mem} {rs : List MadtRecord} {ns : List RhctNode} {tbl : Mem} {r : Rintc}

theorem fits_of_recordsAt {a e : Nat} (h : RecordsAt madt a rs e)
    (hr : r ∈ rs.filterMap MadtRecord.rintc?) : ∃ b, r = readRintc madt b := by
  induction rs generalizing a with
  | nil => cases hr
  | cons x rs ih =>
    obtain ⟨⟨-, hinfo⟩, hrest⟩ := h
    rw [filterMap_cons] at hr
    cases hx : x.info with
    | other type =>
      simp only [MadtRecord.rintc?, hx] at hr
      exact ih hrest hr
    | rintc y =>
      simp only [MadtRecord.rintc?, hx, mem_cons] at hr
      rw [hx] at hinfo
      rcases hr with rfl | hr
      · exact ⟨a, hinfo.2.2.symm⟩
      · exact ih hrest hr

theorem palHartCreateInfoTable_eq (hmadt : MadtAt madt rs) (hrhct : RhctAt rhct ns) (hrs : rs ≠ [])
    (tbl : Mem) :
    palHartCreateInfoTable (some madt) (some rhct) tbl =
      some (putHarts ns 0 (usableHarts rs) (store tbl 0 4 0)) := by
  have hle := le_of_recordsAt hmadt
  have hlt : tableLength madt < 2 ^ 32 := load_lt madt 4 4
  refine createHarts_eq hrhct _ hrs hmadt (by omega) _ ?_ (by omega)
  rw [load_store_self, zero_mod]

/-- Without a record the loop looks at what lies behind the table. -/
theorem palHartCreateInfoTable_nil (hmadt : MadtAt madt []) (hrhct : RhctAt rhct ns) (tbl : Mem) :
    ∃ t, palHartCreateInfoTable (some madt) (some rhct) tbl = some t ∧
      (numOfHart t = 0 ↔ ¬ (load madt madtHeaderSize 1 = typeRintc ∧
        Usable (load madt (madtHeaderSize + 4) 4))) := by
  have hlen : madtHeaderSize = tableLength madt := hmadt
  have hbyte : load madt (madtHeaderSize + 1) 1 < 256 ^ 1 := load_lt _ _ _
  have hend : ¬ (madtHeaderSize + load madt (madtHeaderSize + 1) 1) % 2 ^ 32 <
      tableLength madt := by
    rw [← hlen, mod_eq_of_lt (by rw [madtHeaderSize] at *; omega)]
    omega
  have hzero : load (store tbl 0 4 0) 0 4 = 0 := by
    rw [load_store_self, zero_mod]
  rw [palHartCreateInfoTable, createHarts]
  by_cases hu : load madt madtHeaderSize 1 = typeRintc ∧ Usable (load madt (madtHeaderSize + 4) 4)
  · simp only [if_pos hu, if_neg hend, Option.some.injEq, exists_eq_left']
    refine iff_of_false (fun h => ?_) (not_not.mpr hu)
    rw [createHart_eq rfl hrhct hzero] at h
    cases h
  · simp only [if_neg hu, if_neg hend, Option.some.injEq, exists_eq_left']
    exact iff_of_true hzero hu

theorem load_putHarts (tbl : Mem) {xs : List Rintc}
    (hfit : ∀ r ∈ xs, ∀ s, IsaOf ns r.acpiProcessorUid s → s.length ≤ isaStringSize) {k : Nat}
    (hr : xs[k]? = some r) :
    ∃ tbl', (∀ o n, o + n ≤ entrySize → load (putHarts ns 0 xs tbl) (entryBase k + o) n =
        load (putHart ns k r tbl') (entryBase k + o) n) ∧
      ∀ x, entryBase k ≤ x → tbl' x = tbl x := by
  obtain ⟨tbl', hround, hbefore⟩ := putHarts_entry tbl hfit hr
  rw [zero_add] at hround hbefore
  refine ⟨tbl', fun o n hn => load_congr (fun i hi => hround _ (by omega) ?_), hbefore⟩
  rw [entryBase_succ]
  omega

theorem hartFaithful_putHarts (hmadt : MadtAt madt rs) (hrhct : RhctAt rhct ns)
    (hfit : ∀ r ∈ enabledHarts rs, ∀ s, IsaOf ns r.acpiProcessorUid s → s.length ≤ isaStringSize)
    (hzero : load tbl 0 4 = 0) :
    HartFaithful (putHarts ns 0 (enabledHarts rs) tbl) rs ns ↔
      ∀ k r, (enabledHarts rs)[k]? = some r → ∀ mmuType, MmuOf ns r.acpiProcessorUid mmuType →
        load tbl (entryBase k + offMmuType) 1 = mmuType := by
  have hlen : (enabledHarts rs).length ≤ rs.length :=
    (length_filter_le _ _).trans (length_filterMap_le _ _)
  have hle := le_of_recordsAt hmadt
  have hlt : tableLength madt < 2 ^ 32 := load_lt madt 4 4
  have hnum : numOfHart (putHarts ns 0 (enabledHarts rs) tbl) = (enabledHarts rs).length := by
    rw [numOfHart, load_header_putHarts hzero (by omega), zero_add]
  have hk : ∀ k r, (enabledHarts rs)[k]? = some r → k < (enabledHarts rs).length :=
    fun k r hr => (List.getElem?_eq_some_iff.mp hr).1
  -- `mmu_type` is behind everything that is written
  have hmmu : ∀ k r, (enabledHarts rs)[k]? = some r →
      valHartGetMmuType (putHarts ns 0 (enabledHarts rs) tbl) k =
        load tbl (entryBase k + offMmuType) 1 := by
    intro k r hr
    have hin := hk k r hr
    obtain ⟨tbl', hround, hbefore⟩ := load_putHarts tbl hfit hr
    rw [valHartGetMmuType, if_neg (by omega), hround _ _ (by decide)]
    refine load_congr fun i hi => ?_
    rw [putHart_above (hfit r (mem_of_getElem? hr)) (Nat.le_add_right _ _), hbefore _ (by omega)]
  constructor
  · intro h k r hr mmuType ht
    rw [← hmmu k r hr]
    exact h.mmu k r hr mmuType ht
  · intro h
    refine ⟨hnum, fun k r hr => ?_, fun k r hr s hs => ?_, fun k r hr mmuType ht => ?_⟩
    · obtain ⟨tbl', hround, -⟩ := load_putHarts tbl hfit hr
      obtain ⟨b, rfl⟩ := fits_of_recordsAt hmadt (mem_filter.mp (mem_of_getElem? hr)).1
      have hin := hk k _ hr
      have hfield : ∀ f ∈ hartFields k (readRintc madt b), f.val < 256 ^ f.len →
          load (putHarts ns 0 (enabledHarts rs) tbl) (entryBase k + f.off) f.len = f.val := by
        intro f hf hval
        have hend := hartFields_lt k _ f hf
        rw [hround _ _ (hend.trans (by decide)), load_putHart hf hval]
      refine ⟨hfield ⟨offHartNum, 4, k⟩ ?_ (show k < 256 ^ 4 by omega),
        hfield ⟨offHartId, 8, _⟩ ?_ ?_,
        hfield ⟨offAcpiProcessorUid, 4, _⟩ ?_ ?_, hfield ⟨offExtIntcId, 4, _⟩ ?_ ?_,
        hfield ⟨offImsicBase, 8, _⟩ ?_ ?_, hfield ⟨offImsicSize, 4, _⟩ ?_ ?_⟩
      all_goals first
        | exact load_lt _ _ _
        | simp [hartFields]
    · obtain ⟨tbl', hround, -⟩ := load_putHarts tbl hfit hr
      have hsize := hfit r (mem_of_getElem? hr) s hs
      have hin := hk k r hr
      refine ⟨hsize, _, if_neg (by omega), fun i hi => ?_⟩
      rw [isaStringSize] at hsize
      have hbyte := hround (offIsaString + i) 1 (by rw [offIsaString, entrySize]; omega)
      simp only [← add_assoc] at hbyte
      rw [UInt8.toNat_inj.mp hbyte, putHart_isa hrhct hs hi]
    · rw [hmmu k r hr]
      exact h k r hr mmuType ht

end

/-! ## The result -/

/-- On well-formed tables the hart info table is right exactly when the flags have no reserved
bits alone, the ISA strings fit, and the buffer had the types of the MMU nodes in it. -/
theorem palHartCreateInfoTable_faithful_iff {madt rhct : Mem} {rs : List MadtRecord}
    {ns : List RhctNode} (hmadt : MadtAt madt rs) (hrhct : RhctAt rhct ns) (tbl : Mem) :
    ∃ t, palHartCreateInfoTable (some madt) (some rhct) tbl = some t ∧
      (HartFaithful t rs ns ↔ HartsIntact madt rs ns tbl) := by
  have hzero : load (store tbl 0 4 0) 0 4 = 0 := by
    rw [load_store_self, zero_mod]
  have hmmu : ∀ k, load (store tbl 0 4 0) (entryBase k + offMmuType) 1 =
      load tbl (entryBase k + offMmuType) 1 := by
    intro k
    have hbase := eight_le_entryBase k
    exact load_store_of_disjoint (by omega)
  by_cases hrs : rs = []
  · subst hrs
    obtain ⟨t, ht, hnum⟩ := palHartCreateInfoTable_nil hmadt hrhct tbl
    refine ⟨t, ht, ?_⟩
    constructor
    · intro h
      exact ⟨fun _ => hnum.mp h.num, nofun, nofun, nofun⟩
    · intro h
      exact ⟨hnum.mpr (h.first rfl), nofun, nofun, nofun⟩
  · refine ⟨_, palHartCreateInfoTable_eq hmadt hrhct hrs tbl, ?_⟩
    have hlen : (usableHarts rs).length ≤ rs.length :=
      (length_filter_le _ _).trans (length_filterMap_le _ _)
    have hle := le_of_recordsAt hmadt
    have hlt : tableLength madt < 2 ^ 32 := load_lt madt 4 4
    constructor
    · intro h
      have hcount : (usableHarts rs).length = (enabledHarts rs).length := by
        rw [← h.num, numOfHart, load_header_putHarts hzero (by omega), zero_add]
      have hfit : ∀ r ∈ enabledHarts rs, ∀ s, IsaOf ns r.acpiProcessorUid s →
          s.length ≤ isaStringSize := by
        intro r hr s hs
        obtain ⟨k, hk⟩ := mem_iff_getElem?.mp hr
        exact (h.isa k r hk s hs).1
      rw [usableHarts_eq hcount, hartFaithful_putHarts hmadt hrhct hfit hzero] at h
      refine ⟨fun hnil => absurd hnil hrs, (usableHarts_length_eq_iff rs).mp hcount, hfit, ?_⟩
      simpa [hmmu] using h
    · intro h
      have hcount := (usableHarts_length_eq_iff rs).mpr h.flags
      rw [usableHarts_eq hcount, hartFaithful_putHarts hmadt hrhct h.isa hzero]
      simpa [hmmu] using h.mmu

/-! ## One hart -/

def image (bytes : List (Nat × UInt8)) : Mem := fun a => (bytes.lookup a).getD 0

def oneHartMadt (flags : UInt8) : Mem :=
  image [(4, 80), (44, 0x18), (45, 36), (48, flags), (52, 3), (60, 7)]

def oneHartRecords (flags : Nat) : List MadtRecord := [⟨36, .rintc ⟨flags, 3, 7, 0, 0, 0⟩⟩]

def oneHartRhct (mmuType : UInt8) : Mem :=
  image [(4, 95), (48, 3), (52, 56), (56, 0xFF), (57, 0xFF), (58, 20), (62, 2), (64, 7), (68, 76),
    (72, 87), (78, 11), (82, 3), (84, 0x72), (85, 0x76), (87, 2), (89, 8), (94, mmuType)]

def oneHartNodes (mmuType : Nat) : List RhctNode :=
  [⟨20, .hartInfo 7 [1, 2]⟩, ⟨11, .isaString [0x72, 0x76, 0]⟩, ⟨8, .mmu mmuType⟩]

theorem isaOf_oneHartNodes {mmuType uid : Nat} {s : List UInt8}
    (h : IsaOf (oneHartNodes mmuType) uid s) : s = [0x72, 0x76, 0] := by
  rw [← mem_isaStrings] at h
  simp only [isaStrings, oneHartNodes, flatMap_cons] at h
  split at h
  · simpa [nodeStrings, RhctNode.string?] using h
  · cases h

theorem mmuOf_oneHartNodes {mmuType uid t : Nat} (h : MmuOf (oneHartNodes mmuType) uid t) :
    t = mmuType := by
  obtain ⟨-, -, -, -, j, -, m, hm, hinfo⟩ := h
  have hmem := mem_of_getElem? hm
  simp only [oneHartNodes, mem_cons, not_mem_nil, or_false] at hmem
  rcases hmem with rfl | rfl | rfl
  · cases hinfo
  · cases hinfo
  · exact (NodeInfo.mmu.inj hinfo).symm

theorem rhctAt_oneHartRhct {mmuType : UInt8} (h : mmuType = 0 ∨ mmuType = 1) :
    RhctAt (oneHartRhct mmuType) (oneHartNodes mmuType.toNat) := by
  refine ⟨?_, ?_, ?_, fun uid s s' hs hs' => ?_, fun uid t t' ht ht' => ?_⟩
  · rcases h with rfl | rfl <;> decide
  · rcases h with rfl | rfl <;> decide
  · rcases h with rfl | rfl <;> decide
  · rw [isaOf_oneHartNodes hs, isaOf_oneHartNodes hs']
  · rw [mmuOf_oneHartNodes ht, mmuOf_oneHartNodes ht']

/-- In a buffer of zeros the table of a hart with MMU type 0 is right. -/
theorem palHartCreateInfoTable_sv39 :
    ∃ t, palHartCreateInfoTable (some (oneHartMadt 1)) (some (oneHartRhct 0)) (fun _ => 0) =
      some t ∧ HartFaithful t (oneHartRecords 1) (oneHartNodes 0) := by
  obtain ⟨t, ht, hiff⟩ := palHartCreateInfoTable_faithful_iff
    (show MadtAt (oneHartMadt 1) (oneHartRecords 1) by decide) (rhctAt_oneHartRhct (.inl rfl))
      fun _ => 0
  refine ⟨t, ht, hiff.mpr ⟨nofun, by decide, fun r _ s hs => ?_, fun k r _ mmuType ht => ?_⟩⟩
  · rw [isaOf_oneHartNodes hs]
    decide
  · rw [mmuOf_oneHartNodes ht]
    rfl

/-- The type of an MMU node is not found in the table, and a hart with a reserved flag is. -/
theorem palHartCreateInfoTable_not_faithful :
    (∃ t, palHartCreateInfoTable (some (oneHartMadt 1)) (some (oneHartRhct 1)) (fun _ => 0) =
        some t ∧ ¬ HartFaithful t (oneHartRecords 1) (oneHartNodes 1)) ∧
      ∃ t, palHartCreateInfoTable (some (oneHartMadt 4)) (some (oneHartRhct 0)) (fun _ => 0) =
        some t ∧ ¬ HartFaithful t (oneHartRecords 4) (oneHartNodes 0) := by
  constructor
  · refine ⟨_, palHartCreateInfoTable_eq (show MadtAt _ (oneHartRecords 1) by decide)
      (rhctAt_oneHartRhct (.inr rfl)) (by decide) _, fun h => ?_⟩
    have hmmu := h.mmu 0 ⟨1, 3, 7, 0, 0, 0⟩ (by decide) 1
      ⟨⟨20, .hartInfo 7 [1, 2]⟩, by decide, [1, 2], rfl, 2, by decide, ⟨8, .mmu 1⟩, rfl, rfl⟩
    exact absurd hmmu (by decide)
  · refine ⟨_, palHartCreateInfoTable_eq (show MadtAt _ (oneHartRecords 4) by decide)
      (rhctAt_oneHartRhct (.inl rfl)) (by decide) _, fun h => ?_⟩
    exact absurd h.num (by decide)

end ServerSoc.Hart
