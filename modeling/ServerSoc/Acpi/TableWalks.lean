/-
The walks over the MADT, the RHCT and the RIMT (pal_hart.c and pal_iommu.c of pal_uefi_acpi/src).

The records give their own lengths.  Every record is used before anything is compared with the
length of the table, and a length of zero is not looked for.  The walks are `Base.visits`, and the
builders are folds over what they visit.
-/
import ServerSoc.Base.Stride
import ServerSoc.Hart.Create
import ServerSoc.Iommu.Entry

namespace ServerSoc.Acpi

open Memory Base List

abbrev Span := Nat × Nat

def Inside (total : Nat) (s : Span) : Prop := s.1 + s.2 ≤ total

/-! ## MADT -/

section

open Hart

variable {madt rhct : Mem} {total node uid : Nat}

def madtRecordLength (madt : Mem) (entry : Nat) : Nat := load madt (entry + 1) 1

def UsableRintc (madt : Mem) (entry : Nat) : Prop :=
  load madt entry 1 = typeRintc ∧ Usable (load madt (entry + 4) 4)

instance (madt : Mem) (entry : Nat) : Decidable (UsableRintc madt entry) :=
  inferInstanceAs (Decidable (_ ∧ _))

/-- The body of the loop: the pointer into the info table and the table. -/
def hartRound (madt rhct : Mem) (s : Nat × Mem) (r : Nat × Nat) : Nat × Mem :=
  if UsableRintc madt r.1 then (s.1 + Hart.entrySize, createHart madt rhct r.1 s.1 s.2) else s

def madtVisits (madt : Mem) (fuel : Nat) : List (Nat × Nat) :=
  visits (madtRecordLength madt) (tableLength madt) fuel (madtHeaderSize, madtHeaderSize)

theorem createHarts_eq_visits (madt rhct : Mem) (fuel entry length ptr : Nat) (tbl : Mem) :
    createHarts madt rhct fuel entry length ptr tbl =
      if ends (madtRecordLength madt) (tableLength madt) fuel (entry, length) then
        some ((visits (madtRecordLength madt) (tableLength madt) fuel (entry, length)).foldl
          (hartRound madt rhct) (ptr, tbl)).2
      else none := by
  induction fuel generalizing entry length ptr tbl with
  | zero => rfl
  | succ fuel ih =>
    have hround : hartRound madt rhct (ptr, tbl) (entry, length) =
        (if UsableRintc madt entry then ptr + Hart.entrySize else ptr,
          if UsableRintc madt entry then createHart madt rhct entry ptr tbl else tbl) := by
      by_cases h : UsableRintc madt entry
      · simp [hartRound, if_pos h]
      · simp [hartRound, if_neg h]
    rw [ends, visits, foldl_cons, hround]
    by_cases hmore : (strideNext (madtRecordLength madt) (entry, length)).2 < tableLength madt
    · rw [if_pos hmore, if_pos hmore]
      exact (if_pos hmore).trans (ih _ _ _ _)
    · rw [if_neg hmore, if_neg hmore]
      exact if_neg hmore

/-- What the builder reads of a record of the MADT, and what the record claims. -/
def madtSpans (madt : Mem) (entry : Nat) : List Span :=
  [(entry, 2), (entry, madtRecordLength madt entry)] ++
    if load madt entry 1 = typeRintc then
      (entry, 8) :: if Usable (load madt (entry + 4) 4) then [(entry, rintcSize)] else []
    else []

/-! ## RHCT -/

def nodeLength (rhct : Mem) (node : Nat) : Nat := load rhct (node + 2) 2

def namedSpans (rhct : Mem) (node : Nat) : List Span :=
  [(node, 4), (node, nodeLength rhct node)] ++
    if load rhct node 2 = typeIsaString then [(node, 8 + load rhct (node + 6) 2)] else []

def nodeSpans (rhct : Mem) (uid node : Nat) : List Span :=
  [(node, 4), (node, nodeLength rhct node)] ++
    if load rhct node 2 = typeHartInfo then
      (node, 12) ::
        if load rhct (node + 8) 4 = uid then
          (node, 12 + 4 * load rhct (node + 6) 2) ::
            (range (load rhct (node + 6) 2)).flatMap fun index2 =>
              namedSpans rhct (load rhct (node + 12 + 4 * index2) 4)
        else []
    else []

def rhctSpans (rhct : Mem) (uid : Nat) : Nat → Nat → List Span
  | 0, _ => []
  | left + 1, node =>
    nodeSpans rhct uid node ++ rhctSpans rhct uid left (node + nodeLength rhct node)

structure HartWalkOk (madt rhct tbl : Mem) : Prop where
  returns : ∃ fuel tbl', createHarts madt rhct fuel madtHeaderSize madtHeaderSize
    (Hart.entryBase 0) tbl = some tbl'
  madt_inside : ∀ fuel, ∀ r ∈ madtVisits madt fuel, ∀ s ∈ madtSpans madt r.1,
    Inside (tableLength madt) s
  rhct_inside : ∀ fuel, ∀ r ∈ madtVisits madt fuel, UsableRintc madt r.1 →
    ∀ s ∈ rhctSpans rhct (load madt (r.1 + 16) 4) (rhctNodeNumber rhct) (rhctNodeOffset rhct),
      Inside (tableLength rhct) s

def nodeAt (rhct : Mem) (k : Nat) : Nat :=
  (fun node => node + nodeLength rhct node)^[k] (rhctNodeOffset rhct)

def MadtRecordFits (madt : Mem) (total entry : Nat) : Prop :=
  if UsableRintc madt entry then entry + rintcSize ≤ total
  else if load madt entry 1 = typeRintc then entry + 8 ≤ total
  else entry + 2 ≤ total

def NamedFits (rhct : Mem) (total node : Nat) : Prop :=
  node + 4 ≤ total ∧ node + nodeLength rhct node ≤ total ∧
    (load rhct node 2 = typeIsaString → node + 8 + load rhct (node + 6) 2 ≤ total)

/-- A node with its length; a hart info node with its UID, and for the UID looked for with
its offsets and the nodes they name. -/
def NodeFits (rhct : Mem) (total uid node : Nat) : Prop :=
  node + 4 ≤ total ∧ node + nodeLength rhct node ≤ total ∧
    (load rhct node 2 = typeHartInfo → node + 12 ≤ total ∧
      (load rhct (node + 8) 4 = uid → node + 12 + 4 * load rhct (node + 6) 2 ≤ total ∧
        ∀ index2 < load rhct (node + 6) 2,
          NamedFits rhct total (load rhct (node + 12 + 4 * index2) 4)))

/-- The records of the MADT fill it from its header to its end, with at least one of them,
and for every usable hart the nodes of the RHCT are where they should be. -/
def HartTablesFit (madt rhct : Mem) : Prop :=
  ∃ l, Tiles (madtRecordLength madt) (tableLength madt) madtHeaderSize l ∧
    ∀ entry ∈ l, MadtRecordFits madt (tableLength madt) entry ∧
      (UsableRintc madt entry → ∀ k < rhctNodeNumber rhct,
        NodeFits rhct (tableLength rhct) (load madt (entry + 16) 4) (nodeAt rhct k))

theorem madtSpans_inside_iff {entry : Nat} :
    (∀ s ∈ madtSpans madt entry, Inside total s) ↔
      entry + madtRecordLength madt entry ≤ total ∧ MadtRecordFits madt total entry := by
  by_cases htype : load madt entry 1 = typeRintc
  · by_cases huse : Usable (load madt (entry + 4) 4)
    · simp [madtSpans, MadtRecordFits, UsableRintc, Inside, htype, huse, rintcSize]
      omega
    · simp [madtSpans, MadtRecordFits, UsableRintc, Inside, htype, huse]
      omega
  · simp [madtSpans, MadtRecordFits, UsableRintc, Inside, htype]
    omega

theorem namedSpans_inside_iff :
    (∀ s ∈ namedSpans rhct node, Inside total s) ↔ NamedFits rhct total node := by
  by_cases htype : load rhct node 2 = typeIsaString
  · simp [namedSpans, NamedFits, Inside, add_assoc]
  · simp [namedSpans, NamedFits, Inside, htype]

theorem nodeSpans_inside_iff :
    (∀ s ∈ nodeSpans rhct uid node, Inside total s) ↔ NodeFits rhct total uid node := by
  by_cases htype : load rhct node 2 = typeHartInfo
  · by_cases huid : load rhct (node + 8) 4 = uid
    · have hnamed : (∀ s ∈ (range (load rhct (node + 6) 2)).flatMap fun index2 =>
          namedSpans rhct (load rhct (node + 12 + 4 * index2) 4), Inside total s) ↔
          ∀ index2 < load rhct (node + 6) 2,
            NamedFits rhct total (load rhct (node + 12 + 4 * index2) 4) := by
        simp only [← namedSpans_inside_iff, mem_flatMap, mem_range]
        constructor
        · intro h index2 hi s hs
          exact h s ⟨index2, hi, hs⟩
        · rintro h s ⟨index2, hi, hs⟩
          exact h index2 hi s hs
      simp only [nodeSpans, if_pos htype, if_pos huid, forall_mem_append,
        forall_mem_cons, hnamed]
      simp [NodeFits, Inside, htype, huid, add_assoc, and_assoc]
    · simp [nodeSpans, NodeFits, Inside, huid]
  · simp [nodeSpans, NodeFits, Inside, htype]

/-- The loop over the nodes reads the nodes `nodeAt` counts. -/
theorem rhctSpans_inside_iff (left node : Nat) :
    (∀ s ∈ rhctSpans rhct uid left node, Inside total s) ↔
      ∀ k < left, NodeFits rhct total uid ((fun node => node + nodeLength rhct node)^[k] node) := by
  induction left generalizing node with
  | zero => simp [rhctSpans]
  | succ left ih =>
    rw [rhctSpans, forall_mem_append, nodeSpans_inside_iff, ih, Nat.forall_lt_succ_left]
    rfl

theorem hartWalkOk_iff (madt rhct tbl : Mem) :
    HartWalkOk madt rhct tbl ↔ HartTablesFit madt rhct := by
  have htotal := load_lt madt 4 4
  have hreturns : (∃ fuel tbl', createHarts madt rhct fuel madtHeaderSize madtHeaderSize
      (Hart.entryBase 0) tbl = some tbl') ↔
      ∃ fuel, ends (madtRecordLength madt) (tableLength madt) fuel
        (madtHeaderSize, madtHeaderSize) = true := by
    simp [createHarts_eq_visits]
  have hwalk := walk_ok_iff (madtRecordLength madt)
    (fun entry => (∀ s ∈ madtSpans madt entry, Inside (tableLength madt) s) ∧
      (UsableRintc madt entry → ∀ s ∈ rhctSpans rhct (load madt (entry + 16) 4)
        (rhctNodeNumber rhct) (rhctNodeOffset rhct), Inside (tableLength rhct) s))
    htotal (fun entry h => (madtSpans_inside_iff.mp h.1).1) madtHeaderSize
  constructor
  · intro h
    obtain ⟨l, htiles, hl⟩ := hwalk.mp ⟨hreturns.mp h.returns,
      fun fuel r hr => ⟨h.madt_inside fuel r hr, h.rhct_inside fuel r hr⟩⟩
    refine ⟨l, htiles, fun entry hentry => ⟨(madtSpans_inside_iff.mp (hl entry hentry).1).2, ?_⟩⟩
    intro huse
    exact (rhctSpans_inside_iff _ _).mp ((hl entry hentry).2 huse)
  · rintro ⟨l, htiles, hl⟩
    obtain ⟨hends, hin⟩ := hwalk.mpr ⟨l, htiles, fun entry hentry =>
      ⟨madtSpans_inside_iff.mpr ⟨htiles.inside entry hentry, (hl entry hentry).1⟩,
        fun huse => (rhctSpans_inside_iff _ _).mpr ((hl entry hentry).2 huse)⟩⟩
    exact ⟨hreturns.mpr hends, fun fuel r hr => (hin fuel r hr).1,
      fun fuel r hr => (hin fuel r hr).2⟩

end

/-! ## RIMT -/

section

open Iommu

variable {rimt : Mem}

def rimtRecordLength (rimt : Mem) (entry : Nat) : Nat := load rimt (entry + 2) 2

/-- The body of the loop: the pointer into the info table and the table. -/
def iommuRound (rimt : Mem) (s : Nat × Mem) (r : Nat × Nat) : Option (Nat × Mem) :=
  (createEntry rimt r.1 r.2 s.1 s.2).map fun tbl =>
    (s.1 + Iommu.entrySize, store tbl 0 4 (load tbl 0 4 + 1))

def rimtVisits (rimt : Mem) (fuel : Nat) : List (Nat × Nat) :=
  visits (rimtRecordLength rimt) (rimtLength rimt) fuel
    (rimtDeviceOffset rimt, rimtDeviceOffset rimt)

theorem createEntries_eq_visits (rimt : Mem) (total fuel entry length ptr : Nat) (tbl : Mem) :
    createEntries fuel rimt total entry length ptr tbl =
      if ends (rimtRecordLength rimt) total fuel (entry, length) then
        ((visits (rimtRecordLength rimt) total fuel (entry, length)).foldlM
          (iommuRound rimt) (ptr, tbl)).map Prod.snd
      else none := by
  induction fuel generalizing entry length ptr tbl with
  | zero => rfl
  | succ fuel ih =>
    rw [createEntries, ends, visits, foldlM_cons]
    cases hentry : createEntry rimt entry length ptr tbl with
    | none => simp [iommuRound, hentry]
    | some tbl' =>
      have hround : iommuRound rimt (ptr, tbl) (entry, length) =
          some (ptr + Iommu.entrySize, store tbl' 0 4 (load tbl' 0 4 + 1)) := by
        simp [iommuRound, hentry]
      rw [hround]
      by_cases hmore : (strideNext (rimtRecordLength rimt) (entry, length)).2 < total
      · rw [if_pos hmore, if_pos hmore]
        exact (if_pos hmore).trans (ih _ _ _ _)
      · rw [if_neg hmore, if_neg hmore]
        exact if_neg hmore

theorem copyIdMappings_isSome (img : Mem) (entry idMapEntry ptr nodeLength : Nat) (tbl : Mem) :
    (copyIdMappings (load img (entry + 2) 2 + 1) img entry idMapEntry ptr
      (ptr + offIdMappingTable) nodeLength tbl).isSome := by
  have hlen : load img (entry + 2) 2 = load img (entry + 2) 2 := rfl
  obtain ⟨tbl', h, -⟩ := copyIdMappings_eq hlen idMapEntry ptr (load img (entry + 2) 2 + 1)
    nodeLength (ptr + offIdMappingTable) tbl (by unfold strides; omega) le_rfl
  rw [h]
  rfl

theorem createEntry_isSome (img : Mem) (entry length ptr : Nat) (tbl : Mem) :
    (createEntry img entry length ptr tbl).isSome := by
  rw [createEntry]
  split_ifs
  · rfl
  · exact copyIdMappings_isSome _ _ _ _ _ _
  · exact copyIdMappings_isSome _ _ _ _ _ _
  · rfl

/-- Every round returns, so the builder returns when the walk ends. -/
theorem createEntries_isSome_iff (rimt : Mem) (total fuel entry length ptr : Nat) (tbl : Mem) :
    (createEntries fuel rimt total entry length ptr tbl).isSome ↔
      ends (rimtRecordLength rimt) total fuel (entry, length) = true := by
  have hfold (l : List (Nat × Nat)) (s : Nat × Mem) : (l.foldlM (iommuRound rimt) s).isSome := by
    induction l generalizing s with
    | nil => rfl
    | cons r l ih =>
      obtain ⟨tbl', hentry⟩ := Option.isSome_iff_exists.mp
        (createEntry_isSome rimt r.1 r.2 s.1 s.2)
      rw [foldlM_cons, iommuRound, hentry]
      exact ih _
  rw [createEntries_eq_visits]
  by_cases hends : ends (rimtRecordLength rimt) total fuel (entry, length) = true
  · simp [hends, hfold]
  · simp [hends]

/-- What the builder reads of a structure of the RIMT, and what the structure claims.  Of the
ID mappings it reads the first, whether there is one or not. -/
def rimtSpans (rimt : Mem) (entry : Nat) : List Span :=
  [(entry, 8), (entry, rimtRecordLength rimt entry)] ++
    if load rimt entry 1 = typeIommu then [(entry, 36)]
    else if load rimt entry 1 = typePcieRootComplex then
      [(entry, 18), (entry + load rimt (entry + 16) 2, rimtIdMappingSize)]
    else if load rimt entry 1 = typePlatformDevice then
      [(entry, 10), (entry + load rimt (entry + 8) 2, rimtIdMappingSize)]
    else []

structure IommuWalkOk (rimt tbl : Mem) : Prop where
  returns : ∃ fuel tbl', createEntries fuel rimt (rimtLength rimt) (rimtDeviceOffset rimt)
    (rimtDeviceOffset rimt) (Iommu.entryBase 0) tbl = some tbl'
  inside : ∀ fuel, ∀ r ∈ rimtVisits rimt fuel, ∀ s ∈ rimtSpans rimt r.1,
    Inside (rimtLength rimt) s

/-- The fields the builder uses of the structure at `entry` end before `total`, and so does
the mapping its offset leads to. -/
def RimtRecordFits (rimt : Mem) (total entry : Nat) : Prop :=
  if load rimt entry 1 = typeIommu then entry + 36 ≤ total
  else if load rimt entry 1 = typePcieRootComplex then
    entry + 18 ≤ total ∧ entry + load rimt (entry + 16) 2 + rimtIdMappingSize ≤ total
  else if load rimt entry 1 = typePlatformDevice then
    entry + 10 ≤ total ∧ entry + load rimt (entry + 8) 2 + rimtIdMappingSize ≤ total
  else entry + 8 ≤ total

/-- The structures fill the RIMT from the offset in its header to its end, with at least one
of them. -/
def RimtFits (rimt : Mem) : Prop :=
  ∃ l, Tiles (rimtRecordLength rimt) (rimtLength rimt) (rimtDeviceOffset rimt) l ∧
    ∀ entry ∈ l, RimtRecordFits rimt (rimtLength rimt) entry

theorem rimtSpans_inside_iff {total entry : Nat} :
    (∀ s ∈ rimtSpans rimt entry, Inside total s) ↔
      entry + rimtRecordLength rimt entry ≤ total ∧ RimtRecordFits rimt total entry := by
  rw [rimtSpans, RimtRecordFits]
  split_ifs
  all_goals
    simp [Inside]
    omega

theorem iommuWalkOk_iff (rimt tbl : Mem) : IommuWalkOk rimt tbl ↔ RimtFits rimt := by
  have hreturns : (∃ fuel tbl', createEntries fuel rimt (rimtLength rimt) (rimtDeviceOffset rimt)
      (rimtDeviceOffset rimt) (Iommu.entryBase 0) tbl = some tbl') ↔
      ∃ fuel, ends (rimtRecordLength rimt) (rimtLength rimt) fuel
        (rimtDeviceOffset rimt, rimtDeviceOffset rimt) = true := by
    simp [← createEntries_isSome_iff rimt _ _ _ _ (Iommu.entryBase 0) tbl, Option.isSome_iff_exists]
  have hwalk := walk_ok_iff (rimtRecordLength rimt)
    (fun entry => ∀ s ∈ rimtSpans rimt entry, Inside (rimtLength rimt) s)
    (load_lt rimt 4 4) (fun entry h => (rimtSpans_inside_iff.mp h).1) (rimtDeviceOffset rimt)
  constructor
  · intro h
    obtain ⟨l, htiles, hl⟩ := hwalk.mp ⟨hreturns.mp h.returns, h.inside⟩
    exact ⟨l, htiles, fun entry hentry => (rimtSpans_inside_iff.mp (hl entry hentry)).2⟩
  · rintro ⟨l, htiles, hl⟩
    obtain ⟨hends, hin⟩ := hwalk.mpr ⟨l, htiles, fun entry hentry =>
      rimtSpans_inside_iff.mpr ⟨htiles.inside entry hentry, hl entry hentry⟩⟩
    exact ⟨hreturns.mpr hends, hin⟩

end

/-! ## Both builders -/

/-- For any bytes in the tables, both builders return and stay inside the tables exactly when
the records fill the tables. -/
theorem tableWalks_ok_iff (madt rhct rimt hartTable iommuTable : Mem) :
    (HartWalkOk madt rhct hartTable ∧ IommuWalkOk rimt iommuTable) ↔
      HartTablesFit madt rhct ∧ RimtFits rimt := by
  rw [hartWalkOk_iff, iommuWalkOk_iff]

def emptyRecordMadt : Mem := store (fun _ => 0) 4 4 60

def headerMadt : Mem := store (fun _ => 0) 4 4 44

/-- The first builder never returns on the one table, and it reads a record behind the other. -/
theorem tableWalks_not_ok :
    (∀ fuel, Hart.createHarts emptyRecordMadt (fun _ => 0) fuel Hart.madtHeaderSize
        Hart.madtHeaderSize (Hart.entryBase 0) (fun _ => 0) = none) ∧
      ¬HartWalkOk emptyRecordMadt (fun _ => 0) (fun _ => 0) ∧
      ¬HartWalkOk headerMadt (fun _ => 0) (fun _ => 0) := by
  have hnone (fuel : Nat) : Hart.createHarts emptyRecordMadt (fun _ => 0) fuel
      Hart.madtHeaderSize Hart.madtHeaderSize (Hart.entryBase 0) (fun _ => 0) = none := by
    rw [createHarts_eq_visits, if_neg]
    rw [not_ends_of_len_zero (by decide) (by decide) (by decide)]
    exact Bool.false_ne_true
  refine ⟨hnone, ?_, ?_⟩
  · intro h
    obtain ⟨fuel, tbl', hsome⟩ := h.returns
    rw [hnone] at hsome
    cases hsome
  · intro h
    have hread := h.madt_inside 1 (44, 44) (by decide) (44, 2) (by decide)
    exact absurd hread (by unfold Inside; decide)

end ServerSoc.Acpi
