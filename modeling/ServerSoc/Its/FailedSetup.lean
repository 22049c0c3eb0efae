/-
A failed setup of the ITS blocks.

The setup can fail with the block freed, and a later request reads it; or with no block, and then
`val_gic_free_msi` works with what it finds at address 0; and it can end with status 0 and nothing
set up, when there was no memory for the write indices.
-/
import ServerSoc.Its.Msi
import ServerSoc.Its.QueueBounds

namespace ServerSoc.Its

open Pcie List Nat Function Option

/-! ## Specification -/

structure MsiCall where
  request : Bool
  args : MsiArgs

section

variable (w : World) (fuel : Nat)

def MsiCall.run (c : MsiCall) (s : MsiState) : Option (List Nat × MsiState) :=
  if c.request then (valGicRequestMsi w fuel c.args s).map (fun r => ([r.1], r.2))
  else (valGicFreeMsi w fuel c.args s).map fun s => ([], s)

def runMsi : List MsiCall → MsiState → Option (List Nat × MsiState)
  | [], s => some ([], s)
  | c :: rest, s => do
    let r ← c.run w fuel s
    let r' ← runMsi rest r.2
    some (r.1 ++ r'.1, r'.2)

structure Unused (s : MsiState) : Prop where
  returns : ∀ fuel (c : MsiCall), c.request = true → ∃ r, c.run w fuel s = some r
  effects : ∀ fuel calls statuses s', runMsi w fuel calls s = some (statuses, s') →
    (∀ status ∈ statuses, status = acsStatusErr) ∧ InfoPointer.freed ∉ s'.reads ∧
      s'.tableWrites = []

structure Ready (s : MsiState) : Prop where
  pointer : s.pointer = .allocated
  setUp : SetUp (platform w s.info) s.its
  tables : ∀ i < s.info.gicNumIts, ∀ it < armNumGitsBaser, NeedsTable w (s.info.base i) it →
    w.tableAddress i it ≠ 0
  itt : ∀ i < s.info.gicNumIts, w.ittAddress i ≠ 0
  redistributor : w.configAddress ≠ 0 ∧ w.pendingAddress ≠ 0

structure Boot (s : MsiState) : Prop where
  pointer : s.pointer = .null
  setup : s.its.setupDone = false
  reads : s.reads = []
  tableWrites : s.tableWrites = []

def itsEntries : List GicEntry := w.entries.filter (fun e => e.type = .gicits)

def gicdBase : Nat := ((w.entries.filter (fun e => e.type = .gicd)).map GicEntry.base).getLastD 0

def redistributorOf (e : GicEntry) : Option Nat :=
  match e.type with
  | .gicrGicrd => some (valItsGetCurrRdbase w e.base (e.length % 2 ^ 32))
  | .giccGicrd => some (valItsGetCurrRdbase w e.base 0)
  | _ => none

def rdBase : Nat := ((w.entries.filterMap (redistributorOf w)).find? (fun base => base ≠ 0)).getD 0

structure ItsComplete (i : Nat) (e : GicEntry) : Prop where
  idbits : armLpiMinIdbits ≤ getMin (armGicdTyperIdbits (w.mmioRead (gicdBase w + armGicdTyper)))
    (armGitsTyperIdbits (w.mmioRead64 (e.base + armGitsTyperOffset)))
  queue : w.commandQAddress i ≠ 0
  tables : ∀ it < armNumGitsBaser, NeedsTable w e.base it → w.tableAddress i it ≠ 0
  itt : w.ittAddress i ≠ 0

structure Complete : Prop where
  present : itsEntries w ≠ []
  bases : rdBase w ≠ 0 ∧ gicdBase w ≠ 0
  lpis : valItsGicdLpiSupport w (gicdBase w) ≠ 0 ∧ valItsGicrLpiSupport w (rdBase w) ≠ 0
  memory : w.cwriterPtrAddress ≠ 0 ∧ w.configAddress ≠ 0 ∧ w.pendingAddress ≠ 0
  its : ∀ i e, (itsEntries w)[i]? = some e → ItsComplete w i e

/-- What is at address 0 shows no ITS, or no base, or there is no MSI-X table to write. -/
def Harmless (regs : CfgMem) : Prop :=
  w.atNull.gicNumIts = 0 ∨ w.atNull.gicRdBase = 0 ∨ w.atNull.gicDBase = 0 ∨
    ∀ fuel bdf offset, findMsix w fuel bdf regs ≠ some (pcieSuccess, offset)

end

/-! ## What the loop over the table collects -/

variable {w : World}

section

variable (info : ItsInfo) (e : GicEntry)
include info e

theorem collectEntry_gicDBase :
    (collectEntry w info e).gicDBase = if e.type = .gicd then e.base else info.gicDBase := by
  rw [collectEntry]
  cases e.type with
  | gicrGicrd | giccGicrd =>
    dsimp only
    split <;> rfl
  | _ => rfl

theorem collectEntry_gicRdBase :
    (collectEntry w info e).gicRdBase =
      if info.gicRdBase = 0 then (redistributorOf w e).getD 0 else info.gicRdBase := by
  rw [collectEntry, redistributorOf]
  cases e.type with
  | gicrGicrd | giccGicrd =>
    dsimp only
    split <;> rfl
  | _ => simp

theorem collectEntry_its :
    (collectEntry w info e).gicNumIts = info.gicNumIts + (if e.type = .gicits then 1 else 0) ∧
      (collectEntry w info e).base =
        if e.type = .gicits then update info.base info.gicNumIts e.base else info.base := by
  rw [collectEntry]
  cases e.type with
  | gicrGicrd | giccGicrd =>
    dsimp only
    split <;> exact ⟨rfl, rfl⟩
  | _ => exact ⟨rfl, rfl⟩

end

section

variable (l : List GicEntry) (info : ItsInfo)
include l info

theorem foldl_gicDBase :
    (l.foldl (collectEntry w) info).gicDBase =
      ((l.filter (fun e => e.type = .gicd)).map GicEntry.base).getLastD info.gicDBase := by
  induction l generalizing info with
  | nil => rfl
  | cons e rest ih =>
    rw [foldl_cons, ih, collectEntry_gicDBase]
    split_ifs with he
    · rw [filter_cons_of_pos (by simpa using he), map_cons, getLastD_cons]
    · rw [filter_cons_of_neg (by simpa using he)]

theorem foldl_gicRdBase :
    (l.foldl (collectEntry w) info).gicRdBase =
      if info.gicRdBase = 0 then
        ((l.filterMap (redistributorOf w)).find? (fun base => base ≠ 0)).getD 0
      else info.gicRdBase := by
  induction l generalizing info with
  | nil =>
    by_cases h0 : info.gicRdBase = 0 <;> simp
  | cons e rest ih =>
    rw [foldl_cons, ih, collectEntry_gicRdBase]
    by_cases h0 : info.gicRdBase = 0
    · cases he : redistributorOf w e with
      | none => simp [h0, he]
      | some base =>
        by_cases hb : base = 0 <;> simp [h0, he, hb]
    · simp [h0]

theorem foldl_its :
    (l.foldl (collectEntry w) info).gicNumIts =
        info.gicNumIts + (l.filter (fun e => e.type = .gicits)).length ∧
      (∀ i < info.gicNumIts, (l.foldl (collectEntry w) info).base i = info.base i) ∧
      ∀ i e, (l.filter (fun e => e.type = .gicits))[i]? = some e →
        (l.foldl (collectEntry w) info).base (info.gicNumIts + i) = e.base := by
  induction l generalizing info with
  | nil => exact ⟨rfl, fun _ _ => rfl, nofun⟩
  | cons e rest ih =>
    obtain ⟨hn, hold, hnew⟩ := ih (collectEntry w info e)
    obtain ⟨hcount, hbase⟩ := collectEntry_its info e
    rw [foldl_cons]
    split_ifs at hcount hbase with he
    · rw [hcount] at hn hold hnew
      rw [hbase] at hold
      simp only [filter_cons, he, decide_true, if_true, length_cons]
      refine ⟨by omega, fun i hi => ?_, fun i e' he' => ?_⟩
      · rw [hold i (lt_succ_of_lt hi), update_of_ne (Nat.ne_of_lt hi)]
      · cases i with
        | zero =>
          obtain rfl : e = e' := some.inj he'
          rw [add_zero, hold _ (lt_succ_self _), update_self]
        | succ i =>
          rw [show info.gicNumIts + (i + 1) = info.gicNumIts + 1 + i by omega]
          exact hnew i e' he'
    · rw [hcount] at hn hold hnew
      rw [hbase] at hold
      simp only [filter_cons, he]
      exact ⟨hn, hold, hnew⟩

end

theorem collect_gicDBase (w : World) : (collect w).gicDBase = gicdBase w := foldl_gicDBase _ _

theorem collect_gicRdBase (w : World) : (collect w).gicRdBase = rdBase w :=
  (foldl_gicRdBase _ _).trans (if_pos rfl)

theorem collect_gicNumIts (w : World) : (collect w).gicNumIts = (itsEntries w).length :=
  (foldl_its _ _).1.trans (zero_add _)

theorem collect_base {i : Nat} {e : GicEntry} (h : (itsEntries w)[i]? = some e) :
    (collect w).base i = e.base := by
  obtain ⟨-, -, hbase⟩ := foldl_its w.entries
    { w.uninit with gicNumIts := 0, gicRdBase := 0, gicDBase := 0 }
  have hi := hbase i e h
  rwa [zero_add] at hi

/-! ## The status of the setup -/

section

variable {p : Platform} {s0 : State}

theorem forEachIts_status {f : Nat → State → Nat × State} {g : Nat → Prop}
    (hf : ∀ i s, (f i s).1 = 0 ↔ g i) (l : List Nat) (s : State) :
    (forEachIts f l s).1 = 0 ↔ ∀ i ∈ l, g i := by
  induction l generalizing s with
  | nil => simp [forEachIts]
  | cons i rest ih =>
    rw [forEachIts, forall_mem_cons, ← hf i s, ← ih (f i s).2]
    by_cases h : (f i s).1 = 0 <;> simp [h]

theorem setInitialConfiguration_status (i : Nat) (s : State) :
    (setInitialConfiguration p i s).1 = 0 ↔ armLpiMinIdbits ≤ commonIdbits p i := by
  rw [setInitialConfiguration, commonIdbits]
  split_ifs with hlt
  · simp [hlt]
  · simp [Nat.le_of_not_lt hlt]

theorem setQueueAndTables_status (i : Nat) (s : State) :
    (setQueueAndTables p i s).1 = 0 ↔ p.commandQAddress i ≠ 0 ∧ (p.itsTables i).isSome := by
  rw [setQueueAndTables, armGicSetItsCommandQueueBase]
  by_cases haddr : p.commandQAddress i = 0
  · simp [haddr]
  · rw [armGicSetItsTables]
    cases htable : p.itsTables i with
    | none => simp [haddr]
    | some address => simp [haddr]

theorem valItsInit_status (hptr : p.cwriterPtrAddress ≠ 0) :
    (valItsInit p s0).1 = 0 ↔ p.redistributorStatus = 0 ∧ ∀ i < p.gicNumIts,
      armLpiMinIdbits ≤ commonIdbits p i ∧ p.commandQAddress i ≠ 0 ∧ (p.itsTables i).isSome := by
  have hconf := forEachIts_status (setInitialConfiguration_status (p := p)) (range p.gicNumIts)
  have hset := forEachIts_status (setQueueAndTables_status (p := p)) (range p.gicNumIts)
  simp only [mem_range] at hconf hset
  rw [valItsInit, if_neg hptr]
  generalize ({ s0 with
    cwriterPtr :=
      fun index => if index < p.gicNumIts then 0 else s0.cwriterPtr index } : State) = s1
  by_cases h1 : (forEachIts (setInitialConfiguration p) (range p.gicNumIts) s1).1 = 0
  · rw [if_neg (not_not.mpr h1)]
    have hid := (hconf s1).mp h1
    by_cases h2 : p.redistributorStatus = 0
    · rw [if_neg (not_not.mpr h2)]
      generalize (forEachIts (setInitialConfiguration p) (range p.gicNumIts) s1).2 = s2
      have hstatus : (if (forEachIts (setQueueAndTables p) (range p.gicNumIts) s2).1 ≠ 0 then
          forEachIts (setQueueAndTables p) (range p.gicNumIts) s2
          else (0, { (forEachIts (setQueueAndTables p) (range p.gicNumIts) s2).2 with
            setupDone := true })).1 =
          (forEachIts (setQueueAndTables p) (range p.gicNumIts) s2).1 := by
        split_ifs with h
        · rfl
        · exact (not_not.mp h).symm
      rw [hstatus, hset s2]
      exact ⟨fun h => ⟨h2, fun i hi => ⟨hid i hi, h i hi⟩⟩, fun h i hi => (h.2 i hi).2⟩
    · rw [if_pos h2]
      exact iff_of_false h2 fun h => h2 h.1
  · rw [if_pos h1]
    exact iff_of_false h1 fun h => h1 ((hconf s1).mpr (fun i hi => (h.2 i hi).1))

theorem setItsTables_isSome (w : World) (i base : Nat) (l : List Nat) :
    (setItsTables w i base l).isSome ↔
      (∀ it ∈ l, NeedsTable w base it → w.tableAddress i it ≠ 0) ∧ w.ittAddress i ≠ 0 := by
  induction l with
  | nil =>
    rw [setItsTables]
    by_cases h : w.ittAddress i = 0 <;> simp
  | cons it rest ih =>
    rw [setItsTables, forall_mem_cons]
    by_cases h : NeedsTable w base it ∧ w.tableAddress i it = 0
    · simp [h]
    · rw [if_neg h, ih, and_assoc, iff_and_self]
      intro _ hneeds haddr
      exact h ⟨hneeds, haddr⟩

theorem redistributorStatus_eq_zero_iff :
    armGicRedistributorConfigurationForLPI w = 0 ↔ w.configAddress ≠ 0 ∧ w.pendingAddress ≠ 0 := by
  rw [armGicRedistributorConfigurationForLPI]
  by_cases hc : w.configAddress = 0
  · simp [hc]
  · by_cases hp : w.pendingAddress = 0 <;> simp [hp]

abbrev World.collected (w : World) : Platform := platform w (collect w)

theorem itsComplete_iff {i : Nat} {e : GicEntry} (h : (itsEntries w)[i]? = some e) :
    ItsComplete w i e ↔ armLpiMinIdbits ≤ commonIdbits w.collected i ∧
      w.collected.commandQAddress i ≠ 0 ∧
      (w.collected.itsTables i).isSome := by
  have hid : commonIdbits w.collected i =
      getMin (armGicdTyperIdbits (w.mmioRead (gicdBase w + armGicdTyper)))
        (armGitsTyperIdbits (w.mmioRead64 (e.base + armGitsTyperOffset))) := by
    rw [← collect_base h, ← collect_gicDBase]
    rfl
  have htables : w.collected.itsTables i =
      setItsTables w i e.base (range armNumGitsBaser) := by
    rw [← collect_base h]
    rfl
  rw [hid, htables, setItsTables_isSome]
  simp only [mem_range]
  exact ⟨fun hc => ⟨hc.idbits, hc.queue, hc.tables, hc.itt⟩,
    fun hc => ⟨hc.1, hc.2.1, hc.2.2.1, hc.2.2.2⟩⟩

theorem forall_itsComplete_iff :
    (∀ i e, (itsEntries w)[i]? = some e → ItsComplete w i e) ↔
      ∀ i < w.collected.gicNumIts, armLpiMinIdbits ≤
        commonIdbits w.collected i ∧ w.collected.commandQAddress i ≠ 0 ∧
        (w.collected.itsTables i).isSome := by
  have hnum : w.collected.gicNumIts = (itsEntries w).length := collect_gicNumIts w
  rw [hnum]
  constructor
  · intro h i hi
    have he := getElem?_eq_getElem hi
    exact (itsComplete_iff he).mp (h i _ he)
  · intro h i e he
    exact (itsComplete_iff he).mpr (h i (List.getElem?_eq_some_iff.mp he).1)

inductive Outcome (w : World) (s : MsiState) : Nat × MsiState → Prop where
  | skip : w.targetIsDt = true → Outcome w s (acsStatusSkip, s)
  | noBlock : w.targetIsDt = false → w.infoAddress = 0 →
    Outcome w s (acsStatusErr, { s with pointer := .null })
  | fail (s' : MsiState) : w.targetIsDt = false → w.infoAddress ≠ 0 → ¬ Complete w →
    s'.pointer = .freed → Outcome w s (acsStatusErr, s')
  | noIndices : w.targetIsDt = false → w.infoAddress ≠ 0 → w.cwriterPtrAddress = 0 →
    Outcome w s (0, { s with pointer := .allocated, info := collect w })
  | ready (s' : MsiState) : w.targetIsDt = false → w.infoAddress ≠ 0 → Complete w → Ready w s' →
    Outcome w s (0, s')

theorem valGicItsConfigure_outcome (w : World) (s : MsiState) :
    Outcome w s (valGicItsConfigure w s) := by
  rw [valGicItsConfigure]
  by_cases hdt : w.targetIsDt = true
  · rw [if_pos hdt]
    exact .skip hdt
  rw [if_neg hdt]
  have hdt := Bool.eq_false_iff.mpr hdt
  by_cases hblock : w.infoAddress = 0
  · rw [if_pos hblock]
    exact .noBlock hdt hblock
  rw [if_neg hblock]
  dsimp only
  rw [collect_gicNumIts, collect_gicDBase, collect_gicRdBase]
  by_cases hnum : (itsEntries w).length = 0
  · rw [if_pos hnum]
    exact .fail _ hdt hblock (fun h => h.present (eq_nil_of_length_eq_zero hnum)) rfl
  rw [if_neg hnum]
  by_cases hbases : rdBase w = 0 ∨ gicdBase w = 0
  · rw [if_pos hbases]
    exact .fail _ hdt hblock (fun h => hbases.elim h.bases.1 h.bases.2) rfl
  rw [if_neg hbases]
  by_cases hlpi : valItsGicdLpiSupport w (gicdBase w) ≠ 0 ∧ valItsGicrLpiSupport w (rdBase w) ≠ 0
  · rw [if_pos hlpi]
    by_cases hptr : w.cwriterPtrAddress = 0
    · rw [valItsInit, if_pos (show w.collected.cwriterPtrAddress = 0 from hptr)]
      exact .noIndices hdt hblock hptr
    · have hstatus : (valItsInit w.collected s.its).1 = 0 ↔ _ := valItsInit_status hptr
      rw [show w.collected.redistributorStatus =
        armGicRedistributorConfigurationForLPI w from rfl, redistributorStatus_eq_zero_iff,
        ← forall_itsComplete_iff] at hstatus
      by_cases hinit : (valItsInit w.collected s.its).1 = 0
      · rw [if_neg (not_not.mpr hinit)]
        obtain ⟨hred, hits⟩ := hstatus.mp hinit
        rw [not_or] at hbases
        refine .ready _ hdt hblock ⟨fun h => hnum (by rw [h]; rfl), hbases, hlpi, ⟨hptr, hred⟩,
          hits⟩ ?_
        have hentry : ∀ i < (collect w).gicNumIts, ∃ e, (itsEntries w)[i]? = some e ∧
            (collect w).base i = e.base := by
          intro i hi
          rw [collect_gicNumIts] at hi
          exact ⟨_, getElem?_eq_getElem hi, collect_base (getElem?_eq_getElem hi)⟩
        refine ⟨rfl, setUp_of_valItsInit hptr (Prod.ext hinit rfl), fun i hi it hit hneeds => ?_,
          fun i hi => ?_, hred⟩
        · obtain ⟨e, he, hbase⟩ := hentry i hi
          exact (hits i e he).tables it hit (hbase ▸ hneeds)
        · obtain ⟨e, he, -⟩ := hentry i hi
          exact (hits i e he).itt
      · rw [if_pos hinit]
        exact .fail _ hdt hblock (fun h => hinit (hstatus.mpr ⟨h.memory.2, h.its⟩)) rfl
  · rw [if_neg hlpi]
    exact .fail _ hdt hblock (fun h => hlpi h.lpis) rfl

end

/-! ## Later calls -/

section

variable {s : MsiState} {fuel : Nat} {regs : CfgMem} {r : Nat × MsiState} {a : MsiArgs}

theorem fillMsiXTable_reads {bdf msiIndex msiAddr msiData : Nat}
    (h : fillMsiXTable w fuel bdf msiIndex msiAddr msiData s = some r) : r.2.reads = s.reads := by
  rw [fillMsiXTable] at h
  split at h
  · cases h
  · split at h <;> cases h <;> rfl

theorem valGicRequestMsi_reads (hp : s.pointer ≠ .null) (h : valGicRequestMsi w fuel a s = some r) :
    s.pointer ∈ r.2.reads := by
  have hmem : s.pointer ∈ s.read.reads := by simp [MsiState.read]
  rw [valGicRequestMsi, if_neg hp] at h
  dsimp only at h
  split at h
  · cases h
    exact hmem
  · split at h
    · cases h
      exact hmem
    · split at h
      · cases h
        exact hmem
      · rw [fillMsiXTable_reads h]
        exact hmem

theorem not_unused_of_freed (hp : s.pointer = .freed) : ¬ Unused w s := by
  intro h
  have hne : s.pointer ≠ .null := by simp [hp]
  obtain ⟨r, hr⟩ := h.returns 0 ⟨true, ⟨0, 0, 0, 0, 0, fun _ => 0⟩⟩ rfl
  have hrun : runMsi w 0 [⟨true, ⟨0, 0, 0, 0, 0, fun _ => 0⟩⟩] s = some (r.1 ++ [], r.2) := by
    rw [runMsi, hr]
    rfl
  obtain ⟨-, hreads, -⟩ := h.effects _ _ _ _ hrun
  rw [MsiCall.run, if_pos rfl, map_eq_some_iff] at hr
  obtain ⟨r', hr', rfl⟩ := hr
  exact hreads (hp ▸ valGicRequestMsi_reads hne hr')

structure NoBlock (regs : CfgMem) (s : MsiState) : Prop where
  pointer : s.pointer = .null
  setup : s.its.setupDone = false
  regs : s.regs = regs
  reads : InfoPointer.freed ∉ s.reads
  tableWrites : s.tableWrites = []

theorem NoBlock.request (h : NoBlock regs s) (a : MsiArgs) :
    valGicRequestMsi w fuel a s = some (acsStatusErr, s) := if_pos h.pointer

theorem NoBlock.read (h : NoBlock regs s) : NoBlock regs s.read := by
  refine ⟨h.pointer, h.setup, h.regs, ?_, h.tableWrites⟩
  simp [MsiState.read, h.reads, h.pointer]

theorem valItsClearLpiMap_of_not_setup {p : Platform} {creadr : Nat → Nat} {i d e : Nat} {s : State}
    (h : s.setupDone = false) : valItsClearLpiMap p creadr i d e s = s := if_pos h

theorem NoBlock.free (h : NoBlock regs s) (hw : Harmless w regs) {s' : MsiState}
    (hrun : valGicFreeMsi w fuel a s = some s') : NoBlock regs s' := by
  have hseen : s.seen w = w.atNull := by rw [MsiState.seen, h.pointer]
  rw [valGicFreeMsi, hseen] at hrun
  split_ifs at hrun with hindex hbases
  · cases hrun
    exact h.read
  · cases hrun
    exact h.read
  · rw [valItsClearLpiMap_of_not_setup h.read.setup, clearMsiXTable] at hrun
    split at hrun
    · cases hrun
    · rename_i status offset hfind
      split_ifs at hrun with hzero
      · cases hrun
        exact h.read
      · -- the index is below the number of ITS blocks, so there is one
        obtain hnum | hrd | hd | hnone := hw
        · rw [hnum] at hindex
          exact absurd (Nat.zero_le _) hindex
        · exact absurd (.inl hrd) hbases
        · exact absurd (.inr hd) hbases
        · obtain rfl := not_not.mp hzero
          rw [show MsiState.regs _ = regs from h.read.regs] at hfind
          exact absurd hfind (hnone _ _ _)

theorem NoBlock.run (hw : Harmless w regs) {calls : List MsiCall} {r : List Nat × MsiState}
    (h : NoBlock regs s) (hrun : runMsi w fuel calls s = some r) :
    (∀ status ∈ r.1, status = acsStatusErr) ∧ NoBlock regs r.2 := by
  induction calls generalizing s r with
  | nil =>
    cases hrun
    exact ⟨nofun, h⟩
  | cons c rest ih =>
    obtain ⟨r1, hr1, hrun⟩ := bind_eq_some_iff.mp hrun
    obtain ⟨r2, hr2, hrun⟩ := bind_eq_some_iff.mp hrun
    cases hrun
    have hstep : (∀ status ∈ r1.1, status = acsStatusErr) ∧ NoBlock regs r1.2 := by
      rw [MsiCall.run] at hr1
      split at hr1
      · rw [h.request] at hr1
        cases hr1
        exact ⟨by simp, h⟩
      · obtain ⟨s', hs', rfl⟩ := map_eq_some_iff.mp hr1
        exact ⟨nofun, h.free hw hs'⟩
    obtain ⟨hrest, hfinal⟩ := ih hstep.2 hr2
    exact ⟨fun status hs => (mem_append.mp hs).elim (hstep.1 status) (hrest status), hfinal⟩

theorem getItsIndex_first {info : ItsInfo} (h : info.gicNumIts ≠ 0) :
    getItsIndex info (info.id 0) = 0 := by
  have hfind : (range info.gicNumIts).find? (fun index => info.id 0 = info.id index) = some 0 := by
    rw [find?_range_eq_some]
    exact ⟨by simp, by simpa using Nat.pos_of_ne_zero h, nofun⟩
  rw [getItsIndex, hfind]
  rfl

/-- A release writes an MSI-X table when what it finds at address 0 looks like an ITS. -/
theorem NoBlock.harmless (h : NoBlock regs s) (hunused : Unused w s) : Harmless w regs := by
  by_contra hnot
  simp only [Harmless, not_or, not_forall, not_not] at hnot
  obtain ⟨hnum, hrd, hd, fuel, bdf, offset, hfind⟩ := hnot
  have hseen : s.seen w = w.atNull := by rw [MsiState.seen, h.pointer]
  have hregs : findMsix w fuel bdf s.read.regs = some (pcieSuccess, offset) := by
    rw [h.read.regs]
    exact hfind
  let a : MsiArgs := ⟨bdf, 0, w.atNull.id 0, 0, 0, fun _ => 0⟩
  obtain ⟨s', hs', hwrites⟩ : ∃ s', valGicFreeMsi w fuel a s = some s' ∧ s'.tableWrites ≠ [] := by
    rw [valGicFreeMsi, hseen]
    rw [getItsIndex_first hnum, if_neg (by omega), if_neg (by simp [hrd, hd]), clearMsiXTable,
      hregs]
    exact ⟨_, rfl, by simp [entryWords]⟩
  have hrun : runMsi w fuel [⟨false, a⟩] s = some ([], s') := by
    rw [runMsi, MsiCall.run, hs']
    rfl
  exact hwrites (hunused.effects _ _ _ _ hrun).2.2

end

/-! ## The result -/

/-- Status 0 means that everything was set up, and after an error nothing is used, exactly
when the setup is complete, or there was no block and what is at address 0 does no harm, or
there was nothing to set up. -/
theorem failedSetup_unused_iff {w : World} {s : MsiState} (hboot : Boot s) :
    (((valGicItsConfigure w s).1 = 0 → Ready w (valGicItsConfigure w s).2) ∧
        ((valGicItsConfigure w s).1 = acsStatusErr → Unused w (valGicItsConfigure w s).2)) ↔
      w.targetIsDt = true ∨ w.infoAddress = 0 ∧ Harmless w s.regs ∨
        w.infoAddress ≠ 0 ∧ Complete w := by
  have hout := valGicItsConfigure_outcome w s
  generalize valGicItsConfigure w s = r at hout
  cases hout with
  | skip hdt =>
    refine iff_of_true ⟨fun h => ?_, fun h => ?_⟩ (.inl hdt)
    · exact absurd h (show acsStatusSkip ≠ 0 by decide)
    · exact absurd h (show acsStatusSkip ≠ acsStatusErr by decide)
  | noBlock hdt hblock =>
    have hno : NoBlock s.regs { s with pointer := .null } :=
      ⟨rfl, hboot.setup, rfl, by simp [hboot.reads], hboot.tableWrites⟩
    constructor
    · intro h
      exact .inr (.inl ⟨hblock, hno.harmless (h.2 rfl)⟩)
    · intro h
      have hw : Harmless w s.regs := by simpa [hdt, hblock] using h
      refine ⟨fun h => absurd h (show acsStatusErr ≠ 0 by decide),
        fun _ => ⟨fun fuel c hc => ?_, ?_⟩⟩
      · rw [MsiCall.run, if_pos hc]
        exact ⟨_, rfl⟩
      · intro fuel calls statuses s' hrun
        obtain ⟨hstatuses, hfinal⟩ := hno.run hw hrun
        exact ⟨hstatuses, hfinal.reads, hfinal.tableWrites⟩
  | fail s' hdt hblock hnot hfreed =>
    refine iff_of_false (fun h => not_unused_of_freed hfreed (h.2 rfl)) ?_
    simp [hdt, hblock, hnot]
  | noIndices hdt hblock hptr =>
    refine iff_of_false (fun h => ?_) ?_
    · have hdone := (h.1 rfl).setUp.done
      rw [show State.setupDone _ = false from hboot.setup] at hdone
      cases hdone
    · simp only [hdt, hblock, reduceCtorEq, false_and, false_or]
      exact fun h => h.2.memory.1 hptr
  | ready s' hdt hblock hcomplete hready =>
    exact iff_of_true ⟨fun _ => hready, fun h => absurd h (show 0 ≠ acsStatusErr by decide)⟩
      (.inr (.inr ⟨hblock, hcomplete⟩))

/-! ## A GIC with one ITS -/

def noInfo : ItsInfo := ⟨0, 0, 0, fun _ => 0, fun _ => 0⟩

def oneItsEntries : List GicEntry :=
  [⟨.gicd, 0x1000000, 0, 0⟩, ⟨.giccGicrd, 0x2000000, 0, 0⟩, ⟨.gicits, 0x3000000, 7, 0⟩]

def oneItsWorld : World where
  targetIsDt := false
  entries := oneItsEntries
  mpidr := 0
  mmioRead :=
    fun a => if a = 0x1000004 then 1 <<< 17 ||| 15 <<< 19 else if a = 0x2000008 then 1 else 0
  mmioRead64 := fun a => if a = 0x3000008 then 15 <<< 8 else 0
  infoAddress := 0x80000000
  cwriterPtrAddress := 0x80001000
  configAddress := 0x80010000
  pendingAddress := 0x80020000
  commandQAddress := fun _ => 0x80030000
  tableAddress := fun _ _ => 0
  ittAddress := fun _ => 0x80040000
  atNull := noInfo
  afterFree := noInfo
  uninit := noInfo
  pcieInfo := none
  wr := fun _ old _ => old
  stack := 0

def bootState : MsiState where
  pointer := .null
  info := noInfo
  its := resetState
  regs := fun _ => 0
  reads := []
  tableWrites := []

theorem boot_bootState : Boot bootState := ⟨rfl, rfl, rfl, rfl⟩

theorem complete_oneItsWorld : Complete oneItsWorld := by
  refine ⟨by decide, by decide, by decide, by decide, fun i e he => ?_⟩
  have hentries : itsEntries oneItsWorld = [⟨.gicits, 0x3000000, 7, 0⟩] := by decide
  have hnone : ∀ it < armNumGitsBaser, ¬ NeedsTable oneItsWorld 0x3000000 it := by decide
  rw [hentries, getElem?_singleton] at he
  split at he
  · cases he
    exact ⟨by decide, succ_ne_zero _, fun it hit hneeds => absurd hneeds (hnone it hit),
      succ_ne_zero _⟩
  · cases he

/-- With one ITS and all memory the setup is complete. -/
theorem oneItsWorld_ready : (valGicItsConfigure oneItsWorld bootState).1 = 0 ∧
    Ready oneItsWorld (valGicItsConfigure oneItsWorld bootState).2 := by
  have hstatus : (valGicItsConfigure oneItsWorld bootState).1 = 0 := by decide
  refine ⟨hstatus, ((failedSetup_unused_iff boot_bootState).mpr ?_).1 hstatus⟩
  exact .inr (.inr ⟨by decide, complete_oneItsWorld⟩)

/-- Without memory for the write indices the status is 0 and no queue is there; without an
ITS in the table the next request reads the block that was freed. -/
theorem failed_setup_used :
    ((valGicItsConfigure { oneItsWorld with cwriterPtrAddress := 0 } bootState).1 = 0 ∧
        ¬ Ready { oneItsWorld with cwriterPtrAddress := 0 }
          (valGicItsConfigure { oneItsWorld with cwriterPtrAddress := 0 } bootState).2) ∧
      (valGicItsConfigure { oneItsWorld with entries := [] } bootState).1 = acsStatusErr ∧
        ¬ Unused { oneItsWorld with entries := [] }
          (valGicItsConfigure { oneItsWorld with entries := [] } bootState).2 := by
  refine ⟨⟨by decide, fun h => ?_⟩, by decide, not_unused_of_freed (by decide)⟩
  exact absurd h.setUp.done (by decide)

end ServerSoc.Its
