/-
The memory info table (acs_memory.c, pal_uefi_acpi/src/pal_peripherals.c).

`val_get_max_memory` compares the start of an entry with the end it has so far, so an entry that
starts where the one before ended does not count.
-/
import Mathlib.Data.List.MinMax
import Mathlib.Data.Nat.ModEq

namespace ServerSoc.Val.MemoryTable

open List Nat

inductive EfiMemoryType where
  | reservedMemoryType | loaderCode | loaderData | bootServicesCode | bootServicesData
  | runtimeServicesCode | runtimeServicesData | conventionalMemory | unusableMemory
  | acpiReclaimMemory | acpiMemoryNvs | memoryMappedIo | memoryMappedIoPortSpace | palCode
  | persistentMemory | other

structure EfiMemoryDescriptor where
  type : EfiMemoryType
  physicalStart : Nat
  numberOfPages : Nat

inductive MemInfoType where
  | device | normal | reserved | notPopulated | lastEntry
  deriving DecidableEq

structure MemInfoBlock where
  type : MemInfoType
  phyAddr : Nat
  size : Nat
  flags : Nat
  deriving DecidableEq

def infoType : EfiMemoryType → MemInfoType
  | .conventionalMemory => .normal
  | .memoryMappedIo | .memoryMappedIoPortSpace | .persistentMemory => .device
  | .unusableMemory | .palCode | .other => .notPopulated
  | _ => .reserved

def memInfoTblMaxEntry : Nat := 500

/-- The entries in front of the `lastEntry`.  The flags of entry `i` are not written. -/
def palMemoryCreateInfoTable (memoryMap : List EfiMemoryDescriptor) (flags : Nat → Nat) :
    List MemInfoBlock :=
  (memoryMap.take memInfoTblMaxEntry).mapIdx fun i d =>
    ⟨infoType d.type, d.physicalStart, d.numberOfPages * 4096 % 2 ^ 64, flags i⟩

def maxStep (addr : Nat) (b : MemInfoBlock) : Nat :=
  if addr < b.phyAddr then (b.phyAddr + b.size) % 2 ^ 64 else addr

def valGetMaxMemory (blocks : List MemInfoBlock) : Nat := blocks.foldl maxStep 0

def MemInfoBlock.top (b : MemInfoBlock) : Nat := b.phyAddr + b.size

def maxTop (blocks : List MemInfoBlock) : Nat := (blocks.map MemInfoBlock.top).foldr max 0

/-- The entries that count: each starts above the end of the one that counted before it. -/
def countedFrom (addr : Nat) : List MemInfoBlock → List MemInfoBlock
  | [] => []
  | b :: rest => if addr < b.phyAddr then b :: countedFrom b.top rest else countedFrom addr rest

variable {blocks : List MemInfoBlock}

/-- The ends of the entries that count go up, and the last one is the result. -/
theorem foldl_maxStep_spec (hfit : ∀ b ∈ blocks, b.top < 2 ^ 64) (addr : Nat) :
    addr ≤ blocks.foldl maxStep addr ∧
      (∀ b ∈ countedFrom addr blocks, b ∈ blocks ∧ b.top ≤ blocks.foldl maxStep addr) ∧
      (blocks.foldl maxStep addr = addr ∨
        ∃ b ∈ countedFrom addr blocks, b.top = blocks.foldl maxStep addr) := by
  induction blocks generalizing addr with
  | nil => exact ⟨le_rfl, nofun, .inl rfl⟩
  | cons b rest ih =>
    have ih := ih fun c hc => hfit c (mem_cons_of_mem _ hc)
    have hstep : maxStep addr b = if addr < b.phyAddr then b.top else addr := by
      rw [maxStep, ← MemInfoBlock.top, mod_eq_of_lt (hfit b mem_cons_self)]
    rw [foldl_cons, hstep, countedFrom]
    split_ifs with hlt
    · obtain ⟨hle, hmem, hlast⟩ := ih b.top
      refine ⟨?_, ?_, .inr ?_⟩
      · exact (hlt.le.trans (Nat.le_add_right _ _)).trans hle
      · rintro c (_ | ⟨_, hc⟩)
        · exact ⟨mem_cons_self, hle⟩
        · exact ⟨mem_cons_of_mem _ (hmem c hc).1, (hmem c hc).2⟩
      · rcases hlast with heq | ⟨c, hc, htop⟩
        · exact ⟨b, mem_cons_self, heq.symm⟩
        · exact ⟨c, mem_cons_of_mem _ hc, htop⟩
    · obtain ⟨hle, hmem, hlast⟩ := ih addr
      exact ⟨hle, fun c hc => ⟨mem_cons_of_mem _ (hmem c hc).1, (hmem c hc).2⟩, hlast⟩

/-- The highest end is found exactly when an entry that has it counts. -/
theorem valGetMaxMemory_iff {memoryMap : List EfiMemoryDescriptor}
    (hfit : ∀ d ∈ memoryMap, d.physicalStart + d.numberOfPages * 4096 < 2 ^ 64)
    {flags : Nat → Nat} (hblocks : palMemoryCreateInfoTable memoryMap flags = blocks) :
    valGetMaxMemory blocks = maxTop blocks ↔
      maxTop blocks = 0 ∨ ∃ b ∈ countedFrom 0 blocks, b.top = maxTop blocks := by
  have hfit : ∀ b ∈ blocks, b.top < 2 ^ 64 := by
    intro b hb
    rw [← hblocks, palMemoryCreateInfoTable, mem_mapIdx] at hb
    obtain ⟨i, hi, rfl⟩ := hb
    have hd := hfit _ (mem_of_mem_take (getElem_mem hi))
    rw [Nat.mod_eq_of_lt (by omega)]
    exact hd
  obtain ⟨-, hmem, hlast⟩ := foldl_maxStep_spec hfit 0
  rw [← valGetMaxMemory] at hmem hlast
  constructor
  · intro heq
    rwa [heq] at hlast
  · intro h
    have hle : valGetMaxMemory blocks ≤ maxTop blocks := by
      rcases hlast with h0 | ⟨b, hb, htop⟩
      · omega
      · rw [← htop]
        exact le_max_of_le' 0 (mem_map_of_mem (hmem b hb).1) le_rfl
    rcases h with h0 | ⟨b, hb, htop⟩
    · omega
    · have hb' := (hmem b hb).2
      omega

def twoRegions (start : Nat) : List MemInfoBlock :=
  palMemoryCreateInfoTable [⟨.conventionalMemory, 0x1000, 1⟩, ⟨.conventionalMemory, start, 1⟩]
    fun _ => 0

theorem valGetMaxMemory_gap :
    maxTop (twoRegions 0x3000) = 0x4000 ∧
      valGetMaxMemory (twoRegions 0x3000) = maxTop (twoRegions 0x3000) :=
  ⟨by decide, (valGetMaxMemory_iff (by simp) rfl).mpr (.inr (by decide))⟩

theorem valGetMaxMemory_adjacent :
    valGetMaxMemory (twoRegions 0x2000) = 0x2000 ∧ maxTop (twoRegions 0x2000) = 0x3000 := by decide

/-! ## Instances -/

/-- The loop from entry `i` on; 0xFF is also what it returns at the end. -/
def entryIndexFrom (type : MemInfoType) : List MemInfoBlock → Nat → Nat → Nat
  | [], _, _ => 0xFF
  | b :: rest, inst, i =>
    if b.type = type then
      if inst = 0 then i else entryIndexFrom type rest (inst - 1) (i + 1)
    else entryIndexFrom type rest inst (i + 1)

/-- The address, and what is written to `*attr`. -/
def valMemoryGetAddr (blocks : List MemInfoBlock) (memType : MemInfoType) (inst : Nat) :
    Nat × Option Nat :=
  let i := match memType with
    | .device | .normal => entryIndexFrom memType blocks inst 0
    | _ => 0xFF
  if i = 0xFF then (0, none)
  else (blocks[i]?.map fun b => (b.phyAddr, some b.flags)).getD (0, none)

structure GcdDescriptor where
  nonExistent : Bool
  baseAddress : Nat

/-- The loop of `pal_memory_get_unpopulated_addr`, with `memoryInstance` regions counted. -/
def unpopulatedFrom (inst : Nat) : List GcdDescriptor → Nat → Option Nat
  | [], _ => none
  | d :: rest, memoryInstance =>
    if d.nonExistent then
      if memoryInstance = inst then
        if d.baseAddress = 0 then unpopulatedFrom inst rest memoryInstance else some d.baseAddress
      else unpopulatedFrom inst rest (memoryInstance + 1)
    else unpopulatedFrom inst rest memoryInstance

def palMemoryGetUnpopulatedAddr (memorySpaceMap : List GcdDescriptor) (inst : Nat) : Option Nat :=
  unpopulatedFrom inst memorySpaceMap 0

/-- The entry of the type with this number, and its index. -/
def entryOf (blocks : List MemInfoBlock) (type : MemInfoType) (inst : Nat) :
    Option (MemInfoBlock × Nat) :=
  (blocks.zipIdx.filter (·.1.type = type))[inst]?

def FindsEntry (blocks : List MemInfoBlock) (type : MemInfoType) (inst : Nat) : Prop :=
  valMemoryGetAddr blocks type inst =
    ((entryOf blocks type inst).map fun e => (e.1.phyAddr, some e.1.flags)).getD (0, none)

theorem entryIndexFrom_eq (type : MemInfoType) (blocks : List MemInfoBlock) (inst i : Nat) :
    entryIndexFrom type blocks inst i =
      (((blocks.zipIdx i).filter (·.1.type = type))[inst]?.map Prod.snd).getD 0xFF := by
  induction blocks generalizing inst i with
  | nil => simp [entryIndexFrom]
  | cons b rest ih =>
    rw [entryIndexFrom, zipIdx_cons]
    split_ifs with htype hinst
    · simp [htype, hinst]
    · obtain ⟨k, rfl⟩ := exists_eq_succ_of_ne_zero hinst
      rw [ih, filter_cons_of_pos (by simpa using htype)]
      rfl
    · rw [ih, filter_cons_of_neg (by simpa using htype)]

theorem findsEntry_iff (type : MemInfoType) (inst : Nat) :
    FindsEntry blocks type inst ↔ ∀ e, entryOf blocks type inst = some e →
      (type = .device ∨ type = .normal) ∧ e.2 ≠ 0xFF := by
  have hindex := entryIndexFrom_eq type blocks inst 0
  rw [← entryOf] at hindex
  rw [FindsEntry]
  cases hentry : entryOf blocks type inst with
  | none =>
    rw [hentry] at hindex
    refine iff_of_true ?_ (by simp)
    cases type <;> simp [valMemoryGetAddr, hindex]
  | some e =>
    rw [hentry] at hindex
    have hget := mem_zipIdx_iff_getElem?.mp (mem_filter.mp (mem_of_getElem? hentry)).1
    by_cases hff : e.2 = 0xFF <;> cases type <;> simp [valMemoryGetAddr, hindex, hget]

/-- The addresses of the unpopulated regions. -/
def unpopulated (memorySpaceMap : List GcdDescriptor) : List Nat :=
  (memorySpaceMap.filter (·.nonExistent)).map (·.baseAddress)

theorem unpopulatedFrom_eq {inst n : Nat} (hn : n ≤ inst) (l : List GcdDescriptor) :
    unpopulatedFrom inst l n = ((unpopulated l).drop (inst - n)).find? (· ≠ 0) := by
  induction l generalizing n with
  | nil => simp [unpopulatedFrom, unpopulated]
  | cons d rest ih =>
    rw [unpopulatedFrom, unpopulated, filter_cons]
    split_ifs with hd heq hzero
    · rw [ih hn, heq, Nat.sub_self]
      exact (find?_cons_of_neg (by simpa using hzero)).symm
    · rw [heq, Nat.sub_self]
      exact (find?_cons_of_pos (by simpa using hzero)).symm
    · rw [ih (by omega), show inst - n = inst - (n + 1) + 1 by omega]
      rfl
    · exact ih hn

def Distinguishes (m : List GcdDescriptor) : Prop :=
  ∀ k k' addr, palMemoryGetUnpopulatedAddr m k = some addr →
    palMemoryGetUnpopulatedAddr m k' = some addr → k = k'

theorem distinguishes_iff (m : List GcdDescriptor) :
    Distinguishes m ↔ (unpopulated m).Pairwise fun a b => b ≠ 0 → a ≠ 0 ∧ a ≠ b := by
  have hget : ∀ k, palMemoryGetUnpopulatedAddr m k = ((unpopulated m).drop k).find? (· ≠ 0) :=
    fun k => unpopulatedFrom_eq (zero_le k) m
  simp only [Distinguishes, hget]
  generalize unpopulated m = l
  induction l with
  | nil => simp
  | cons x xs ih =>
    rw [pairwise_cons]
    constructor
    · intro hinj
      refine ⟨fun b hb hb0 => ?_, ih.mp fun k k' addr h h' =>
        succ.inj (hinj (k + 1) (k' + 1) addr h h')⟩
      obtain ⟨z, hz⟩ := Option.isSome_iff_exists.mp
        (find?_isSome.mpr ⟨b, hb, by simpa using hb0⟩ : (xs.find? (· ≠ 0)).isSome)
      obtain ⟨j, hj, rfl⟩ := getElem_of_mem hb
      constructor
      · rintro rfl
        cases hinj 0 1 z (by simpa using hz) hz
      · rintro rfl
        cases hinj 0 (j + 1) xs[j] (find?_cons_of_pos (by simpa using hb0)) (by
          rw [drop_succ_cons, drop_eq_getElem_cons hj]
          exact find?_cons_of_pos (by simpa using hb0))
    · rintro ⟨hx, hxs⟩
      -- the first region is not the one that a later instance gives
      have hfirst : ∀ k addr, (x :: xs).find? (· ≠ 0) = some addr →
          (xs.drop k).find? (· ≠ 0) ≠ some addr := by
        intro k addr h h'
        have hne :=
          hx addr (mem_of_mem_drop (mem_of_find?_eq_some h')) (by simpa using find?_some h')
        rw [find?_cons_of_pos (by simpa using hne.1)] at h
        exact hne.2 (Option.some.inj h)
      rintro (_ | k) (_ | k') addr h h'
      · rfl
      · exact absurd h' (hfirst k' addr h)
      · exact absurd h (hfirst k addr h')
      · rw [ih.mpr hxs k k' addr h h']

/-- Device and normal entries are found, except at index 0xFF, and others never; the answer for an
unpopulated region at address 0 is that for the next one. -/
theorem memoryInstances_iff (blocks : List MemInfoBlock) (type : MemInfoType) (inst : Nat)
    (m : List GcdDescriptor) :
    (FindsEntry blocks type inst ↔ ∀ e, entryOf blocks type inst = some e →
      (type = .device ∨ type = .normal) ∧ e.2 ≠ 0xFF) ∧
    (Distinguishes m ↔ (unpopulated m).Pairwise fun a b => b ≠ 0 → a ≠ 0 ∧ a ≠ b) :=
  ⟨findsEntry_iff type inst, distinguishes_iff m⟩

/-- A reserved entry, and an unpopulated region behind one at address 0. -/
theorem memoryInstances_wrong :
    valMemoryGetAddr [⟨.reserved, 0x1000, 0x1000, 0⟩] .reserved 0 = (0, none) ∧
      entryOf [⟨.reserved, 0x1000, 0x1000, 0⟩] .reserved 0 =
        some (⟨.reserved, 0x1000, 0x1000, 0⟩, 0) ∧
      palMemoryGetUnpopulatedAddr [⟨true, 0⟩, ⟨true, 0x1000⟩] 0 = some 0x1000 ∧
      palMemoryGetUnpopulatedAddr [⟨true, 0⟩, ⟨true, 0x1000⟩] 1 = some 0x1000 := by decide

end ServerSoc.Val.MemoryTable
