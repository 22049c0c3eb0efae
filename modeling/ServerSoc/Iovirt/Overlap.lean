/-
The overlap flags (check_mapping_overlap in pal_uefi_acpi/src/pal_iovirt.c).

Every mapping is compared with those that follow it.  A range is taken to end at `output_base +
id_count - 1`, and the loop over the rest of a block always makes `num_data_map - 1` turns, so it
leaves the block from the second mapping on.  `reads` records the maps that were read.
-/
import ServerSoc.Iovirt.Table

namespace ServerSoc.Iovirt

open List

/-! ## The loops -/

structure Scan where
  mem : Words
  reads : List (Nat × Nat)

def setFlag (mem : Words) (block shift : Nat) : Words :=
  Function.update mem (flagsWord block) (flagsOf mem block ||| 1 <<< shift)

/-- `start + id_count - 1` in 32 bits. -/
def rangeEnd (m : IdMap) : Nat := (m.outputBase + m.idCount + 2 ^ 32 - 1) % 2 ^ 32

def rangesMeet (keyStart keyEnd start stop : Nat) : Bool :=
  (start ≤ keyStart && keyStart ≤ stop) || (start ≤ keyEnd && keyEnd ≤ stop) ||
    (keyStart < start && stop < keyEnd)

def overlapShift (mem : Words) (ref : Nat) : Nat :=
  if typeOf mem (refBlock ref) = NodeType.itsGroup.code then flagDevidOverlapShift
  else flagStridOverlapShift

def compareMap (keyBlock k keyStart keyEnd block i : Nat) (s : Scan) : Scan :=
  let map := mapAt s.mem block i
  let s := { s with reads := (block, i) :: s.reads }
  if map.outputRef ≠ (mapAt s.mem keyBlock k).outputRef then s
  else if rangesMeet keyStart keyEnd map.outputBase (rangeEnd map) then
    let shift := overlapShift s.mem map.outputRef
    { s with mem := setFlag (setFlag s.mem keyBlock shift) block shift }
  else s

def compareMaps (keyBlock k keyStart keyEnd block : Nat) : Nat → Nat → Scan → Scan
  | 0, _, s => s
  | nMaps + 1, i, s =>
    compareMaps keyBlock k keyStart keyEnd block nMaps (i + 1)
      (compareMap keyBlock k keyStart keyEnd block i s)

def overBlocks (keyBlock k keyStart keyEnd : Nat) : Nat → Nat → Scan → Scan
  | 0, _, s => s
  | nBlocks + 1, block, s =>
    let s' :=
      if typeOf s.mem block = NodeType.itsGroup.code then s
      else if block = keyBlock then
        compareMaps keyBlock k keyStart keyEnd block (numDataMap s.mem block - 1) (k + 1) s
      else compareMaps keyBlock k keyStart keyEnd block (numDataMap s.mem block) 0 s
    overBlocks keyBlock k keyStart keyEnd nBlocks (nextBlock s'.mem block) s'

def overKeyMaps (keyBlock nKeyBlocks : Nat) : Nat → Nat → Scan → Scan
  | 0, _, s => s
  | nKeyMaps + 1, k, s =>
    let keyMap := mapAt s.mem keyBlock k
    let s := { s with reads := (keyBlock, k) :: s.reads }
    overKeyMaps keyBlock nKeyBlocks nKeyMaps (k + 1)
      (overBlocks keyBlock k keyMap.outputBase (rangeEnd keyMap) nKeyBlocks keyBlock s)

def overKeyBlocks : Nat → Nat → Scan → Scan
  | 0, _, s => s
  | nKeyBlocks + 1, keyBlock, s =>
    let s' :=
      if typeOf s.mem keyBlock = NodeType.itsGroup.code then s
      else overKeyMaps keyBlock (nKeyBlocks + 1) (numDataMap s.mem keyBlock) 0 s
    overKeyBlocks nKeyBlocks (nextBlock s'.mem keyBlock) s'

def checkMappingOverlap (mem : Words) : Scan :=
  overKeyBlocks (mem numBlocksWord) blocksWord ⟨mem, []⟩

/-! ## The loops as a list of reads -/

inductive Read where
  | key (keyBlock k : Nat)
  | other (keyBlock k block i : Nat)
  deriving DecidableEq, Repr

def Read.run (mem : Words) (s : Scan) : Read → Scan
  | .key keyBlock k => { s with reads := (keyBlock, k) :: s.reads }
  | .other keyBlock k block i =>
    compareMap keyBlock k (mapAt mem keyBlock k).outputBase (rangeEnd (mapAt mem keyBlock k))
      block i s

def turns (mem : Words) (keyBlock k block : Nat) : Nat × Nat :=
  if typeOf mem block = NodeType.itsGroup.code then (0, 0)
  else if block = keyBlock then (k + 1, numDataMap mem block - 1)
  else (0, numDataMap mem block)

def blockReads (mem : Words) (keyBlock k block : Nat) : List Read :=
  (range' (turns mem keyBlock k block).1 (turns mem keyBlock k block).2).map
    (Read.other keyBlock k block)

def keyReads (mem : Words) (l : List Nat) (keyBlock k : Nat) : List Read :=
  .key keyBlock k :: l.flatMap (blockReads mem keyBlock k)

def tableReads (mem : Words) : List Nat → List Read
  | [] => []
  | keyBlock :: l =>
    (if typeOf mem keyBlock = NodeType.itsGroup.code then []
      else (range (numDataMap mem keyBlock)).flatMap (keyReads mem (keyBlock :: l) keyBlock)) ++
    tableReads mem l

section

variable {mem : Words} {n start keyBlock k block : Nat} {s : Scan} {l : List Nat}

theorem SameButFlags.setFlag {mem' : Words} (h : SameButFlags mem l mem')
    (hb : block ∈ l) (shift : Nat) : SameButFlags mem l (Iovirt.setFlag mem' block shift) := by
  intro a ha
  rw [Iovirt.setFlag, Function.update_of_ne (ha block hb)]
  exact h a ha

theorem SameButFlags.compareMap (h : SameButFlags mem l s.mem) (hk : keyBlock ∈ l)
    (hb : block ∈ l) (keyStart keyEnd i : Nat) :
    SameButFlags mem l (Iovirt.compareMap keyBlock k keyStart keyEnd block i s).mem := by
  simp only [Iovirt.compareMap]
  split
  · exact h
  · split
    · exact (h.setFlag hk _).setFlag hb _
    · exact h

theorem compareMaps_eq (keyStart keyEnd : Nat) (nMaps i : Nat) (s : Scan) :
    compareMaps keyBlock k keyStart keyEnd block nMaps i s =
      (range' i nMaps).foldl (fun s i => compareMap keyBlock k keyStart keyEnd block i s) s := by
  induction nMaps generalizing i s with
  | zero => rfl
  | succ nMaps ih => exact ih (i + 1) _

def Read.Inside (l : List Nat) : Read → Prop
  | .key _ _ => True
  | .other keyBlock _ block _ => keyBlock ∈ l ∧ block ∈ l

theorem sameButFlags_run {r : Read} (h : SameButFlags mem l s.mem)
    (hr : r.Inside l) : SameButFlags mem l (r.run mem s).mem := by
  cases r with
  | key keyBlock k => exact h
  | other keyBlock k block i => exact h.compareMap hr.1 hr.2 _ _ _

theorem sameButFlags_foldl {reads : List Read} (h : SameButFlags mem l s.mem)
    (hr : ∀ r ∈ reads, r.Inside l) : SameButFlags mem l (reads.foldl (Read.run mem) s).mem := by
  induction reads generalizing s with
  | nil => exact h
  | cons r reads ih =>
    exact ih (sameButFlags_run h (hr r mem_cons_self))
      (fun r' hr' => hr r' (mem_cons_of_mem r hr'))

theorem inside_blockReads (hk : keyBlock ∈ l) (hb : block ∈ l) :
    ∀ r ∈ blockReads mem keyBlock k block, r.Inside l := by
  intro r hr
  obtain ⟨i, -, rfl⟩ := mem_map.mp hr
  exact ⟨hk, hb⟩

theorem inside_keyReads {l' : List Nat} (hk : keyBlock ∈ l) (hl : ∀ b ∈ l', b ∈ l) :
    ∀ r ∈ keyReads mem l' keyBlock k, r.Inside l := by
  intro r hr
  rcases mem_cons.mp hr with rfl | hr
  · trivial
  · obtain ⟨b, hb, hr⟩ := mem_flatMap.mp hr
    exact inside_blockReads hk (hl b hb) r hr

section

variable (h : SameButFlags mem (blocksFrom mem n start) s.mem)
include h

theorem blockReads_eq (hb : block ∈ blocksFrom mem n start) :
    (if typeOf s.mem block = NodeType.itsGroup.code then s
      else if block = keyBlock then
        compareMaps keyBlock k (mapAt mem keyBlock k).outputBase (rangeEnd (mapAt mem keyBlock k))
          block (numDataMap s.mem block - 1) (k + 1) s
      else
        compareMaps keyBlock k (mapAt mem keyBlock k).outputBase (rangeEnd (mapAt mem keyBlock k))
          block (numDataMap s.mem block) 0 s) =
      (blockReads mem keyBlock k block).foldl (Read.run mem) s := by
  rw [h.typeOf hb, h.numDataMap hb, blockReads, turns, foldl_map]
  split
  · rfl
  · split <;> exact compareMaps_eq _ _ _ _ _

theorem overBlocks_eq {nBlocks : Nat} (hk : keyBlock ∈ blocksFrom mem n start)
    (hl : ∀ b ∈ blocksFrom mem nBlocks block, b ∈ blocksFrom mem n start) :
    overBlocks keyBlock k (mapAt mem keyBlock k).outputBase (rangeEnd (mapAt mem keyBlock k))
        nBlocks block s =
      ((blocksFrom mem nBlocks block).flatMap
        (blockReads mem keyBlock k)).foldl (Read.run mem) s := by
  induction nBlocks generalizing block s with
  | zero => rfl
  | succ nBlocks ih =>
    have hb := hl block mem_cons_self
    have hs' : SameButFlags mem (blocksFrom mem n start)
        ((blockReads mem keyBlock k block).foldl (Read.run mem) s).mem :=
      sameButFlags_foldl h (inside_blockReads hk hb)
    simp only [overBlocks, blockReads_eq h hb, hs'.nextBlock hb]
    rw [blocksFrom, flatMap_cons, foldl_append]
    exact ih hs' fun b hb' => hl b (mem_cons_of_mem block hb')

variable {nKeyBlocks : Nat}

theorem overKeyMaps_eq {nKeyMaps : Nat} (hk : keyBlock ∈ blocksFrom mem n start)
    (hl : ∀ b ∈ blocksFrom mem nKeyBlocks keyBlock, b ∈ blocksFrom mem n start)
    (hm : k + nKeyMaps ≤ numDataMap mem keyBlock) :
    overKeyMaps keyBlock nKeyBlocks nKeyMaps k s =
      ((range' k nKeyMaps).flatMap
        (keyReads mem (blocksFrom mem nKeyBlocks keyBlock) keyBlock)).foldl (Read.run mem) s := by
  induction nKeyMaps generalizing k s with
  | zero => rfl
  | succ nKeyMaps ih =>
    have hmap := h.mapAt hk (show k < numDataMap mem keyBlock by omega)
    have hfold : SameButFlags mem (blocksFrom mem n start)
        ((keyReads mem (blocksFrom mem nKeyBlocks keyBlock) keyBlock k).foldl
          (Read.run mem) s).mem :=
      sameButFlags_foldl h (inside_keyReads hk hl)
    rw [range'_succ, flatMap_cons, foldl_append]
    simp only [overKeyMaps, hmap]
    rw [overBlocks_eq (s := { s with reads := (keyBlock, k) :: s.reads }) h hk hl]
    exact ih hfold (by omega)

theorem overKeyBlocks_eq
    (hl : ∀ b ∈ blocksFrom mem nKeyBlocks keyBlock, b ∈ blocksFrom mem n start) :
    overKeyBlocks nKeyBlocks keyBlock s =
      (tableReads mem (blocksFrom mem nKeyBlocks keyBlock)).foldl (Read.run mem) s := by
  induction nKeyBlocks generalizing keyBlock s with
  | zero => rfl
  | succ nKeyBlocks ih =>
    have hk := hl keyBlock mem_cons_self
    have hrest := fun b hb => hl b (mem_cons_of_mem keyBlock hb)
    simp only [overKeyBlocks, blocksFrom, tableReads, foldl_append, h.typeOf hk]
    split
    · rw [h.nextBlock hk]
      exact ih h hrest
    · have hmaps := overKeyMaps_eq h hk hl
        (zero_add (numDataMap mem keyBlock)).le
      have hfold : SameButFlags mem (blocksFrom mem n start)
          (overKeyMaps keyBlock (nKeyBlocks + 1) (numDataMap mem keyBlock) 0 s).mem := by
        rw [hmaps]
        refine sameButFlags_foldl h fun r hr => ?_
        obtain ⟨k, -, hr⟩ := mem_flatMap.mp hr
        exact inside_keyReads hk hl r hr
      rw [h.numDataMap hk, hfold.nextBlock hk, ih hfold hrest, hmaps, range_eq_range']
      rfl

end

theorem checkMappingOverlap_eq (mem : Words) :
    checkMappingOverlap mem = (tableReads mem (blocks mem)).foldl (Read.run mem) ⟨mem, []⟩ :=
  overKeyBlocks_eq (sameButFlags_refl mem _) fun _ hb => hb

end

end ServerSoc.Iovirt
