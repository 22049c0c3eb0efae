/-
Building a page table (acs_pgt.c, bsa_acs_pgt.h).

Memory has one 64-bit word at each address a word can be at, and the n-th page comes from `alloc
n`, which is `none` where the allocation fails.  Physical and virtual addresses are the same.  The
loops of `fill_translation_table` have fuel, and `none` is a call that is still running when the
fuel ends.
-/
import ServerSoc.Base.Bits
import Mathlib.Logic.Function.Basic

namespace ServerSoc.Pgt

/-! ## Descriptors -/

def pgtEntryTableMask : Nat := 1 <<< 1
def pgtEntryValidMask : Nat := 1
def pgtEntryPageMask : Nat := 1 <<< 1
def pgtEntryBlockMask : Nat := 0 <<< 1

def pgtEntryTypeMask : Nat := 3
def pgtEntryTypeTable : Nat := 3
def pgtEntryTypeBlock : Nat := 1
def pgtEntryTypePage : Nat := 3

def isPgtEntryPage (val : Nat) : Bool := val &&& pgtEntryTypeMask == pgtEntryTypePage
def isPgtEntryBlock (val : Nat) : Bool := val &&& pgtEntryTypeMask == pgtEntryTypeBlock
def isPgtEntryTable (val : Nat) : Bool := val &&& pgtEntryTypeMask == pgtEntryTypeTable

def pgtDescAttributesMask : Nat := (2 ^ 12 - 1) <<< 52 ||| (2 ^ 10 - 1) <<< 2
def pgtDescAttributes (val : Nat) : Nat := val &&& pgtDescAttributesMask

/-! ## Sizes -/

def add64 (a b : Nat) : Nat := (a + b) % 2 ^ 64
def sub64 (a b : Nat) : Nat := (a + 2 ^ 64 - b) % 2 ^ 64
def sub32 (a b : Nat) : Nat := (a + 2 ^ 32 - b) % 2 ^ 32

def pageSize4K : Nat := 0x1000
def pageSize16K : Nat := 4 * 0x1000
def pageSize64K : Nat := 16 * 0x1000

def getEntriesPerLevel (pageSize : Nat) : Nat :=
  if pageSize = pageSize4K then 512
  else if pageSize = pageSize16K then 2048
  else if pageSize = pageSize64K then 8192
  else 0

/-- The products are 32-bit numbers. -/
def getBlockSize (pageSize level : Nat) : Nat :=
  let entries := getEntriesPerLevel pageSize
  match level with
  | 0 =>
    if pageSize = pageSize4K then pageSize * entries * entries * entries % 2 ^ 32
    else if pageSize = pageSize16K then pageSize * entries * entries * 2 % 2 ^ 32
    else 0
  | 1 =>
    if pageSize = pageSize4K ∨ pageSize = pageSize16K then pageSize * entries * entries % 2 ^ 32
    else pageSize * entries * 64 % 2 ^ 32
  | 2 => pageSize * entries % 2 ^ 32
  | 3 => pageSize
  | _ => 0

/-- The loop of `log2_page_size`: a 64-bit size has at most 64 bits. -/
def log2From : Nat → Nat → Nat → Nat
  | 0, _, _ => 0
  | fuel + 1, size, bit =>
    if size = 0 then 0
    else if size &&& 1 = 1 then bit
    else log2From fuel (size >>> 1) (bit + 1)

def log2PageSize (size : Nat) : Nat := log2From 64 size 0

/-! ## State -/

structure AcsPgt where
  l0Index : Nat
  l1Index : Nat
  l2Index : Nat
  l3Index : Nat
  deriving DecidableEq, Repr

def AcsPgt.zero : AcsPgt := ⟨0, 0, 0, 0⟩

def getPgtIndex (info : AcsPgt) (level : Nat) : Nat :=
  match level with
  | 0 => info.l0Index
  | 1 => info.l1Index
  | 2 => info.l2Index
  | 3 => info.l3Index
  | _ => 0

/-- Only level 3 counts entries, the others take over when the level below is full. -/
def incrementPgtIndex (info : AcsPgt) (level maxIndex : Nat) : AcsPgt :=
  match level with
  | 1 =>
    if info.l1Index = maxIndex - 1 then { info with l1Index := 0, l0Index := info.l0Index + 1 }
    else info
  | 2 =>
    if info.l2Index = maxIndex - 1 then { info with l2Index := 0, l1Index := info.l1Index + 1 }
    else info
  | 3 =>
    if info.l3Index = maxIndex - 1 then { info with l3Index := 0, l2Index := info.l2Index + 1 }
    else { info with l3Index := info.l3Index + 1 }
  | _ => info

structure Globals where
  pageSize : Nat
  bitsPerLevel : Nat
  pgtAddrMask : Nat
  deriving DecidableEq, Repr

/-- The memory, how many pages were allocated, the pages that were freed in this order, and the
other globals. -/
structure State where
  mem : Nat → Nat
  allocated : Nat
  freed : List Nat
  isValuesInit : Bool
  offset : Nat
  info : AcsPgt

structure TtDescriptor where
  ttBase : Nat
  inputBase : Nat
  inputTop : Nat
  outputBase : Nat
  level : Nat
  sizeLog2 : Nat
  nbits : Nat
  deriving DecidableEq, Repr

structure MemoryRegion where
  physicalAddress : Nat
  virtualAddress : Nat
  length : Nat
  attributes : Nat
  deriving DecidableEq, Repr

/-- What the caller asks for.  A base of 0 asks for a new table. -/
structure PgtDescriptor where
  pgtBase : Nat
  ias : Nat
  oas : Nat
  deriving DecidableEq, Repr

def initValues (s : State) : State :=
  if s.isValuesInit then s else { s with info := AcsPgt.zero, isValuesInit := true }

def State.write (s : State) (a v : Nat) : State := { s with mem := Function.update s.mem a v }

/-- `val_memory_free_pages`, which leaves the memory as it is. -/
def State.free (s : State) (p : Nat) : State := { s with freed := s.freed ++ [p] }

def allocPage (pageSize : Nat) (alloc : Nat → Option Nat) (s : State) : Option (Nat × State) :=
  match alloc s.allocated with
  | none => none
  | some p => some (p, { s with
      mem := fun a => if p ≤ a ∧ a < p + pageSize then 0 else s.mem a
      allocated := s.allocated + 1 })

/-! ## Filling a table -/

/-- The table one level below: a new one, or the one the descriptor points to. -/
def nextTable (g : Globals) (alloc : Nat → Option Nat) (tableDesc : Nat) (s : State) :
    Option (Nat × State) :=
  if s.mem tableDesc = 0 ∨ isPgtEntryBlock (s.mem tableDesc) then allocPage g.pageSize alloc s
  else some (s.mem tableDesc &&& g.pgtAddrMask, s)

def nextLevel (g : Globals) (tt : TtDescriptor) (input output ttBase offset : Nat) :
    TtDescriptor where
  ttBase := ttBase
  inputBase := input
  inputTop := min tt.inputTop (sub64 (sub64 (add64 input (2 ^ tt.sizeLog2)) offset) 1)
  outputBase := output
  level := tt.level + 1
  sizeLog2 := tt.sizeLog2 - g.bitsPerLevel
  nbits := g.bitsPerLevel

/-- `fill_translation_table` from the iteration for `input` on, with the status it
returns. -/
def fillLoop (g : Globals) (alloc : Nat → Option Nat) (attributes : Nat) :
    Nat → TtDescriptor → Nat → Nat → State → Option (Nat × State)
  | 0, _, _, _, _ => none
  | fuel + 1, tt, input, output, s =>
    if input < tt.inputTop then
      let blockSize := 2 ^ tt.sizeLog2
      let tableDesc := tt.ttBase + 8 * (input >>> tt.sizeLog2 &&& 1 <<< tt.nbits - 1)
      let entries := getEntriesPerLevel g.pageSize
      let next := fun s : State => fillLoop g alloc attributes fuel tt
        (add64 input (sub64 blockSize s.offset)) (add64 output (sub64 blockSize s.offset)) s
      if tt.level = 3 then
        let s := s.write tableDesc (pgtEntryPageMask ||| pgtEntryValidMask |||
          output &&& (2 ^ 64 - g.pageSize) ||| attributes)
        next { s with info := incrementPgtIndex s.info tt.level entries, offset := 0 }
      else if input &&& blockSize - 1 = 0 ∧ output &&& blockSize - 1 = 0 ∧
          sub64 (add64 input blockSize) 1 ≤ tt.inputTop then
        let s := s.write tableDesc (pgtEntryBlockMask ||| pgtEntryValidMask |||
          output &&& (2 ^ 64 - blockSize) ||| attributes)
        next { s with info := incrementPgtIndex s.info tt.level entries, offset := 0 }
      else
        match nextTable g alloc tableDesc s with
        | none => some (1, s)
        | some (ttBase, s) =>
          let offset := getPgtIndex s.info (tt.level + 1) * getBlockSize g.pageSize (tt.level + 1)
          let tt' := nextLevel g tt input output ttBase offset
          let s := { s with info := incrementPgtIndex s.info tt.level entries, offset := offset }
          match fillLoop g alloc attributes fuel tt' tt'.inputBase tt'.outputBase
            (initValues s) with
          | none => none
          | some (status, s) =>
            if status = 0 then
              next (s.write tableDesc (pgtEntryTableMask ||| pgtEntryValidMask |||
                ttBase &&& (2 ^ 64 - g.pageSize)))
            else some (1, s.free ttBase)
    else some (0, s)

def fillTranslationTable (g : Globals) (alloc : Nat → Option Nat) (fuel : Nat) (tt : TtDescriptor)
    (attributes : Nat) (s : State) : Option (Nat × State) :=
  fillLoop g alloc attributes fuel tt tt.inputBase tt.outputBase (initValues s)

/-! ## Creating a table -/

def numPgtLevels (pageSizeLog2 bitsPerLevel ias : Nat) : Nat :=
  let n := sub32 (sub32 ias pageSizeLog2 + bitsPerLevel) 1 / bitsPerLevel
  if 4 < n then 4 else n

def startSizeLog2 (pageSizeLog2 bitsPerLevel ias : Nat) : Nat :=
  (sub32 (numPgtLevels pageSizeLog2 bitsPerLevel ias) 1 * bitsPerLevel + pageSizeLog2) % 2 ^ 32

def startTt (pageSizeLog2 bitsPerLevel ias oas ttBase : Nat) (region : MemoryRegion) :
    TtDescriptor where
  ttBase := ttBase
  inputBase := region.virtualAddress &&& 1 <<< ias - 1
  inputTop := sub64 (add64 (region.virtualAddress &&& 1 <<< ias - 1) region.length) 1
  outputBase := region.physicalAddress &&& 1 <<< oas - 1
  level := sub32 4 (numPgtLevels pageSizeLog2 bitsPerLevel ias)
  sizeLog2 := startSizeLog2 pageSizeLog2 bitsPerLevel ias
  nbits := sub32 ias (startSizeLog2 pageSizeLog2 bitsPerLevel ias)

/-- The loop over the regions before the one of length 0.  It counts them, but always
maps the first one. -/
def createRegions (g : Globals) (alloc : Nat → Option Nat) (fuel pageSizeLog2 ttBase : Nat)
    (desc : PgtDescriptor) : List MemoryRegion → MemoryRegion → State → Option (Nat × State)
  | [], _, s => some (0, s)
  | _ :: rest, region, s =>
    if region.virtualAddress &&& g.pageSize - 1 ≠ 0 ∨
      region.physicalAddress &&& g.pageSize - 1 ≠ 0 then
      some (1, s)
    else if 1 <<< desc.oas ≤ region.physicalAddress then some (1, s)
    else
      let region := if 1 <<< desc.ias ≤ region.virtualAddress then
          { region with virtualAddress := region.virtualAddress &&& 1 <<< desc.ias - 1 }
        else region
      let tt := startTt pageSizeLog2 g.bitsPerLevel desc.ias desc.oas ttBase region
      match fillTranslationTable g alloc fuel tt region.attributes s with
      | none => none
      | some (status, s) =>
        if status = 0 then createRegions g alloc fuel pageSizeLog2 ttBase desc rest region s
        else some (1, s.free ttBase)

/-- The status, the descriptor with the base of the table, and the state. -/
def valPgtCreate (pageSize : Nat) (alloc : Nat → Option Nat) (fuel : Nat)
    (regions : List MemoryRegion)
    (desc : PgtDescriptor) (s : State) : Option (Nat × PgtDescriptor × State) :=
  let pageSizeLog2 := log2PageSize pageSize
  let g : Globals :=
    { pageSize := pageSize
      bitsPerLevel := sub32 pageSizeLog2 3
      pgtAddrMask := (1 <<< sub32 desc.ias pageSizeLog2 - 1) <<< pageSizeLog2 }
  let table := if desc.pgtBase = 0 then allocPage pageSize alloc s else some (desc.pgtBase, s)
  match table with
  | none => some (1, desc, s)
  | some (ttBase, s) =>
    match regions with
    | [] => some (0, { desc with pgtBase := ttBase }, s)
    | region :: _ =>
      match createRegions g alloc fuel pageSizeLog2 ttBase desc regions region s with
      | none => none
      | some (status, s) =>
        if status = 0 then some (0, { desc with pgtBase := ttBase }, s) else some (status, desc, s)

def firstState (mem : Nat → Nat) : State where
  mem := mem
  allocated := 0
  freed := []
  isValuesInit := false
  offset := 0
  info := AcsPgt.zero

end ServerSoc.Pgt
