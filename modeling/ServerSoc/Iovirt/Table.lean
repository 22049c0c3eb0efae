/-
The IOVIRT table in memory (pal_uefi_acpi/include/pal_uefi.h).

Memory is 32-bit words, numbered from the start of the table.  After six counters come the blocks:
a type, the number of maps, 64 words of data, the flags and four words for each map.
-/
import Mathlib.Logic.Function.Basic
import ServerSoc.Base.Bits

namespace ServerSoc.Iovirt

inductive NodeType where
  | itsGroup | namedComponent | pciRootComplex | smmu | smmuV3 | pmcg
  deriving DecidableEq, Repr

def NodeType.code : NodeType → Nat
  | .itsGroup => 0
  | .namedComponent => 1
  | .pciRootComplex => 2
  | .smmu => 3
  | .smmuV3 => 4
  | .pmcg => 5

def flagDevidOverlapShift : Nat := 0
def flagStridOverlapShift : Nat := 1

structure IdMap where
  inputBase : Nat
  idCount : Nat
  outputBase : Nat
  outputRef : Nat
  deriving DecidableEq, Repr

/-! ## Words -/

abbrev Words := Nat → Nat

def numBlocksWord : Nat := 0
def blocksWord : Nat := 6

def typeOf (mem : Words) (block : Nat) : Nat := mem block
def numDataMap (mem : Words) (block : Nat) : Nat := mem (block + 1)
def dataWord (block i : Nat) : Nat := block + 2 + i
def flagsWord (block : Nat) : Nat := block + 66
def mapWord (block i : Nat) : Nat := block + 67 + 4 * i

def flagsOf (mem : Words) (block : Nat) : Nat := mem (flagsWord block)

def mapAt (mem : Words) (block i : Nat) : IdMap :=
  ⟨mem (mapWord block i), mem (mapWord block i + 1), mem (mapWord block i + 2),
    mem (mapWord block i + 3)⟩

def nextBlock (mem : Words) (block : Nat) : Nat := mapWord block (numDataMap mem block)

def refBlock (ref : Nat) : Nat := ref / 4

def blocksFrom (mem : Words) : Nat → Nat → List Nat
  | 0, _ => []
  | n + 1, block => block :: blocksFrom mem n (nextBlock mem block)

def blocks (mem : Words) : List Nat := blocksFrom mem (mem numBlocksWord) blocksWord

section

variable {mem mem' : Words} {b b' n start : Nat}

theorem lt_nextBlock (mem : Words) (b : Nat) : b + 66 < nextBlock mem b := by
  rw [nextBlock, mapWord]
  omega

theorem le_of_mem_blocksFrom (h : b' ∈ blocksFrom mem n b) : b ≤ b' := by
  induction n generalizing b with
  | zero => cases h
  | succ n ih =>
    rcases List.mem_cons.mp h with rfl | h
    · exact le_rfl
    · have hlt := lt_nextBlock mem b
      have hle := ih h
      omega

theorem blocksFrom_disjoint (hb : b ∈ blocksFrom mem n start) (hb' : b' ∈ blocksFrom mem n start) :
    b = b' ∨ nextBlock mem b ≤ b' ∨ nextBlock mem b' ≤ b := by
  induction n generalizing start with
  | zero => cases hb
  | succ n ih =>
    rcases List.mem_cons.mp hb with rfl | hb
    · rcases List.mem_cons.mp hb' with rfl | hb'
      · exact .inl rfl
      · exact .inr (.inl (le_of_mem_blocksFrom hb'))
    · rcases List.mem_cons.mp hb' with rfl | hb'
      · exact .inr (.inr (le_of_mem_blocksFrom hb))
      · exact ih hb hb'

def SameButFlags (mem : Words) (l : List Nat) (mem' : Words) : Prop :=
  ∀ a, (∀ b ∈ l, a ≠ flagsWord b) → mem' a = mem a

theorem sameButFlags_refl (mem : Words) (l : List Nat) : SameButFlags mem l mem := fun _ _ => rfl

theorem SameButFlags.eq {a : Nat} (h : SameButFlags mem (blocksFrom mem n start) mem')
    (hb : b ∈ blocksFrom mem n start) (h1 : b ≤ a) (h2 : a < nextBlock mem b)
    (h3 : a ≠ flagsWord b) : mem' a = mem a := by
  refine h a fun b' hb' heq => ?_
  rw [flagsWord] at heq h3
  have hlt := lt_nextBlock mem b'
  rcases blocksFrom_disjoint hb hb' with rfl | hle | hle
  · exact h3 heq
  · omega
  · omega

section

variable (h : SameButFlags mem (blocksFrom mem n b') mem') (hb : b ∈ blocksFrom mem n b')
include h hb

theorem SameButFlags.typeOf : typeOf mem' b = typeOf mem b :=
  h.eq hb le_rfl ((Nat.le_add_right b 66).trans_lt (lt_nextBlock mem b))
    (by rw [flagsWord]; omega)

theorem SameButFlags.numDataMap : numDataMap mem' b = numDataMap mem b := by
  have hlt := lt_nextBlock mem b
  exact h.eq hb (Nat.le_add_right b 1) (by omega) (by rw [flagsWord]; omega)

theorem SameButFlags.nextBlock : nextBlock mem' b = nextBlock mem b := by
  rw [Iovirt.nextBlock, h.numDataMap hb, Iovirt.nextBlock]

theorem SameButFlags.mapAt {i : Nat} (hi : i < Iovirt.numDataMap mem b) :
    mapAt mem' b i = mapAt mem b i := by
  have hword : ∀ j < 4, mem' (mapWord b i + j) = mem (mapWord b i + j) := by
    intro j hj
    rw [mapWord]
    refine h.eq hb (by omega) ?_ (by rw [flagsWord]; omega)
    rw [Iovirt.nextBlock, mapWord]
    omega
  rw [Iovirt.mapAt, Iovirt.mapAt, hword 1 (by decide), hword 2 (by decide), hword 3 (by decide)]
  have h0 := hword 0 (by decide)
  rw [add_zero] at h0
  rw [h0]

end

end

/-! ## Requester ids to device and stream ids (val_iovirt_get_device_info in acs_iovirt.c)

The mappings of the root complexes of a segment send a requester id to an ITS group or to an SMMU,
whose mappings send the stream id on.  A mapping accepts `id_count + 1` ids. Blocks are taken as
they lie (`bound` is 1). -/

/-- The range check of the loops over maps, in 32 bits. -/
def IdMap.accepts (m : IdMap) (id : Nat) : Bool :=
  m.inputBase ≤ id && id ≤ (m.inputBase + m.idCount) % 2 ^ 32

def IdMap.outputId (m : IdMap) (id : Nat) : Nat := (id - m.inputBase + m.outputBase) % 2 ^ 32

def findMap (mem : Words) (block id : Nat) : Nat → Nat → Option IdMap
  | 0, _ => none
  | n + 1, j =>
    if (mapAt mem block j).accepts id then some (mapAt mem block j)
    else findMap mem block id n (j + 1)

def rcSegment (mem : Words) (block : Nat) : Nat := mem (dataWord block 0)

def itsIdentifier (mem : Words) (block : Nat) : Nat := mem (mapWord block 0)

/-- The loop over the blocks goes on after a hit, so the last root complex counts. -/
def rcMapLoop (mem : Words) (rid segment : Nat) : List Nat → Option IdMap → Option IdMap
  | [], found => found
  | block :: l, found =>
    if typeOf mem block = NodeType.pciRootComplex.code ∧ rcSegment mem block = segment then
      rcMapLoop mem rid segment l ((findMap mem block rid (numDataMap mem block) 0).or found)
    else rcMapLoop mem rid segment l found

structure DeviceIds where
  deviceId : Nat
  streamId : Nat
  itsId : Nat
  deriving DecidableEq, Repr

def isSmmu (mem : Words) (block : Nat) : Bool :=
  typeOf mem block == NodeType.smmu.code || typeOf mem block == NodeType.smmuV3.code

def itsIdOf (mem : Words) (block : Nat) : Nat :=
  if typeOf mem block = NodeType.itsGroup.code then itsIdentifier mem block else 0

/-- `none` stands for ACS_STATUS_ERR. -/
def valIovirtGetDeviceInfo (mem : Words) (rid segment : Nat) : Option DeviceIds := do
  let map ← rcMapLoop mem rid segment (blocks mem) none
  let block := refBlock map.outputRef
  if typeOf mem block = NodeType.itsGroup.code then
    some ⟨map.outputId rid, 2 ^ 32 - 1, itsIdentifier mem block⟩
  else if isSmmu mem block then
    let sid := map.outputId rid
    let map ← findMap mem block sid (numDataMap mem block) 0
    some ⟨map.outputId sid, sid, itsIdOf mem (refBlock map.outputRef)⟩
  else none

section

variable {mem : Words} {block id rid segment n j : Nat} {m : IdMap}

theorem findMap_eq_some (h : findMap mem block id n j = some m) :
    ∃ i < j + n, m = mapAt mem block i ∧ m.accepts id = true := by
  induction n generalizing j with
  | zero => cases h
  | succ n ih =>
    rw [findMap] at h
    split at h
    · cases h
      exact ⟨j, by omega, rfl, by assumption⟩
    · obtain ⟨i, hi, hm⟩ := ih h
      exact ⟨i, by omega, hm⟩

theorem rcMapLoop_eq_some {l : List Nat} {found : Option IdMap}
    (h : rcMapLoop mem rid segment l found = some m) :
    found = some m ∨ ∃ block ∈ l, typeOf mem block = NodeType.pciRootComplex.code ∧
      rcSegment mem block = segment ∧
      ∃ i < numDataMap mem block, m = mapAt mem block i ∧ m.accepts rid = true := by
  induction l generalizing found with
  | nil => exact .inl h
  | cons block l ih =>
    rw [rcMapLoop] at h
    split_ifs at h with hrc
    · rcases ih h with hfound | ⟨b, hb, hrest⟩
      · rcases Option.or_eq_some_iff.mp hfound with hmap | ⟨-, hold⟩
        · obtain ⟨i, hi, hm⟩ := findMap_eq_some hmap
          exact .inr ⟨block, List.mem_cons_self, hrc.1, hrc.2, i, by omega, hm⟩
        · exact .inl hold
      · exact .inr ⟨b, List.mem_cons_of_mem block hb, hrest⟩
    · rcases ih h with hfound | ⟨b, hb, hrest⟩
      · exact .inl hfound
      · exact .inr ⟨b, List.mem_cons_of_mem block hb, hrest⟩

end

end ServerSoc.Iovirt
