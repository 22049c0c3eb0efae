/-
Several SMMUs (smmu_v3.c).

There is one list of masters, searched by the stream id alone, and `val_smmu_unmap` takes the SMMU
from the master it finds.  `System.view` is the part of a system that a call works on as the state
of a single SMMU, and `System.put` the system with the part changed.
-/
import ServerSoc.Smmu.StreamTable

namespace ServerSoc.Smmu

open Base Function

/-- The objects in memory: stream tables by their SMMU, context tables by their master. -/
inductive Tag where
  | strtab (i : Nat)
  | level2 (i g : Nat)
  | cdtab (k : Nat)
  | leaf (k n : Nat)
  deriving DecidableEq, Repr

/-- `owner` is the index of the SMMU that the `smmu` pointer of a master has when it is set. -/
structure System where
  heap : Heap Tag
  level1 : Nat → Nat → Option Nat
  count : Nat
  master : Nat → Master
  owner : Nat → Nat

/-- An object as SMMU `i` sees it.  The stream tables of the others are to it a level 2 table
that is of no stream. -/
def Tag.seenBy (i : Nat) : Tag → Owner
  | .strtab j => if j = i then .strtab else .level2 (2 ^ 32)
  | .level2 j g => if j = i then .level2 g else .level2 (2 ^ 32)
  | .cdtab k => .cdtab k
  | .leaf k n => .leaf k n

def Owner.tag (i : Nat) : Owner → Tag
  | .strtab => .strtab i
  | .level2 g => .level2 i g
  | .cdtab k => .cdtab k
  | .leaf k n => .leaf k n

def System.uses (s : System) (i k : Nat) : Bool := (s.master k).smmu && decide (s.owner k = i)

def System.view (s : System) (i k : Nat) : State where
  heap := { mem := s.heap.mem, own := fun a => (s.heap.own a).map (Tag.seenBy i) }
  level1 := s.level1 i
  count := s.count
  master := fun j => if j = k ∨ s.uses i j = true then s.master j else Master.zero

/-- The system after a call on SMMU `i` with master `k`.  An object that is still there is the
one it was. -/
def System.put (s : System) (i k : Nat) (d : State) : System where
  heap :=
    { mem := d.heap.mem
      own := fun a =>
        match d.heap.own a with
        | none => none
        | some o => if (s.view i k).heap.own a = some o then s.heap.own a else some (o.tag i) }
  level1 := update s.level1 i d.level1
  count := s.count
  master := update s.master k (d.master k)
  owner := s.owner

/-! ## Calls -/

def System.masterAt (s : System) (sid : Nat) : Nat × System :=
  match findMaster s.master sid s.count with
  | some k => (k, s)
  | none =>
    (s.count, { s with count := s.count + 1, master := update s.master s.count Master.zero })

def System.take (s : System) (k i : Nat) (attr : MasterAttributes) : System :=
  if (s.master k).smmu then s
  else
    { s with
      master := update s.master k
        { s.master k with smmu := true, sid := attr.streamid, ssidBits := attr.ssidBits }
      owner := update s.owner k i }

def System.setStage (s : System) (k : Nat) (attr : MasterAttributes) : System :=
  { s with
    master := update s.master k
      { s.master k with
        stage := if attr.stage2 then .s2 else .s1
        ssid := if attr.stage2 then (s.master k).ssid else attr.substreamid } }

/-- SMMU `i` for a call with master `k`: `smmu_cdtab_alloc` asks the SMMU of the master
whether it has context tables of two levels. -/
def System.devFor (s : System) (dev : Nat → SmmuDev) (i k : Nat) : SmmuDev :=
  { dev i with cd2l := (dev (s.owner k)).cd2l }

/-- The master of a map call on SMMU `i`, and the system in which it is in use. -/
def System.taken (s : System) (i : Nat) (attr : MasterAttributes) : Nat × System :=
  let k := (s.masterAt attr.streamid).1
  (k, (s.masterAt attr.streamid).2.take k i attr)

def System.staged (s : System) (i : Nat) (attr : MasterAttributes) : System :=
  (s.taken i attr).2.setStage (s.taken i attr).1 attr

/-- `val_smmu_map` with `num` SMMUs, all of them initialised, where the allocations
succeed. -/
def System.map (dev : Nat → SmmuDev) (num : Nat) (s : System) (i : Nat) (attr : MasterAttributes)
    (pgt : PgtDescriptor) (al : Allocations) : Nat × System :=
  if num ≤ i then (1, s)
  else
    let k := (s.taken i attr).1
    if attr.stage2 && !(dev i).s2p then (1, (s.taken i attr).2)
    else if !attr.stage2 && !(dev i).s1p then (1, (s.taken i attr).2)
    else
      let s := s.staged i attr
      let r := mapStream (s.devFor dev i k) (s.view i k) k attr pgt al
      (r.1, s.put i k r.2)

/-- `val_smmu_unmap`, which does not look at the index of the SMMU. -/
def System.unmap (dev : Nat → SmmuDev) (s : System) (attr : MasterAttributes) : System :=
  let k := (s.masterAt attr.streamid).1
  let s := (s.masterAt attr.streamid).2
  if (s.master k).smmu then
    let i := s.owner k
    if 1 <<< (dev i).sidBits ≤ attr.streamid then s
    else
      let ste := (dev i).strtab64 + attr.streamid * strtabSteDwords % 2 ^ 32 * 8
      s.put i k (freeMaster ((s.view i k).writeEntry ste none) k)
  else s

inductive SysCall where
  | map (i : Nat) (attr : MasterAttributes) (pgt : PgtDescriptor) (al : Allocations)
  | unmap (i : Nat) (attr : MasterAttributes)
  deriving DecidableEq, Repr

def SysCall.index : SysCall → Nat
  | .map i _ _ _ => i
  | .unmap i _ => i

def System.step (dev : Nat → SmmuDev) (num : Nat) (s : System) : SysCall → System
  | .map i attr pgt al => (s.map dev num i attr pgt al).2
  | .unmap _ attr => s.unmap dev attr

/-- The stream tables of the first SMMUs are initialised, with what the memory held before. -/
def System.init (dev : Nat → SmmuDev) (mem : Nat → Nat) : Nat → System
  | 0 =>
    { heap := { mem := mem, own := fun _ => none }
      level1 := fun _ _ => none
      count := 0
      master := fun _ => Master.zero
      owner := fun _ => 0 }
  | i + 1 =>
    let s := System.init dev mem i
    s.put i 0 (smmuStrtabInit (dev i) (s.view i 0).heap)

/-! ## What belongs to an SMMU -/

def System.belongs (s : System) (i : Nat) : Tag → Bool
  | .strtab j => decide (j = i)
  | .level2 j _ => decide (j = i)
  | .cdtab k => s.uses i k
  | .leaf k _ => s.uses i k

def System.only (s : System) (i : Nat) : State where
  heap :=
    { mem := s.heap.mem
      own := fun a => ((s.heap.own a).filter (s.belongs i)).map (Tag.seenBy i) }
  level1 := s.level1 i
  count := s.count
  master := fun k => if s.uses i k = true then s.master k else Master.zero

structure System.Serves (s : System) (i sid k : Nat) : Prop where
  lt : k < s.count
  uses : s.uses i k = true
  sid : (s.master k).sid = sid

def System.Mine (s : System) (i sid : Nat) : Prop :=
  ∀ k, findMaster s.master sid s.count = some k → (s.master k).smmu = true → s.owner k = i

/-- What a call keeps of SMMU `j`: the objects that belong to it with their words, and the
entries that it fetches. -/
structure Untouched (dev : Nat → SmmuDev) (j : Nat) (s s' : System) : Prop where
  words : ∀ a t, s.heap.own a = some t → s.belongs j t = true →
    s'.heap.own a = some t ∧ s'.heap.mem a = s.heap.mem a
  entries : ∀ sid < 2 ^ (dev j).sidBits,
    fetch (dev j) s'.heap.mem sid = fetch (dev j) s.heap.mem sid

/-- A call keeps all SMMUs but the one it names, and after an unmap call that one has no
entry for the stream. -/
structure Isolated (dev : Nat → SmmuDev) (num : Nat) (s : System) (c : SysCall) (s' : System) :
    Prop where
  others : ∀ j < num, j ≠ c.index → Untouched dev j s s'
  unmapped : ∀ i attr, c = .unmap i attr → i < num → attr.streamid < 2 ^ (dev i).sidBits →
    fetch (dev i) s'.heap.mem attr.streamid = none

/-! ## Runs -/

def SysCall.Allocates (dev : Nat → SmmuDev) (s : System) : SysCall → Prop
  | .map i attr _ al => attr.streamid < 2 ^ (dev i).sidBits →
      AllocOk (dev i) ((s.staged i attr).view i (s.taken i attr).1) (s.taken i attr).1 al
  | .unmap _ _ => True

/-- What has to hold for an unmap call on SMMU `i`.  A master in use is of a linear stream
table, and one for stream 0 is in front of the masters not in use, which have stream id 0 too. -/
structure SysUnmapOk (dev : Nat → SmmuDev) (s : System) (i sid : Nat) : Prop where
  mine : s.Mine i sid
  linear : (∃ k, s.Serves i sid k) → (dev i).stLevel2lvl = false
  front : sid = 0 → (∃ k, s.Serves i sid k) →
    ∃ k, findMaster s.master sid s.count = some k ∧ (s.master k).smmu = true

/-- The call names the SMMU of the master it finds.  A map stays inside its context table. -/
def SysCall.Ok (dev : Nat → SmmuDev) (s : System) : SysCall → Prop
  | .map i attr _ al => s.Mine i attr.streamid ∧ (attr.streamid < 2 ^ (dev i).sidBits →
      Contained (dev i) ((s.staged i attr).view i (s.taken i attr).1) (s.taken i attr).1 al)
  | .unmap i attr => SysUnmapOk dev s i attr.streamid

def SysCall.Allowed (dev : Nat → SmmuDev) (s : System) (c : SysCall) : Prop :=
  c.Allocates dev s ∧ c.Ok dev s

end ServerSoc.Smmu
