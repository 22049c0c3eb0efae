/-
Filling the hart info table from the MADT and the RHCT (pal_uefi_acpi/src/pal_hart.c) and its
accessors (acs_hart.c).

`MadtAt img rs` says that `img` is a well-formed MADT with the records `rs`, and `RhctAt img ns`
that it is a well-formed RHCT with the nodes `ns`, named by their positions in the list.  The field
offsets are those of the packed structures the UEFI patch adds to Acpi65.h.

The table is a byte buffer, and `mmu_type`, which only the VAL has, is the first byte of the
padding behind an entry of the PAL.  `none` is a loop over the MADT that the fuel did not end.
-/
import ServerSoc.Memory.Bytes

namespace ServerSoc.Hart

open Memory

/-! ## MADT -/

/-- `EFI_ACPI_6_5_RINTC`. -/
def typeRintc : Nat := 0x18

def madtHeaderSize : Nat := 44

def rintcSize : Nat := 36

structure Rintc where
  flags : Nat
  hartId : Nat
  acpiProcessorUid : Nat
  externalIntcId : Nat
  imsicBase : Nat
  imsicSize : Nat
  deriving DecidableEq, Repr

def readRintc (img : Mem) (a : Nat) : Rintc where
  flags := load img (a + 4) 4
  hartId := load img (a + 8) 8
  acpiProcessorUid := load img (a + 16) 4
  externalIntcId := load img (a + 20) 4
  imsicBase := load img (a + 24) 8
  imsicSize := load img (a + 32) 4

inductive RecordInfo where
  | rintc (r : Rintc)
  | other (type : Nat)
  deriving DecidableEq, Repr

structure MadtRecord where
  length : Nat
  info : RecordInfo
  deriving DecidableEq, Repr

def RecordInfoAt (img : Mem) (a length : Nat) : RecordInfo → Prop
  | .rintc r => load img a 1 = typeRintc ∧ rintcSize ≤ length ∧ readRintc img a = r
  | .other type => load img a 1 = type ∧ type ≠ typeRintc ∧ 2 ≤ length

instance (img : Mem) (a length : Nat) : ∀ info, Decidable (RecordInfoAt img a length info)
  | .rintc _ => inferInstanceAs (Decidable (_ ∧ _))
  | .other _ => inferInstanceAs (Decidable (_ ∧ _))

def RecordAt (img : Mem) (a : Nat) (r : MadtRecord) : Prop :=
  load img (a + 1) 1 = r.length ∧ RecordInfoAt img a r.length r.info

instance (img : Mem) (a : Nat) (r : MadtRecord) : Decidable (RecordAt img a r) :=
  inferInstanceAs (Decidable (_ ∧ _))

def RecordsAt (img : Mem) (a : Nat) : List MadtRecord → Nat → Prop
  | [], e => a = e
  | r :: rs, e => RecordAt img a r ∧ RecordsAt img (a + r.length) rs e

instance decidableRecordsAt (img : Mem) :
    ∀ (a : Nat) (rs : List MadtRecord) (e : Nat), Decidable (RecordsAt img a rs e)
  | a, [], e => inferInstanceAs (Decidable (a = e))
  | a, r :: rs, e =>
    have := decidableRecordsAt img (a + r.length) rs e
    inferInstanceAs (Decidable (RecordAt img a r ∧ _))

def tableLength (img : Mem) : Nat := load img 4 4

def MadtAt (img : Mem) (rs : List MadtRecord) : Prop :=
  RecordsAt img madtHeaderSize rs (tableLength img)

instance (img : Mem) (rs : List MadtRecord) : Decidable (MadtAt img rs) :=
  decidableRecordsAt img madtHeaderSize rs (tableLength img)

variable {img : Mem} {a e : Nat}

theorem RecordAt.length_pos {r : MadtRecord} (h : RecordAt img a r) : 2 ≤ r.length := by
  have hinfo := h.2
  cases hr : r.info with
  | rintc x =>
    rw [hr, RecordInfoAt, rintcSize] at hinfo
    omega
  | other type =>
    rw [hr] at hinfo
    exact hinfo.2.2

theorem le_of_recordsAt {rs : List MadtRecord} (h : RecordsAt img a rs e) : a + rs.length ≤ e := by
  induction rs generalizing a with
  | nil => exact h.le
  | cons r rs ih =>
    have hpos := h.1.length_pos
    have hrest := ih h.2
    rw [List.length_cons]
    omega

/-! ## RHCT -/

def typeIsaString : Nat := 0
def typeMmu : Nat := 2
def typeHartInfo : Nat := 65535

inductive NodeInfo where
  | isaString (string : List UInt8)
  | mmu (mmuType : Nat)
  | hartInfo (acpiProcessorUid : Nat) (nodes : List Nat)
  | other (type : Nat)
  deriving DecidableEq, Repr

structure RhctNode where
  length : Nat
  info : NodeInfo
  deriving DecidableEq, Repr

def RhctNode.type (n : RhctNode) : Nat :=
  match n.info with
  | .isaString _ => typeIsaString
  | .mmu _ => typeMmu
  | .hartInfo _ _ => typeHartInfo
  | .other type => type

def nodeOffset (a : Nat) (ns : List RhctNode) (k : Nat) : Nat :=
  a + ((ns.take k).map RhctNode.length).sum

def NumbersAt (img : Mem) (w : Nat) (a : Nat) : List Nat → Prop
  | [] => True
  | v :: vs => load img a w = v ∧ NumbersAt img w (a + w) vs

instance decidableNumbersAt (img : Mem) (w : Nat) :
    ∀ (a : Nat) (vs : List Nat), Decidable (NumbersAt img w a vs)
  | _, [] => isTrue trivial
  | a, v :: vs =>
    have := decidableNumbersAt img w (a + w) vs
    inferInstanceAs (Decidable (load img a w = v ∧ _))

theorem NumbersAt.getElem {w : Nat} {vs : List Nat} (h : NumbersAt img w a vs) {i : Nat}
    (hi : i < vs.length) : load img (a + w * i) w = vs[i] := by
  induction vs generalizing a i with
  | nil => exact absurd hi (Nat.not_lt_zero i)
  | cons v vs ih =>
    cases i with
    | zero => exact h.1
    | succ i =>
      rw [Nat.mul_succ, add_comm (w * i) w, ← add_assoc]
      exact ih h.2 (Nat.lt_of_succ_lt_succ hi)

/-- What depends on the type of a node of the table `all`, whose first node is at `off`.  An
ISA string ends with NUL. -/
def NodeInfoAt (img : Mem) (off : Nat) (all : List RhctNode) (a length : Nat) : NodeInfo → Prop
  | .isaString s => 8 + s.length ≤ length ∧ load img (a + 6) 2 = s.length ∧
      NumbersAt img 1 (a + 8) (s.map UInt8.toNat) ∧ s.getLast? = some 0
  | .mmu t => 8 ≤ length ∧ load img (a + 7) 1 = t
  | .hartInfo uid nodes => 12 + 4 * nodes.length ≤ length ∧ load img (a + 6) 2 = nodes.length ∧
      load img (a + 8) 4 = uid ∧ (∀ j ∈ nodes, j < all.length) ∧
      NumbersAt img 4 (a + 12) (nodes.map (nodeOffset off all))
  | .other type => 6 ≤ length ∧ type ≠ typeIsaString ∧ type ≠ typeMmu ∧ type ≠ typeHartInfo

instance (img : Mem) (off : Nat) (all : List RhctNode) (a length : Nat) :
    ∀ info, Decidable (NodeInfoAt img off all a length info)
  | .isaString _ => inferInstanceAs (Decidable (_ ∧ _))
  | .mmu _ => inferInstanceAs (Decidable (_ ∧ _))
  | .hartInfo _ _ => inferInstanceAs (Decidable (_ ∧ _))
  | .other _ => inferInstanceAs (Decidable (_ ∧ _))

def NodeAt (img : Mem) (off : Nat) (all : List RhctNode) (a : Nat) (n : RhctNode) : Prop :=
  load img a 2 = n.type ∧ load img (a + 2) 2 = n.length ∧ NodeInfoAt img off all a n.length n.info

instance (img : Mem) (off : Nat) (all : List RhctNode) (a : Nat) (n : RhctNode) :
    Decidable (NodeAt img off all a n) := inferInstanceAs (Decidable (_ ∧ _))

def NodesAt (img : Mem) (off : Nat) (all : List RhctNode) (a : Nat) : List RhctNode → Nat → Prop
  | [], e => a = e
  | n :: ns, e => NodeAt img off all a n ∧ NodesAt img off all (a + n.length) ns e

instance decidableNodesAt (img : Mem) (off : Nat) (all : List RhctNode) :
    ∀ (a : Nat) (ns : List RhctNode) (e : Nat), Decidable (NodesAt img off all a ns e)
  | a, [], e => inferInstanceAs (Decidable (a = e))
  | a, n :: ns, e =>
    have := decidableNodesAt img off all (a + n.length) ns e
    inferInstanceAs (Decidable (NodeAt img off all a n ∧ _))

def rhctNodeNumber (img : Mem) : Nat := load img 48 4
def rhctNodeOffset (img : Mem) : Nat := load img 52 4

def IsaOf (ns : List RhctNode) (uid : Nat) (s : List UInt8) : Prop :=
  ∃ n ∈ ns, ∃ nodes, n.info = .hartInfo uid nodes ∧
    ∃ j ∈ nodes, ∃ m, ns[j]? = some m ∧ m.info = .isaString s

def MmuOf (ns : List RhctNode) (uid t : Nat) : Prop :=
  ∃ n ∈ ns, ∃ nodes, n.info = .hartInfo uid nodes ∧
    ∃ j ∈ nodes, ∃ m, ns[j]? = some m ∧ m.info = .mmu t

/-- A processor has one ISA string and at most one MMU type. -/
structure RhctAt (img : Mem) (ns : List RhctNode) : Prop where
  number : rhctNodeNumber img = ns.length
  offset : 56 ≤ rhctNodeOffset img
  nodes : NodesAt img (rhctNodeOffset img) ns (rhctNodeOffset img) ns (tableLength img)
  isa : ∀ uid s s', IsaOf ns uid s → IsaOf ns uid s' → s = s'
  mmu : ∀ uid t t', MmuOf ns uid t → MmuOf ns uid t' → t = t'

theorem nodeAt_of_nodesAt {off : Nat} {all ns : List RhctNode} (h : NodesAt img off all a ns e)
    {k : Nat} {n : RhctNode} (hn : ns[k]? = some n) : NodeAt img off all (nodeOffset a ns k) n := by
  induction ns generalizing a k with
  | nil => cases hn
  | cons m ns ih =>
    cases k with
    | zero =>
      cases hn
      exact h.1
    | succ k =>
      rw [show nodeOffset a (m :: ns) (k + 1) = nodeOffset (a + m.length) ns k by
        simp [nodeOffset, add_assoc]]
      exact ih h.2 hn

/-! ## Layout -/

def entrySize : Nat := 552

def entryBase (k : Nat) : Nat := 8 + entrySize * k

def offHartNum : Nat := 0
def offHartId : Nat := 8
def offAcpiProcessorUid : Nat := 16
def offExtIntcId : Nat := 20
def offImsicBase : Nat := 24
def offImsicSize : Nat := 32
def offIsaString : Nat := 36
def offMmuType : Nat := 548

def isaStringSize : Nat := 512

/-! ## Filling the table -/

def enabledBit (flags : Nat) : Nat := flags &&& 0x1

/-- The macro compares where it should shift. -/
def onlineCapBit (flags : Nat) : Nat := (if flags > 1 then 1 else 0) &&& 0x1

def Usable (flags : Nat) : Prop := enabledBit flags = 1 ∨ onlineCapBit flags = 1

instance (flags : Nat) : Decidable (Usable flags) := inferInstanceAs (Decidable (_ ∨ _))

def copyMem (tbl : Mem) (dst : Nat) (img : Mem) (src len : Nat) : Mem :=
  fun x => if dst ≤ x ∧ x < dst + len then img (src + (x - dst)) else tbl x

/-- A node that the hart info node names.  A string that is too long is reported, and copied. -/
def visitNode (rhct : Mem) (ptr : Nat) (tbl : Mem) (node : Nat) : Mem :=
  if load rhct node 2 = typeIsaString then
    copyMem tbl (ptr + offIsaString) rhct (node + 8) (load rhct (node + 6) 2)
  else tbl

def visitOffsets (rhct : Mem) (hartInfoNode ptr : Nat) (tbl : Mem) : Mem :=
  (List.range (load rhct (hartInfoNode + 6) 2)).foldl
    (fun tbl index2 => visitNode rhct ptr tbl (load rhct (hartInfoNode + 12 + 4 * index2) 4)) tbl

def visitNodes (rhct : Mem) (uid ptr : Nat) : Nat → Nat → Mem → Mem
  | 0, _, tbl => tbl
  | left + 1, hartInfoNode, tbl =>
    let tbl :=
      if load rhct hartInfoNode 2 = typeHartInfo ∧ load rhct (hartInfoNode + 8) 4 = uid then
        visitOffsets rhct hartInfoNode ptr tbl
      else tbl
    visitNodes rhct uid ptr left (hartInfoNode + load rhct (hartInfoNode + 2) 2) tbl

def createHart (madt rhct : Mem) (entry ptr : Nat) (tbl : Mem) : Mem :=
  let tbl := store tbl (ptr + offHartId) 8 (load madt (entry + 8) 8)
  let tbl := store tbl (ptr + offHartNum) 4 (load tbl 0 4)
  let tbl := store tbl (ptr + offAcpiProcessorUid) 4 (load madt (entry + 16) 4)
  let tbl := store tbl (ptr + offExtIntcId) 4 (load madt (entry + 20) 4)
  let tbl := store tbl (ptr + offImsicBase) 8 (load madt (entry + 24) 8)
  let tbl := store tbl (ptr + offImsicSize) 4 (load madt (entry + 32) 4)
  let tbl := visitNodes rhct (load madt (entry + 16) 4) ptr (rhctNodeNumber rhct)
    (rhctNodeOffset rhct) tbl
  store tbl 0 4 (load tbl 0 4 + 1)

def createHarts (madt rhct : Mem) : Nat → Nat → Nat → Nat → Mem → Option Mem
  | 0, _, _, _, _ => none
  | fuel + 1, entry, length, ptr, tbl =>
    let usable := load madt entry 1 = typeRintc ∧ Usable (load madt (entry + 4) 4)
    let tbl := if usable then createHart madt rhct entry ptr tbl else tbl
    let ptr := if usable then ptr + entrySize else ptr
    let entryLength := load madt (entry + 1) 1
    let length := (length + entryLength) % 2 ^ 32
    if length < tableLength madt then createHarts madt rhct fuel (entry + entryLength)
      length ptr tbl
    else some tbl

/-- `madt` and `rhct` are what the PAL finds in the XSDT. -/
def palHartCreateInfoTable (madt rhct : Option Mem) (tbl : Mem) : Option Mem :=
  let tbl := store tbl 0 4 0
  match madt, rhct with
  | some madt, some rhct =>
    createHarts madt rhct (tableLength madt + 1) madtHeaderSize madtHeaderSize (entryBase 0) tbl
  | _, _ => some tbl

/-! ## Accessors -/

def numOfHart (t : Mem) : Nat := load t 0 4

/-- The place of the string, `none` for NULL.  The index may be one too large. -/
def valHartGetIsaString (t : Mem) (index : Nat) : Option Nat :=
  if index > numOfHart t then none else some (entryBase index + offIsaString)

def valHartGetMmuType (t : Mem) (index : Nat) : Nat :=
  if index > numOfHart t then 0 else load t (entryBase index + offMmuType) 1

end ServerSoc.Hart
