/-
Functions of the bare-metal PAL: configuration accesses (pal_baremetal/pal_pcie_enumeration.c),
the device list, the search for a root port and words of capabilities (pal_baremetal/pal_pcie.c).

A read leaves the window of its bus in `pcie_index`, and a write takes the window from there.  The
search for a root port ends at the first function with a PCI Express capability, and the loop that
reads a word of a capability goes on from what it has read.
-/
import Mathlib.Data.List.Induction
import ServerSoc.Pcie.BusDev
import ServerSoc.Pcie.Lookup

namespace ServerSoc.Pcie.Baremetal

open Base List Option

/-! ## The window of an access -/

structure IndexState where
  pcieIndex : Nat
  enumerate : Bool
  deriving DecidableEq, Repr

structure Location where
  bus : Nat
  dev : Nat
  func : Nat
  offset : Nat
  deriving DecidableEq, Repr

inductive CfgCall where
  | read (l : Location)
  | write (l : Location) (data : Nat)
  deriving DecidableEq, Repr

def hasBus (bus : Nat) (b : PcieInfoBlock) : Bool := b.startBusNum ≤ bus && bus ≤ b.endBusNum

def target (blocks : List PcieInfoBlock) (index : Nat) (l : Location) : Nat × Nat :=
  (index, cfgAddress (blockAt blocks index).ecamBase l.bus l.dev l.func l.offset)

def palPciCfgRead (blocks : List PcieInfoBlock) (s : IndexState) (l : Location) :
    IndexState × (Nat × Nat) :=
  let index := if s.enumerate then s.pcieIndex
    else (blocks.findIdx? (hasBus l.bus)).getD s.pcieIndex
  ({ s with pcieIndex := index }, target blocks index l)

def palPciCfgWrite (blocks : List PcieInfoBlock) (s : IndexState) (l : Location) : Nat × Nat :=
  target blocks s.pcieIndex l

def afterEnumerate (blocks : List PcieInfoBlock) : IndexState := ⟨0, blocks.isEmpty⟩

def CfgCall.step (blocks : List PcieInfoBlock) (s : IndexState) : CfgCall → IndexState
  | .read l => (palPciCfgRead blocks s l).1
  | .write _ _ => s

def afterCalls (blocks : List PcieInfoBlock) (calls : List CfgCall) : IndexState :=
  calls.foldl (CfgCall.step blocks) (afterEnumerate blocks)

def WritesAgree (blocks : List PcieInfoBlock) (calls : List CfgCall) : Prop :=
  ∀ before l data after, calls = before ++ .write l data :: after →
    blocks.any (hasBus l.bus) = true →
    palPciCfgWrite blocks (afterCalls blocks before) l =
      (palPciCfgRead blocks (afterCalls blocks before) l).2

def CfgCall.window (blocks : List PcieInfoBlock) : CfgCall → Option Nat
  | .read l => blocks.findIdx? (hasBus l.bus)
  | .write _ _ => none

def lastWindow (blocks : List PcieInfoBlock) (calls : List CfgCall) : Nat :=
  ((calls.filterMap (CfgCall.window blocks)).getLast?).getD 0

theorem afterCalls_eq {blocks : List PcieInfoBlock} (hne : blocks.isEmpty = false)
    (calls : List CfgCall) : afterCalls blocks calls = ⟨lastWindow blocks calls, false⟩ := by
  induction calls using reverseRecOn with
  | nil => rw [← hne]; rfl
  | append_singleton calls c ih =>
    rw [afterCalls, foldl_append, ← afterCalls, ih]
    simp only [lastWindow]
    cases c with
    | write l data => simp [CfgCall.step, CfgCall.window]
    | read l =>
      cases h : blocks.findIdx? (hasBus l.bus) with
      | none => simp [CfgCall.step, CfgCall.window, palPciCfgRead]
      | some i => simp [CfgCall.step, CfgCall.window, palPciCfgRead]

theorem writesAgree_iff (blocks : List PcieInfoBlock) (calls : List CfgCall) :
    WritesAgree blocks calls ↔ ∀ before l data after, calls = before ++ .write l data :: after →
      blocks.any (hasBus l.bus) = true →
      blocks.findIdx? (hasBus l.bus) = some (lastWindow blocks before) := by
  refine forall₄_congr fun before l data after => forall₂_congr fun _ hbus => ?_
  have hne : blocks.isEmpty = false := by
    cases blocks with
    | nil => cases hbus
    | cons b rest => rfl
  obtain ⟨j, hj⟩ : ∃ j, blocks.findIdx? (hasBus l.bus) = some j := by
    rw [← isSome_iff_exists, findIdx?_isSome, hbus]
  rw [afterCalls_eq hne, palPciCfgRead, hj, some_inj]
  refine ⟨fun h => (congrArg Prod.fst h).symm, fun h => ?_⟩
  rw [h]
  rfl

def twoWindows : List PcieInfoBlock := [⟨0x40000000, 0, 0, 15⟩, ⟨0x60000000, 0, 16, 31⟩]

/-- Behind a read of the second window a write to the first one goes to the second. -/
theorem twoWindows_not_writesAgree :
    ¬ WritesAgree twoWindows [.read ⟨16, 0, 0, 0⟩, .write ⟨1, 0, 0, 4⟩ 7] := by
  intro h
  exact absurd (h [.read ⟨16, 0, 0, 0⟩] ⟨1, 0, 0, 4⟩ 7 [] rfl rfl) (by decide)

/-! ## The device list -/

/-- What `pal_pcie_read_cfg` reads in the function with a BDF at an offset. -/
abbrev CfgRead := Nat → Nat → Nat

def type0Header : Nat := 0
def deviceIdOffset : Nat := 16
def ccShift : Nat := 8

structure PcieReadBlock where
  classCode : Nat
  deviceId : Nat
  vendorId : Nat
  seg : Nat
  bus : Nat
  dev : Nat
  func : Nat
  deriving DecidableEq, Repr

def PcieReadBlock.bdf (d : PcieReadBlock) : Nat := palCreateBdf d.seg d.bus d.dev d.func

/-- The class code is a `uint64_t` that is shifted into a `uint32_t`. -/
def sameDevice (rd : CfgRead) (d : PcieReadBlock) (bdf : Nat) : Bool :=
  rd bdf type0Header &&& 0xFFFF == d.vendorId &&
    rd bdf type0Header >>> deviceIdOffset == d.deviceId &&
    rd bdf type01Ridr >>> ccShift == (d.classCode >>> ccShift) % 2 ^ 32

/-- The inner loop from index `i` on, with `left` entries in front of it.  `none` is a
mismatch, at which the function returns 1. -/
def searchBdf (rd : CfgRead) (table : List Nat) (d : PcieReadBlock) : Nat → Nat → Option Nat
  | 0, i => some i
  | left + 1, i =>
    let bdf := table.getD i 0
    if d.bdf = bdf then if sameDevice rd d bdf then some 0 else none
    else searchBdf rd table d left (i + 1)

def checkDevices (rd : CfgRead) (table : List Nat) : List PcieReadBlock → Nat → Nat
  | [], _ => 0
  | d :: rest, i =>
    match searchBdf rd table d (table.length - i) i with
    | none => 1
    | some i => if i = table.length then 1 else checkDevices rd table rest i

def palPcieCheckDeviceList (rd : CfgRead) (devices : List PcieReadBlock) (table : List Nat) : Nat :=
  if devices.length ≠ table.length then 1 else checkDevices rd table devices 0

theorem searchBdf_eq (rd : CfgRead) (table : List Nat) (d : PcieReadBlock) {left i : Nat}
    (h : i + left = table.length) :
    searchBdf rd table d left i = if d.bdf ∈ table.drop i then
      if sameDevice rd d d.bdf then some 0 else none else some table.length := by
  induction left generalizing i with
  | zero =>
    obtain rfl : i = table.length := h
    simp [searchBdf]
  | succ left ih =>
    have hi : i < table.length := by omega
    rw [searchBdf, drop_eq_getElem_cons hi, ih (by omega), getD_eq_getElem _ _ hi]
    by_cases heq : d.bdf = table[i]
    · simp [← heq]
    · simp only [mem_cons, heq, if_false, false_or]

/-- The index is 0 at every turn of the outer loop. -/
theorem checkDevices_eq_zero_iff (rd : CfgRead) (table : List Nat) (devices : List PcieReadBlock) :
    checkDevices rd table devices 0 = 0 ↔
      ∀ d ∈ devices, d.bdf ∈ table ∧ sameDevice rd d d.bdf = true := by
  induction devices with
  | nil => simp [checkDevices]
  | cons d rest ih =>
    rw [checkDevices, searchBdf_eq rd table d (by omega)]
    by_cases hmem : d.bdf ∈ table
    · have hlen := (length_pos_of_mem hmem).ne
      by_cases hsame : sameDevice rd d d.bdf = true
      · simp [hmem, hsame, hlen, ih]
      · simp [hmem, hsame]
    · simp [hmem]

structure Matches (rd : CfgRead) (d : PcieReadBlock) : Prop where
  vendorId : rd d.bdf 0 % 2 ^ 16 = d.vendorId
  deviceId : rd d.bdf 0 / 2 ^ 16 = d.deviceId
  classCode : rd d.bdf 8 / 2 ^ 8 = d.classCode / 2 ^ 8 % 2 ^ 32

theorem sameDevice_iff (rd : CfgRead) (d : PcieReadBlock) :
    sameDevice rd d d.bdf = true ↔ Matches rd d := by
  simp only [sameDevice, Bool.and_eq_true, beq_iff_eq, Nat.shiftRight_eq_div_pow,
    show rd d.bdf type0Header &&& 0xFFFF = _ from and_low _ 16]
  exact ⟨fun h => ⟨h.1.1, h.1.2, h.2⟩, fun h => ⟨⟨h.1, h.2⟩, h.3⟩⟩

theorem palPcieCheckDeviceList_eq_zero_iff (rd : CfgRead) (devices : List PcieReadBlock)
    (table : List Nat) :
    palPcieCheckDeviceList rd devices table = 0 ↔ devices.length = table.length ∧
      ∀ d ∈ devices, d.bdf ∈ table ∧ Matches rd d := by
  simp only [palPcieCheckDeviceList, ← sameDevice_iff, ← checkDevices_eq_zero_iff]
  split_ifs with h
  · simp [h]
  · simp [not_not.mp h]

/-! ## The root port of a function -/

section

variable (rd : CfgRead)

/-- The inner loop: the PCI Express capability, `some none` if the list has none. -/
def pcieCap (fuel bdf : Nat) : Option (Option Nat) :=
  walk (fun o => CidType.pcieCap.nextCapOffset (rd bdf o))
    (fun o => CidType.pcieCap.cid (rd bdf o) == cidPciecs) fuel (rd bdf type01Cpr &&& type01CprMask)

def dpType (bdf offset : Nat) : Nat :=
  1 <<< ((rd bdf (offset + cidrOffset) >>> ((pciecrOffset - cidrOffset) * 8 + pciecrDptShift)) &&&
    pciecrDptMask)

def isRootPort (bdf offset : Nat) : Bool :=
  dpType rd bdf offset == rp || dpType rd bdf offset == iEpRp

def coversBus (bdf bus : Nat) : Bool :=
  secBus (rd bdf type1Pbn) ≤ bus && bus ≤ subBus (rd bdf type1Pbn)

/-- The status and the BDF that is left in `*Seg`, `*Bus`, `*Dev` and `*Func`. -/
def searchRootPort (fuel bdf bus : Nat) : List Nat → Option (Nat × Nat)
  | [] => some (1, bdf)
  | b :: rest =>
    match pcieCap rd fuel b with
    | none => none
    | some none => searchRootPort fuel bdf bus rest
    | some (some o) =>
      if isRootPort rd b o && coversBus rd b bus then some (0, b) else some (2, bdf)

def palPcieGetRootPortBdf (fuel : Nat) (table : List Nat) (bdf : Nat) : Option (Nat × Nat) :=
  searchRootPort rd fuel bdf (pcieExtractBdfBus bdf) table

structure IsAbove (table : List Nat) (bdf port : Nat) : Prop where
  listed : port ∈ table
  segment : pcieExtractBdfSeg port = pcieExtractBdfSeg bdf
  rootPort : ∃ fuel o, pcieCap rd fuel port = some (some o) ∧ isRootPort rd port o = true
  covers : coversBus rd port (pcieExtractBdfBus bdf) = true

structure FindsRootPort (table : List Nat) (bdf : Nat) : Prop where
  found : ∀ port, IsAbove rd table bdf port →
    ∃ fuel, palPcieGetRootPortBdf rd fuel table bdf = some (0, port)
  missed : ∀ fuel r, palPcieGetRootPortBdf rd fuel table bdf = some r → r.1 ≠ 0 →
    ∀ port, ¬ IsAbove rd table bdf port

/-- The functions before it end their lists without a PCI Express capability. -/
def IsFirstCapable (table : List Nat) (b : Nat) : Prop :=
  ∃ before after, table = before ++ b :: after ∧ ∀ x ∈ before, ∃ fuel, pcieCap rd fuel x = some none

variable {rd} {fuel fuel' bdf bus port : Nat} {table : List Nat}

theorem searchRootPort_mono {r : Nat × Nat} (hle : fuel ≤ fuel')
    (h : searchRootPort rd fuel bdf bus table = some r) :
    searchRootPort rd fuel' bdf bus table = some r := by
  induction table with
  | nil => exact h
  | cons b rest ih =>
    rw [searchRootPort] at h ⊢
    cases hcap : pcieCap rd fuel b with
    | none =>
      rw [hcap] at h
      cases h
    | some o =>
      rw [hcap] at h
      rw [show pcieCap rd fuel' b = some o from walk_mono hcap hle]
      cases o with
      | none => exact ih h
      | some o => exact h

theorem searchRootPort_first {o : Nat} {after : List Nat} (before : List Nat)
    (hbefore : ∀ x ∈ before, ∃ fuel, pcieCap rd fuel x = some none)
    (hport : pcieCap rd fuel port = some (some o)) (hrp : isRootPort rd port o = true)
    (hbus : coversBus rd port bus = true) :
    ∃ fuel, searchRootPort rd fuel bdf bus (before ++ port :: after) = some (0, port) := by
  induction before with
  | nil => exact ⟨fuel, by simp [searchRootPort, hport, hrp, hbus]⟩
  | cons x before ih =>
    obtain ⟨hx, hrest⟩ := forall_mem_cons.mp hbefore
    obtain ⟨f, hf⟩ := hx
    obtain ⟨f', hf'⟩ := ih hrest
    refine ⟨max f f', ?_⟩
    rw [cons_append, searchRootPort, show pcieCap rd (max f f') x = some none from
      walk_mono hf (Nat.le_max_left f f')]
    exact searchRootPort_mono (Nat.le_max_right f f') hf'

theorem isFirstCapable_of_search (h : searchRootPort rd fuel bdf bus table = some (0, port)) :
    IsFirstCapable rd table port := by
  induction table with
  | nil => cases h
  | cons b rest ih =>
    rw [searchRootPort] at h
    split at h
    · cases h
    · rename_i hcap
      obtain ⟨before, after, rfl, hall⟩ := ih h
      exact ⟨b :: before, after, rfl, forall_mem_cons.mpr ⟨⟨fuel, hcap⟩, hall⟩⟩
    · split at h
      · obtain rfl : b = port := congrArg Prod.snd (some.inj h)
        exact ⟨[], rest, rfl, nofun⟩
      · cases h

theorem findsRootPort_iff (table : List Nat) (bdf : Nat) :
    FindsRootPort rd table bdf ↔ ∀ port, IsAbove rd table bdf port →
      IsFirstCapable rd table port := by
  refine ⟨fun h port hport => ?_, fun h => ?_⟩
  · obtain ⟨fuel, hfound⟩ := h.found port hport
    exact isFirstCapable_of_search hfound
  · have hfound : ∀ port, IsAbove rd table bdf port →
        ∃ fuel, palPcieGetRootPortBdf rd fuel table bdf = some (0, port) := by
      intro port hport
      obtain ⟨before, after, rfl, hbefore⟩ := h port hport
      obtain ⟨fuel, o, hcap, hrp⟩ := hport.rootPort
      exact searchRootPort_first before hbefore hcap hrp hport.covers
    refine ⟨hfound, fun fuel r hr hne port hport => hne ?_⟩
    obtain ⟨fuel', hzero⟩ := hfound port hport
    have hmax := searchRootPort_mono (Nat.le_max_left fuel fuel') hr
    rw [searchRootPort_mono (Nat.le_max_right fuel fuel') hzero, some_inj] at hmax
    rw [← hmax]

end

/-- A host bridge without capabilities, the endpoint 0:1.0 and the root port 0:2.0 of bus 1. -/
def portBehindEndpoint : CfgRead := fun bdf offset =>
  if offset = type01Cpr then if bdf = 0 then 0 else 0x40
  else if offset = 0x40 then if bdf = 0x200 then 0x420010 else 0x020010
  else 0x010100

theorem portBehindEndpoint_not_found :
    ¬ FindsRootPort portBehindEndpoint [0, 0x100, 0x200] 0x10000 := by
  intro h
  refine h.missed 2 (2, 0x10000) rfl (by decide) 0x200 ?_
  exact ⟨by decide, rfl, ⟨1, 0x40, rfl, rfl⟩, rfl⟩

/-! ## A word of an extended capability -/

section

variable (rd : CfgRead) (bdf extCapId offset : Nat)

def hasExtCapId (o : Nat) : Bool := rd bdf o &&& 0xffff == extCapId

/-- The loop of `pal_pcie_read_ext_cap_word`, with what is in `*val`. -/
def readExtCapWord : Nat → Nat → Nat → Option Nat
  | 0, _, _ => none
  | fuel + 1, nextCapOffset, val =>
    if nextCapOffset = 0 then some val
    else if hasExtCapId rd bdf extCapId nextCapOffset then
      let regValue := rd bdf (nextCapOffset + offset)
      readExtCapWord fuel (CidType.pcieEcap.nextCapOffset regValue) (regValue &&& 0xffff)
    else readExtCapWord fuel (CidType.pcieEcap.nextCapOffset (rd bdf nextCapOffset)) val

def palPcieReadExtCapWord (fuel val : Nat) : Option Nat :=
  readExtCapWord rd bdf extCapId offset fuel pcieEcapStart val

/-- The headers from `o` on lead to the structure `r` as the first one with the id, or to the end
of the list. -/
def Leads (o : Nat) (r : Option Nat) : Prop :=
  ∃ fuel, walk (fun o => CidType.pcieEcap.nextCapOffset (rd bdf o)) (hasExtCapId rd bdf extCapId)
    fuel o = some r

def extCapWord (x : Nat) : Nat := rd bdf (x + offset) &&& 0xffff

/-- Bits 31:20 of the dword at the offset in the structure at `x`, read as the next pointer. -/
def dataLink (x : Nat) : Nat := CidType.pcieEcap.nextCapOffset (rd bdf (x + offset))

/-- Over the dwords at the offset, the structure at `x` leads to the one at `y` and from there to
the end of the list. -/
def LeadsOut (x y : Nat) : Prop :=
  Relation.ReflTransGen (fun a b => Leads rd bdf extCapId (dataLink rd bdf offset a) (some b)) x y ∧
    Leads rd bdf extCapId (dataLink rd bdf offset y) none

variable {rd bdf extCapId offset} {o val v : Nat}

theorem Leads.step {r : Option Nat} (ho : o ≠ 0) (hid : hasExtCapId rd bdf extCapId o = false)
    (h : Leads rd bdf extCapId (CidType.pcieEcap.nextCapOffset (rd bdf o)) r) :
    Leads rd bdf extCapId o r := by
  obtain ⟨fuel, h⟩ := h
  exact ⟨fuel + 1, by simp [walk, ho, hid, h]⟩

theorem leadsOut_of_reads {fuel : Nat}
    (h : readExtCapWord rd bdf extCapId offset fuel o val = some v) :
    (Leads rd bdf extCapId o none ∧ v = val) ∨ ∃ x y, Leads rd bdf extCapId o (some x) ∧
      LeadsOut rd bdf extCapId offset x y ∧ v = extCapWord rd bdf offset y := by
  induction fuel generalizing o val with
  | zero => cases h
  | succ fuel ih =>
    rw [readExtCapWord] at h
    split_ifs at h with ho hid
    · exact .inl ⟨⟨1, by simp [walk, ho]⟩, (some.inj h).symm⟩
    · have hhere : Leads rd bdf extCapId o (some o) := ⟨1, by simp [walk, ho, hid]⟩
      rcases ih h with ⟨hend, hv⟩ | ⟨x, y, hx, ⟨hxy, hend⟩, hv⟩
      · exact .inr ⟨o, o, hhere, ⟨.refl, hend⟩, hv⟩
      · exact .inr ⟨o, y, hhere, ⟨.head hx hxy, hend⟩, hv⟩
    · have hid' := Bool.eq_false_of_not_eq_true hid
      rcases ih h with ⟨hend, hv⟩ | ⟨x, y, hx, hout⟩
      · exact .inl ⟨hend.step ho hid', hv⟩
      · exact .inr ⟨x, y, hx.step ho hid', hout⟩

theorem reads_of_leads_none (h : Leads rd bdf extCapId o none) (val : Nat) :
    ∃ fuel, readExtCapWord rd bdf extCapId offset fuel o val = some val := by
  obtain ⟨fuel, h⟩ := h
  refine ⟨fuel, ?_⟩
  induction fuel generalizing o with
  | zero => cases h
  | succ fuel ih =>
    rw [walk] at h
    rw [readExtCapWord]
    split_ifs at h ⊢
    · rfl
    · cases h
    · exact ih h

theorem reads_of_leads_some {x : Nat} (h : Leads rd bdf extCapId o (some x)) (val : Nat)
    (hx : ∃ fuel, readExtCapWord rd bdf extCapId offset fuel (dataLink rd bdf offset x)
      (extCapWord rd bdf offset x) = some v) :
    ∃ fuel, readExtCapWord rd bdf extCapId offset fuel o val = some v := by
  obtain ⟨fuel, h⟩ := h
  induction fuel generalizing o with
  | zero => cases h
  | succ fuel ih =>
    rw [walk] at h
    split_ifs at h with ho hid
    · cases h
    · cases h
      obtain ⟨f, hf⟩ := hx
      exact ⟨f + 1, by rwa [readExtCapWord, if_neg ho, if_pos hid]⟩
    · obtain ⟨f, hf⟩ := ih h
      exact ⟨f + 1, by rwa [readExtCapWord, if_neg ho, if_neg hid]⟩

theorem LeadsOut.reads {x y : Nat} (h : LeadsOut rd bdf extCapId offset x y)
    (ho : Leads rd bdf extCapId o (some x)) (val : Nat) :
    ∃ fuel, readExtCapWord rd bdf extCapId offset fuel o val =
      some (extCapWord rd bdf offset y) := by
  obtain ⟨hxy, hend⟩ := h
  induction hxy using Relation.ReflTransGen.head_induction_on generalizing o val with
  | refl => exact reads_of_leads_some ho val (reads_of_leads_none hend _)
  | head hstep _ ih => exact reads_of_leads_some ho val (ih hstep _)

/-- The word is left exactly when the dwords at the offset lead from the structure to an end, and
the last structure with the id on the way, which may be the same one, has this word. -/
theorem palPcieReadExtCapWord_iff {l : List Nat} {x : Nat}
    (hl : Chain (fun o => CidType.pcieEcap.nextCapOffset (rd bdf o)) pcieEcapStart l)
    (hone : l.filter (hasExtCapId rd bdf extCapId) = [x]) (val : Nat) :
    (∃ fuel, palPcieReadExtCapWord rd bdf extCapId offset fuel val =
        some (extCapWord rd bdf offset x)) ↔
      ∃ y, LeadsOut rd bdf extCapId offset x y ∧
        extCapWord rd bdf offset y = extCapWord rd bdf offset x := by
  have hfirst : Leads rd bdf extCapId pcieEcapStart (some x) :=
    ⟨l.length + 1, by rw [walk_of_chain hl (Nat.lt_succ_self _), ← head?_filter, hone, head?_cons]⟩
  constructor
  · rintro ⟨fuel, h⟩
    obtain ⟨f, hf⟩ := hfirst
    rcases leadsOut_of_reads h with ⟨⟨f', hend⟩, -⟩ | ⟨x', y, ⟨f', hx'⟩, hout, hv⟩
    · cases walk_unique hf hend
    · cases walk_unique hf hx'
      exact ⟨y, hout, hv.symm⟩
  · rintro ⟨y, hout, hy⟩
    rw [← hy]
    exact hout.reads hfirst val

end

/-- One structure with id 0x10 at 0x100, with `data` behind its header, and one with another id
that is not on the list. -/
def oneExtCap (data : Nat) : CfgRead := fun _ o =>
  if o = 0x100 then 0x10 else if o = 0x200 then 0x11 else data

theorem palPcieReadExtCapWord_beside :
    ∃ fuel, palPcieReadExtCapWord (oneExtCap 0x20000007) 0 0x10 4 fuel 0 = some 0x7 :=
  (palPcieReadExtCapWord_iff (.cons (by decide) .nil) (by decide)
    0).mpr ⟨0x100, ⟨.refl, 2, by decide⟩, rfl⟩

theorem palPcieReadExtCapWord_endless :
    ¬ ∃ fuel, palPcieReadExtCapWord (oneExtCap 0x10000007) 0 0x10 4 fuel 0 = some 0x7 := by
  have hnone : ∀ fuel val, readExtCapWord (oneExtCap 0x10000007) 0 0x10 4 fuel 0x100 val =
      none := by
    intro fuel
    induction fuel with
    | zero => exact fun _ => rfl
    | succ fuel ih => exact fun _ => ih 7
  rintro ⟨fuel, h⟩
  cases (hnone fuel 0).symm.trans h

end ServerSoc.Pcie.Baremetal
