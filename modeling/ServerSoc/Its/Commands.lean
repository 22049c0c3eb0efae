/-
LPI mappings through an ITS (bsa_gic_its.c).

A command is four 64-bit words.  The driver writes it at `g_cwriter_ptr`, which counts words from
the base of the queue, and writes the offset behind the commands of a call to `GITS_CWRITER`.
-/
import Mathlib.Logic.Function.Basic
import ServerSoc.Base.Bits
import ServerSoc.Memory.Spans

namespace ServerSoc.Its

open Base Function Memory Nat

def size4Kb : Nat := 0x1000
def numPages8 : Nat := 8
def itsNextCmdPtr : Nat := 4
def numBytesInDw : Nat := 8
def waitItsCommandDone : Nat := 10000
def armLpiMinIdbits : Nat := 14

def armItsCmdMapd : Nat := 0x8
def armItsCmdMapc : Nat := 0x9
def armItsCmdMapi : Nat := 0xB
def armItsCmdInv : Nat := 0xC
def armItsCmdDiscard : Nat := 0xF
def armItsCmdSync : Nat := 0x5

def itsCmdShiftDevid : Nat := 32
def itsCmdShiftValid : Nat := 63
def rdBaseShift : Nat := 16

def armGitsCbaserValid : Nat := 1 <<< 63
def armGitsCbaserPaMask : Nat := (1 <<< 40 - 1) <<< 12
def ittParMask : Nat := (1 <<< 44 - 1) <<< 8
def armGitsCreadrStall : Nat := 1 <<< 0
def armGitsCwriterRetry : Nat := 1 <<< 0

def armGicdTyperIdbits (gicdTyper : Nat) : Nat := (gicdTyper >>> 19) &&& 0x1F
def armGitsTyperIdbits (itsTyper : Nat) : Nat := (itsTyper >>> 8) &&& 0x1F
def armGitsTyperPta : Nat := 1 <<< 19
def armGicrTyperPnMask : Nat := 0xFFFF00
def armGicrTyperPnShift : Nat := 8

/-! ## State -/

structure ItsBlock where
  commandQBase : Nat
  ittBase : Nat
  idBits : Nat
  deriving DecidableEq, Repr

structure Write where
  its : Nat
  address : Nat
  value : Nat
  deriving DecidableEq, Repr

structure State where
  its : Nat → ItsBlock
  cwriterPtr : Nat → Nat
  setupDone : Bool
  /-- the registers `GITS_CBASER` and `GITS_CWRITER` of each ITS -/
  cbaser : Nat → Nat
  cwriter : Nat → Nat
  writes : List Write

/-- What the hardware and the allocators answer.  An address of 0 is a failed allocation. -/
structure Platform where
  gicNumIts : Nat
  gicdTyper : Nat
  gitsTyper : Nat → Nat
  gicRdBase : Nat
  gicrTyper : Nat
  redistributorStatus : Nat
  cwriterPtrAddress : Nat
  commandQAddress : Nat → Nat
  /-- the interrupt translation table, or `none` where a table was not allocated -/
  itsTables : Nat → Option Nat

/-! ## Initialisation -/

def getMin (a b : Nat) : Nat := if a < b then a else b

def setInitialConfiguration (p : Platform) (itsIndex : Nat) (s : State) : Nat × State :=
  let gicdTyperIdbits := armGicdTyperIdbits p.gicdTyper
  let gitsTyperBits := armGitsTyperIdbits (p.gitsTyper itsIndex)
  if getMin gicdTyperIdbits gitsTyperBits < armLpiMinIdbits then (1, s)
  else
    let block := { s.its itsIndex with idBits := getMin gicdTyperIdbits gitsTyperBits }
    (0, { s with its := update s.its itsIndex block })

/-- The old content of `GITS_CBASER` stays outside the address. -/
def armGicSetItsCommandQueueBase (p : Platform) (itsIndex : Nat) (s : State) : Nat × State :=
  let address := p.commandQAddress itsIndex
  if address = 0 then (1, s)
  else
    let writeValue := s.cbaser itsIndex &&& (2 ^ 64 - 1 - armGitsCbaserPaMask)
    let writeValue := writeValue ||| address &&& armGitsCbaserPaMask
    let writeValue := writeValue ||| armGitsCbaserValid ||| (numPages8 - 1)
    (0, { s with
      its := update s.its itsIndex { s.its itsIndex with commandQBase := address }
      cbaser := update s.cbaser itsIndex writeValue })

def armGicSetItsTables (p : Platform) (itsIndex : Nat) (s : State) : Nat × State :=
  match p.itsTables itsIndex with
  | none => (1, s)
  | some address =>
    (0, { s with its := update s.its itsIndex { s.its itsIndex with ittBase := address } })

def forEachIts (f : Nat → State → Nat × State) : List Nat → State → Nat × State
  | [], s => (0, s)
  | i :: rest, s =>
    let r := f i s
    if r.1 ≠ 0 then r else forEachIts f rest r.2

def setQueueAndTables (p : Platform) (itsIndex : Nat) (s : State) : Nat × State :=
  let r := armGicSetItsCommandQueueBase p itsIndex s
  if r.1 ≠ 0 then r else armGicSetItsTables p itsIndex r.2

/-- Without memory for `g_cwriter_ptr` the status is 0 all the same. -/
def valItsInit (p : Platform) (s : State) : Nat × State :=
  if p.cwriterPtrAddress = 0 then (0, s)
  else
    let s :=
      { s with cwriterPtr := fun index => if index < p.gicNumIts then 0 else s.cwriterPtr index }
    let r := forEachIts (setInitialConfiguration p) (List.range p.gicNumIts) s
    if r.1 ≠ 0 then r
    else if p.redistributorStatus ≠ 0 then (p.redistributorStatus, r.2)
    else
      let r := forEachIts (setQueueAndTables p) (List.range p.gicNumIts) r.2
      if r.1 ≠ 0 then r else (0, { r.2 with setupDone := true })

/-! ## Commands -/

def cmdWrites (itsIndex address : Nat) (words : Nat × Nat × Nat × Nat) : List Write :=
  [⟨itsIndex, address, words.1⟩, ⟨itsIndex, address + 8, words.2.1⟩,
    ⟨itsIndex, address + 16, words.2.2.1⟩, ⟨itsIndex, address + 24, words.2.2.2⟩]

def writeCmd (itsIndex cmdqBase : Nat) (words : Nat × Nat × Nat × Nat) (s : State) : State :=
  { s with
    writes := s.writes ++ cmdWrites itsIndex (cmdqBase + 8 * s.cwriterPtr itsIndex) words
    cwriterPtr := update s.cwriterPtr itsIndex
      ((s.cwriterPtr itsIndex + itsNextCmdPtr) % 2 ^ 32) }

def writeCmdQMapd (itsIndex cmdqBase deviceId ittBase size valid : Nat) (s : State) : State :=
  writeCmd itsIndex cmdqBase (deviceId <<< itsCmdShiftDevid ||| armItsCmdMapd, size,
    valid <<< itsCmdShiftValid ||| ittBase &&& ittParMask, 0) s

/-- `RDBase` is cut to 32 bits. -/
def writeCmdQMapc (itsIndex cmdqBase clctnId rdBase valid : Nat) (s : State) : State :=
  writeCmd itsIndex cmdqBase (armItsCmdMapc, 0,
    valid <<< itsCmdShiftValid ||| rdBase % 2 ^ 32 ||| clctnId, 0) s

def writeCmdQMapi (itsIndex cmdqBase deviceId intId clctnId : Nat) (s : State) : State :=
  writeCmd itsIndex cmdqBase (deviceId <<< itsCmdShiftDevid ||| armItsCmdMapi, intId, clctnId, 0) s

def writeCmdQInv (itsIndex cmdqBase deviceId intId : Nat) (s : State) : State :=
  writeCmd itsIndex cmdqBase (deviceId <<< itsCmdShiftDevid ||| armItsCmdInv, intId, 0, 0) s

def writeCmdQDiscard (itsIndex cmdqBase deviceId intId : Nat) (s : State) : State :=
  writeCmd itsIndex cmdqBase (deviceId <<< itsCmdShiftDevid ||| armItsCmdDiscard, intId, 0, 0) s

def writeCmdQSync (itsIndex cmdqBase rdBase : Nat) (s : State) : State :=
  writeCmd itsIndex cmdqBase (armItsCmdSync, 0, rdBase % 2 ^ 32, 0) s

/-- The loop of `PollTillCommandQueueDone` from its `k`-th read of `GITS_CREADR` on, with
`left` more turns.  The result is the content of `GITS_CWRITER`. -/
def pollLoop (creadr : Nat → Nat) (cwriterValue : Nat) : Nat → Nat → Nat → Nat
  | 0, _, cwriter => cwriter
  | left + 1, k, cwriter =>
    if creadr k = cwriterValue then cwriter
    else pollLoop creadr cwriterValue left (k + 1)
      (if creadr k &&& armGitsCreadrStall ≠ 0 then cwriterValue ||| armGitsCwriterRetry
        else cwriter)

def pollTillCommandQueueDone (creadr : Nat → Nat) (cwriter : Nat) : Nat :=
  pollLoop creadr cwriter (waitItsCommandDone + 1) 0 cwriter

def getRdBaseFormat (p : Platform) (itsIndex : Nat) : Nat :=
  if p.gitsTyper itsIndex &&& armGitsTyperPta ≠ 0 then p.gicRdBase
  else ((p.gicrTyper &&& armGicrTyperPnMask) >>> armGicrTyperPnShift) <<< rdBaseShift

/-- `GITS_CWRITER` is moved behind the commands, and the driver waits for the ITS. -/
def updateCwriter (creadr : Nat → Nat) (itsIndex : Nat) (s : State) : State :=
  let value := s.cwriterPtr itsIndex * numBytesInDw % 2 ^ 32
  { s with cwriter := update s.cwriter itsIndex (pollTillCommandQueueDone creadr value) }

def valItsClearLpiMap (p : Platform) (creadr : Nat → Nat) (itsIndex deviceId intId : Nat)
    (s : State) : State :=
  if s.setupDone = false then s
  else
    let itsCommandBase := (s.its itsIndex).commandQBase
    let rdBase := getRdBaseFormat p itsIndex
    let s := writeCmdQDiscard itsIndex itsCommandBase deviceId intId s
    let s := writeCmdQMapd itsIndex itsCommandBase deviceId (s.its itsIndex).ittBase 0 0 s
    let s := writeCmdQSync itsIndex itsCommandBase rdBase s
    updateCwriter creadr itsIndex s

def valItsCreateLpiMap (p : Platform) (creadr : Nat → Nat) (itsIndex deviceId intId : Nat)
    (s : State) : State :=
  if s.setupDone = false then s
  else
    let itsCommandBase := (s.its itsIndex).commandQBase
    let rdBase := getRdBaseFormat p itsIndex
    let s := writeCmdQMapd itsIndex itsCommandBase deviceId (s.its itsIndex).ittBase
      (s.its itsIndex).idBits 1 s
    let s := writeCmdQMapc itsIndex itsCommandBase 1 rdBase 1 s
    let s := writeCmdQMapi itsIndex itsCommandBase deviceId intId 1 s
    let s := writeCmdQInv itsIndex itsCommandBase deviceId intId s
    let s := writeCmdQSync itsIndex itsCommandBase rdBase s
    updateCwriter creadr itsIndex s

/-! # What an ITS does with the commands in its queue

A device table leads from a device to its interrupt translation table, and that table, which is in
memory, from an event to an interrupt and a collection.  A command with an error is ignored.
`MAPD` writes the entry of the device and leaves the memory of the table as it is. -/

/-! ## Commands -/

inductive Command where
  | mapd (device ittAddr size : Nat) (valid : Bool)
  | mapc (icid rdBase : Nat) (valid : Bool)
  | mapi (device event icid : Nat)
  | discard (device event : Nat)
  /-- a command that leaves the tables alone, such as `INV` and `SYNC` -/
  | other
  deriving DecidableEq, Repr

/-- The fields in the words of a command.  The last word has none. -/
def decode (words : Nat × Nat × Nat × Nat) : Command :=
  let opcode := words.1 % 2 ^ 8
  let device := words.1 / 2 ^ 32 % 2 ^ 32
  let event := words.2.1 % 2 ^ 32
  let icid := words.2.2.1 % 2 ^ 16
  let valid := words.2.2.1.testBit 63
  if opcode = armItsCmdMapd then
    .mapd device (words.2.2.1 &&& ittParMask) (words.2.1 % 2 ^ 5) valid
  else if opcode = armItsCmdMapc then .mapc icid (words.2.2.1 / 2 ^ 16 % 2 ^ 36) valid
  else if opcode = armItsCmdMapi then .mapi device event icid
  else if opcode = armItsCmdDiscard then .discard device event
  else .other

def commands : List Write → List (Nat × Command)
  | w0 :: w1 :: w2 :: w3 :: rest =>
    (w0.its, decode (w0.value, w1.value, w2.value, w3.value)) :: commands rest
  | _ => []

/-! ## Tables -/

structure DeviceEntry where
  ittAddr : Nat
  size : Nat
  deriving DecidableEq, Repr

structure IttEntry where
  intId : Nat
  icid : Nat
  deriving DecidableEq, Repr

/-- The device table and the collection table of every ITS, and the valid entries of the
interrupt translation tables in memory. -/
structure Tables where
  devices : Nat × Nat → Option DeviceEntry
  collections : Nat × Nat → Option Nat
  memory : Spans IttEntry

def noTables : Tables := ⟨fun _ => none, fun _ => none, Spans.empty⟩

section

variable (p : Platform)

def deviceBits (i : Nat) : Nat := ((p.gitsTyper i >>> 13) &&& 0x1F) + 1

def entryBytes (i : Nat) : Nat := ((p.gitsTyper i >>> 4) &&& 0xF) + 1

/-- The number of bits of a collection, 16 unless the ITS says that there are fewer. -/
def collectionBits (i : Nat) : Nat :=
  if (p.gitsTyper i).testBit 36 then ((p.gitsTyper i >>> 32) &&& 0xF) + 1 else 16

def armLpiMinid : Nat := 8192

def IsLpi (intId : Nat) : Prop :=
  armLpiMinid ≤ intId ∧ intId < 2 ^ (armGicdTyperIdbits p.gicdTyper + 1)

instance (intId : Nat) : Decidable (IsLpi p intId) := inferInstanceAs (Decidable (_ ∧ _))

def entryAddr (i : Nat) (e : DeviceEntry) (event : Nat) : Nat := e.ittAddr + event * entryBytes p i

def tableBytes (i : Nat) (e : DeviceEntry) : Nat := 2 ^ (e.size + 1) * entryBytes p i

def exec (i : Nat) (c : Command) (T : Tables) : Tables :=
  match c with
  | .mapd device ittAddr size valid =>
    if device < 2 ^ deviceBits p i ∧ (valid = true → size ≤ armGitsTyperIdbits (p.gitsTyper i)) then
      let entry := if valid then some ⟨ittAddr, size⟩ else none
      { T with devices := Function.update T.devices (i, device) entry }
    else T
  | .mapc icid rdBase valid =>
    if icid < 2 ^ collectionBits p i then
      let entry := if valid then some rdBase else none
      { T with collections := Function.update T.collections (i, icid) entry }
    else T
  | .mapi device event icid =>
    match T.devices (i, device) with
    | none => T
    | some e =>
      if event < 2 ^ (e.size + 1) ∧ icid < 2 ^ collectionBits p i ∧ IsLpi p event then
        { T with memory := T.memory.store (entryAddr p i e event) (entryBytes p i) ⟨event, icid⟩ }
      else T
  | .discard device event =>
    match T.devices (i, device) with
    | none => T
    | some e =>
      if event < 2 ^ (e.size + 1) ∧
          (T.memory.load (entryAddr p i e event) (entryBytes p i)).isSome then
        { T with memory := T.memory.clear (entryAddr p i e event) (entryBytes p i) }
      else T
  | .other => T

def execAll : List (Nat × Command) → Tables → Tables
  | [], T => T
  | c :: rest, T => execAll rest (exec p c.1 c.2 T)

def translate (T : Tables) (i device event : Nat) : Option (Nat × Nat) := do
  let e ← T.devices (i, device)
  if event < 2 ^ (e.size + 1) then
    let entry ← T.memory.load (entryAddr p i e event) (entryBytes p i)
    let rdBase ← T.collections (i, entry.icid)
    some (entry.intId, rdBase)
  else none

variable {p}

theorem entryBytes_pos (i : Nat) : 0 < entryBytes p i := succ_pos _

theorem execAll_append (cs cs' : List (Nat × Command)) (T : Tables) :
    execAll p (cs ++ cs') T = execAll p cs' (execAll p cs T) := by
  induction cs generalizing T with
  | nil => rfl
  | cons c rest ih => exact ih _

end

/-! ## The words of the driver -/

section

theorem first_word (device opcode : Nat) (h : opcode < 2 ^ 8) :
    (device <<< itsCmdShiftDevid ||| opcode) % 2 ^ 8 = opcode ∧
      (device <<< itsCmdShiftDevid ||| opcode) / 2 ^ 32 = device := by
  have hword : device <<< itsCmdShiftDevid ||| opcode = device * 2 ^ 32 + opcode :=
    shiftLeft_or (h.trans (by decide))
  omega

variable {device : Nat}

theorem decode_mapd {itt size : Nat} (hd : device < 2 ^ 32) (hal : itt % 2 ^ 8 = 0)
    (hitt : itt < 2 ^ 52) (hsize : size < 2 ^ 5) (valid : Bool) :
    decode (device <<< itsCmdShiftDevid ||| armItsCmdMapd, size,
      valid.toNat <<< itsCmdShiftValid ||| itt &&& ittParMask,
        0) = .mapd device itt size valid := by
  obtain ⟨hop, hdev⟩ := first_word device armItsCmdMapd (by decide)
  have hmask : itt &&& ittParMask = itt := and_mask_of_aligned (w := 44) hal hitt
  have hflag : valid.toNat <<< itsCmdShiftValid &&& ittParMask = 0 := by
    cases valid <;> decide
  have hbit : (valid.toNat <<< itsCmdShiftValid ||| itt).testBit 63 = valid := by
    rw [testBit_or, testBit_eq_false_of_lt (hitt.trans (by decide)), Bool.or_false]
    cases valid <;> decide
  simp only [decode, hop, if_true, hdev, mod_eq_of_lt hd, hmask, and_or_distrib_right, hflag, hbit,
    zero_or, mod_eq_of_lt hsize]

variable {rdBase event : Nat}

theorem mapc_word (hal : rdBase % 2 ^ 16 = 0) :
    1 <<< itsCmdShiftValid ||| rdBase % 2 ^ 32 ||| 1 = 2 ^ 63 + (rdBase % 2 ^ 32 + 1) := by
  have hlow : rdBase % 2 ^ 32 ||| 1 = rdBase % 2 ^ 32 + 1 := by
    have hor := shiftLeft_or (a := rdBase % 2 ^ 32 / 2 ^ 16) (b := 1) (k := 16) (by decide)
    rw [shiftLeft_eq, Nat.div_mul_cancel (dvd_of_mod_eq_zero (by omega))] at hor
    exact hor
  rw [Nat.or_assoc, hlow]
  exact shiftLeft_or (show _ < 2 ^ 63 by omega)

theorem decode_mapc (hal : rdBase % 2 ^ 16 = 0) :
    decode (armItsCmdMapc, 0, 1 <<< itsCmdShiftValid ||| rdBase % 2 ^ 32 ||| 1, 0) =
      .mapc 1 (rdBase % 2 ^ 32 / 2 ^ 16) true := by
  have hbit : (2 ^ 63 + (rdBase % 2 ^ 32 + 1)).testBit 63 = true := by
    rw [testBit_eq_decide_div_mod_eq, decide_eq_true_eq]
    omega
  have hicid : (2 ^ 63 + (rdBase % 2 ^ 32 + 1)) % 2 ^ 16 = 1 := by omega
  have hrd : (2 ^ 63 + (rdBase % 2 ^ 32 + 1)) / 2 ^ 16 % 2 ^ 36 = rdBase % 2 ^ 32 / 2 ^ 16 := by
    omega
  rw [mapc_word hal]
  simp only [decode, hbit, hicid, hrd]
  rfl

theorem decode_mapi (hd : device < 2 ^ 32) (he : event < 2 ^ 32) :
    decode (device <<< itsCmdShiftDevid ||| armItsCmdMapi, event, 1, 0) = .mapi device event 1 := by
  obtain ⟨hop, hdev⟩ := first_word device armItsCmdMapi (by decide)
  simp only [decode, hop, hdev, mod_eq_of_lt hd, mod_eq_of_lt he]
  rfl

theorem decode_discard (hd : device < 2 ^ 32) (he : event < 2 ^ 32) :
    decode (device <<< itsCmdShiftDevid ||| armItsCmdDiscard, event, 0, 0) =
      .discard device event := by
  obtain ⟨hop, hdev⟩ := first_word device armItsCmdDiscard (by decide)
  simp only [decode, hop, hdev, mod_eq_of_lt hd, mod_eq_of_lt he]
  rfl

theorem decode_inv (device event : Nat) :
    decode (device <<< itsCmdShiftDevid ||| armItsCmdInv, event, 0, 0) = .other := by
  simp only [decode, (first_word device armItsCmdInv (by decide)).1]
  rfl

end

end ServerSoc.Its
