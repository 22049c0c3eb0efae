/-
Bring-up of the SMMUs (smmu_v3.c, smmu_reg.h).

The hardware answers the reads of SMMU_CR0ACK after each write of SMMU_CR0 in any way.
`smmu_reg_write_sync` returns 1 when the acknowledge does not come, `smmu_reset` passes this on and
returns 1 at its end too, and `smmu_init` takes 0 for the failure.
-/
import ServerSoc.Smmu.CmdQueue
import ServerSoc.Smmu.Device
import Mathlib.Data.Nat.Find

namespace ServerSoc.Smmu

open Base Nat

/-! ## Registers -/

def acsStatusErr : Nat := 0xEDCB1234

def maxSid : Nat := 32

def idr0StLevel (data : Nat) : Nat := getField 2 27 data
def idr0StLevel2lvl : Nat := 1
def idr0Cd2l : Nat := 1 <<< 19
def idr0Hyp : Nat := 1 <<< 9
def idr0Ttf (data : Nat) : Nat := getField 2 2 data
def idr0TtfAarch64 : Nat := 2
def idr0TtfAarch32_64 : Nat := 3
def idr0S1p : Nat := 1 <<< 1
def idr0S2p : Nat := 1 <<< 0

def idr1TablesPreset : Nat := 1 <<< 30
def idr1QueuesPreset : Nat := 1 <<< 29
def idr1Cmdqs (data : Nat) : Nat := getField 5 21 data
def idr1Evntqs (data : Nat) : Nat := getField 5 16 data
def idr1Ssidsize (data : Nat) : Nat := getField 5 6 data
def idr1Sidsize (data : Nat) : Nat := getField 6 0 data

def idr5Oas (data : Nat) : Nat := getField 3 0 data
def smmuOas : List Nat := [32, 36, 40, 42, 44, 48, 52]

def cr0Cmdqen : Nat := 1 <<< 3
def cr0Evntqen : Nat := 1 <<< 2
def cr0Smmuen : Nat := 1 <<< 0

/-- An SMMU of the IOVIRT table.  `cr0ack i n` is the value of the `n`-th read of
SMMU_CR0ACK after the `i`-th write of SMMU_CR0. -/
structure SmmuHw where
  archMajorRev : Nat
  base : Nat
  idr0 : Nat
  idr1 : Nat
  idr5 : Nat
  cr0ack : Nat → Nat → Nat

/-! ## Probe -/

structure Probed where
  stLevel2lvl : Bool
  cd2l : Bool
  hyp : Bool
  s1p : Bool
  s2p : Bool
  cmdqLog2nent : Nat
  evntqLog2nent : Nat
  sidBits : Nat
  ssidBits : Nat
  ias : Nat
  oas : Nat
  deriving DecidableEq, Repr

/-- `none` is the return of 0.  `ias` is 0 before, and stays so for the format that is
AArch64 only. -/
def smmuProbe (hw : SmmuHw) : Option Probed :=
  let sidBits := if idr1Sidsize hw.idr1 < maxSid then idr1Sidsize hw.idr1 else maxSid
  let oas := smmuOas.getD (idr5Oas hw.idr5) 0
  if hw.idr0 &&& (idr0S1p ||| idr0S2p) = 0 then none
  else if idr0Ttf hw.idr0 ≠ idr0TtfAarch32_64 ∧ idr0Ttf hw.idr0 ≠ idr0TtfAarch64 then none
  else if hw.idr1 &&& (idr1TablesPreset ||| idr1QueuesPreset) ≠ 0 then none
  else if smmuOas.length ≤ idr5Oas hw.idr5 then none
  else some {
    stLevel2lvl := idr0StLevel hw.idr0 = idr0StLevel2lvl ∧ strtabSplit < sidBits
    cd2l := hw.idr0 &&& idr0Cd2l ≠ 0
    hyp := hw.idr0 &&& idr0Hyp ≠ 0
    s1p := hw.idr0 &&& idr0S1p ≠ 0
    s2p := hw.idr0 &&& idr0S2p ≠ 0
    cmdqLog2nent := idr1Cmdqs hw.idr1
    evntqLog2nent := idr1Evntqs hw.idr1
    sidBits := sidBits
    ssidBits := idr1Ssidsize hw.idr1
    ias := max (if idr0Ttf hw.idr0 = idr0TtfAarch32_64 then 40 else 0) oas
    oas := oas }

/-- The device of the stream table functions, with its table at `strtabPtr`. -/
def Probed.smmuDev (p : Probed) (strtabPtr : Nat) : SmmuDev where
  sidBits := p.sidBits
  stLevel2lvl := p.stLevel2lvl
  cd2l := p.cd2l
  s1p := p.s1p
  s2p := p.s2p
  strtabPtr := strtabPtr

/-! ## Allocations -/

inductive Request where
  | gSmmu
  | cmdq (i : Nat)
  | evntq (i : Nat)
  | strtab (i : Nat)
  | l1Desc (i : Nat)
  deriving DecidableEq, Repr

def evntqDwordsPerEnt : Nat := 4

def sizeofSmmuDev : Nat := 256
def sizeofStrtabL1Desc : Nat := 32

def cmdqSize (log2nent : Nat) : Nat := max 32 (((1 <<< log2nent) * cmdqDwordsPerEnt) <<< 3 % 2 ^ 32)

def evntqSize (log2nent : Nat) : Nat :=
  max 64 (((1 <<< log2nent) * evntqDwordsPerEnt) <<< 3 % 2 ^ 32)

section

variable (alloc : Request → Nat → Nat)

def smmuCmdQueueInit (i : Nat) (p : Probed) : Bool :=
  alloc (.cmdq i) (2 * cmdqSize p.cmdqLog2nent % 2 ^ 32) ≠ 0

def smmuEvntQueueInit (i : Nat) (p : Probed) : Bool :=
  alloc (.evntq i) (evntqSize p.evntqLog2nent) ≠ 0

/-- Whether `smmu_strtab_init` gets the table and, for two levels, its descriptors. -/
def smmuStrtabInitAlloc (i : Nat) (p : Probed) : Bool :=
  let smmu := p.smmuDev 0
  alloc (.strtab i) (2 * smmu.strtabSize % 2 ^ 32) ≠ 0 ∧
    (p.stLevel2lvl = true →
      alloc (.l1Desc i) (smmu.l1EntCount * sizeofStrtabL1Desc % 2 ^ 32) ≠ 0)

/-! ## Reset -/

/-- The reads of `smmu_reg_write_sync` from the `n`-th on, with the last value read. -/
def pollAck (ack : Nat → Nat) (val : Nat) : Nat → Nat → Nat → Nat × Nat
  | 0, _, reg => (1, reg)
  | timeout + 1, n, _ =>
    if ack n = val then (0, ack n) else pollAck ack val timeout (n + 1) (ack n)

def ackTimeout : Nat := 0x1000000

/-- The return value, and the last value read. -/
def smmuRegWriteSync (ack : Nat → Nat) (val : Nat) : Nat × Nat := pollAck ack val ackTimeout 0 0

/-- The return value, and the last value of SMMU_CR0ACK that was read. -/
def smmuReset (hw : SmmuHw) : Nat × Nat :=
  let ret := smmuRegWriteSync (hw.cr0ack 0) 0
  if ret.1 ≠ 0 then ret
  else
    let en := cr0Cmdqen
    let ret := smmuRegWriteSync (hw.cr0ack 1) en
    if ret.1 ≠ 0 then ret
    else
      let en := en ||| cr0Evntqen
      let ret := smmuRegWriteSync (hw.cr0ack 2) en
      if ret.1 ≠ 0 then ret
      else
        let en := en ||| cr0Smmuen
        let ret := smmuRegWriteSync (hw.cr0ack 3) en
        if ret.1 ≠ 0 then ret else (1, ret.2)

/-! ## Calls -/

def smmuInit (i : Nat) (hw : SmmuHw) : Nat :=
  if hw.base = 0 then acsStatusErr
  else
    match smmuProbe hw with
    | none => acsStatusErr
    | some p =>
      if !smmuCmdQueueInit alloc i p then acsStatusErr
      else if !smmuEvntQueueInit alloc i p then acsStatusErr
      else if !smmuStrtabInitAlloc alloc i p then acsStatusErr
      else if (smmuReset hw).1 = 0 then acsStatusErr
      else 0

def initFrom : Nat → List SmmuHw → Nat
  | _, [] => 0
  | i, hw :: rest =>
    if hw.archMajorRev ≠ 3 then initFrom (i + 1) rest
    else if smmuInit alloc i hw ≠ 0 then acsStatusErr
    else initFrom (i + 1) rest

def valSmmuInit (table : List SmmuHw) : Nat :=
  if table.length = 0 then acsStatusErr
  else if alloc .gSmmu (table.length * sizeofSmmuDev % 2 ^ 32) = 0 then acsStatusErr
  else initFrom alloc 0 table

end

/-! ## The acknowledge -/

section

variable {ack : Nat → Nat} {val timeout reg n : Nat}

theorem pollAck_of_ack (h : ∃ j < timeout, ack (n + j) = val) :
    pollAck ack val timeout n reg = (0, val) := by
  induction timeout generalizing n reg with
  | zero =>
    obtain ⟨j, hj, -⟩ := h
    exact absurd hj (not_lt_zero j)
  | succ timeout ih =>
    rw [pollAck]
    split_ifs with hn
    · rw [hn]
    · apply ih
      obtain ⟨j, hj, hval⟩ := h
      cases j with
      | zero => exact absurd hval hn
      | succ j =>
        refine ⟨j, by omega, ?_⟩
        rw [← hval, add_assoc, add_comm 1 j]

theorem pollAck_of_silent (h : ∀ j < timeout + 1, ack (n + j) ≠ val) :
    pollAck ack val (timeout + 1) n reg = (1, ack (n + timeout)) := by
  induction timeout generalizing n reg with
  | zero =>
    have hn : ack n ≠ val := h 0 one_pos
    rw [pollAck, if_neg hn, pollAck, add_zero]
  | succ timeout ih =>
    have hn : ack n ≠ val := h 0 (succ_pos _)
    rw [pollAck, if_neg hn, ih, add_assoc, add_comm 1 timeout]
    intro j hj
    rw [add_assoc, add_comm 1 j]
    exact h (j + 1) (by omega)

def Acks (ack : Nat → Nat) (val : Nat) : Prop := ∃ n < ackTimeout, ack n = val

theorem smmuRegWriteSync_of_acks (h : Acks ack val) : smmuRegWriteSync ack val = (0, val) := by
  obtain ⟨j, hj, hval⟩ := h
  apply pollAck_of_ack
  exact ⟨j, hj, by rw [zero_add, hval]⟩

theorem smmuRegWriteSync_of_not_acks (h : ¬ Acks ack val) :
    smmuRegWriteSync ack val = (1, ack (ackTimeout - 1)) := by
  have hsilent : ∀ j < ackTimeout, ack (0 + j) ≠ val := by
    intro j hj hval
    exact h ⟨j, hj, by rw [← hval, zero_add]⟩
  have hpoll := @pollAck_of_silent ack val (ackTimeout - 1) 0 0 hsilent
  exact hpoll

end

def cr0Value (i : Nat) : Nat :=
  [0, cr0Cmdqen, cr0Cmdqen ||| cr0Evntqen, cr0Cmdqen ||| cr0Evntqen ||| cr0Smmuen].getD i 0

def cr0Enabled : Nat := cr0Cmdqen ||| cr0Evntqen ||| cr0Smmuen

def SmmuHw.Acked (hw : SmmuHw) (i : Nat) : Prop := Acks (hw.cr0ack i) (cr0Value i)

def SmmuHw.StopsAt (hw : SmmuHw) (i : Nat) : Prop := (∀ j < i, hw.Acked j) ∧ ¬ hw.Acked i

/-- All four writes are acknowledged, or the last read after the first one that is not
happens to show the value of the last write. -/
def SmmuHw.Handshake (hw : SmmuHw) : Prop :=
  (∀ i < 4, hw.Acked i) ∨
    ∃ i < 4, hw.StopsAt i ∧ hw.cr0ack i (ackTimeout - 1) = cr0Enabled

section

variable {hw : SmmuHw} {i : Nat}

theorem SmmuHw.acked_or_stops (hw : SmmuHw) : (∀ i < 4, hw.Acked i) ∨ ∃ i < 4, hw.StopsAt i := by
  classical
  by_cases h : ∃ i, i < 4 ∧ ¬ hw.Acked i
  · right
    obtain ⟨hlt, hnot⟩ := Nat.find_spec h
    refine ⟨Nat.find h, hlt, ?_, hnot⟩
    intro j hj
    by_contra hno
    exact Nat.find_min h hj ⟨by omega, hno⟩
  · left
    intro i hi
    by_contra hno
    exact h ⟨i, hi, hno⟩

theorem SmmuHw.sync_of_acked (h : hw.Acked i) :
    smmuRegWriteSync (hw.cr0ack i) (cr0Value i) = (0, cr0Value i) := smmuRegWriteSync_of_acks h

theorem SmmuHw.sync_of_not_acked (h : ¬ hw.Acked i) :
    smmuRegWriteSync (hw.cr0ack i) (cr0Value i) = (1, hw.cr0ack i (ackTimeout - 1)) :=
  smmuRegWriteSync_of_not_acks h

theorem smmuReset_eq (hw : SmmuHw) : smmuReset hw =
    if (smmuRegWriteSync (hw.cr0ack 0) (cr0Value 0)).1 ≠ 0 then
      smmuRegWriteSync (hw.cr0ack 0) (cr0Value 0)
    else if (smmuRegWriteSync (hw.cr0ack 1) (cr0Value 1)).1 ≠ 0 then
      smmuRegWriteSync (hw.cr0ack 1) (cr0Value 1)
    else if (smmuRegWriteSync (hw.cr0ack 2) (cr0Value 2)).1 ≠ 0 then
      smmuRegWriteSync (hw.cr0ack 2) (cr0Value 2)
    else if (smmuRegWriteSync (hw.cr0ack 3) (cr0Value 3)).1 ≠ 0 then
      smmuRegWriteSync (hw.cr0ack 3) (cr0Value 3)
    else (1, (smmuRegWriteSync (hw.cr0ack 3) (cr0Value 3)).2) := rfl

theorem smmuReset_of_acked (h : ∀ i < 4, hw.Acked i) : smmuReset hw = (1, cr0Enabled) := by
  rw [smmuReset_eq, SmmuHw.sync_of_acked (h 0 (by decide)), SmmuHw.sync_of_acked (h 1 (by decide)),
    SmmuHw.sync_of_acked (h 2 (by decide)), SmmuHw.sync_of_acked (h 3 (by decide))]
  rfl

theorem smmuReset_of_stopsAt (hi : i < 4) (h : hw.StopsAt i) :
    smmuReset hw = (1, hw.cr0ack i (ackTimeout - 1)) := by
  obtain ⟨hbefore, hstop⟩ := h
  rw [smmuReset_eq]
  -- the writes before the `i`-th return 0, and the `i`-th returns from `smmu_reset`
  match i, hi with
  | 0, _ => simp [SmmuHw.sync_of_not_acked hstop]
  | 1, _ =>
    simp [SmmuHw.sync_of_not_acked hstop, SmmuHw.sync_of_acked (hbefore 0 (by decide))]
  | 2, _ =>
    simp [SmmuHw.sync_of_not_acked hstop, SmmuHw.sync_of_acked (hbefore 0 (by decide)),
      SmmuHw.sync_of_acked (hbefore 1 (by decide))]
  | 3, _ =>
    simp [SmmuHw.sync_of_not_acked hstop, SmmuHw.sync_of_acked (hbefore 0 (by decide)),
      SmmuHw.sync_of_acked (hbefore 1 (by decide)), SmmuHw.sync_of_acked (hbefore 2 (by decide))]

theorem smmuReset_status (hw : SmmuHw) : (smmuReset hw).1 = 1 := by
  cases hw.acked_or_stops with
  | inl h => rw [smmuReset_of_acked h]
  | inr h =>
    obtain ⟨i, hi, hstop⟩ := h
    rw [smmuReset_of_stopsAt hi hstop]

theorem SmmuHw.StopsAt.unique {j : Nat} (hi : hw.StopsAt i) (hj : hw.StopsAt j) : i = j := by
  obtain h | h | h := lt_trichotomy i j
  · exact absurd (hj.1 i h) hi.2
  · exact h
  · exact absurd (hi.1 j h) hj.2

theorem smmuReset_ack_iff (hw : SmmuHw) : (smmuReset hw).2 = cr0Enabled ↔ hw.Handshake := by
  cases hw.acked_or_stops with
  | inl h =>
    rw [smmuReset_of_acked h]
    exact ⟨fun _ => .inl h, fun _ => rfl⟩
  | inr h =>
    obtain ⟨i, hi, hstop⟩ := h
    rw [smmuReset_of_stopsAt hi hstop]
    constructor
    · intro hack
      exact .inr ⟨i, hi, hstop, hack⟩
    · intro hand
      cases hand with
      | inl hall => exact absurd (hall i hi) hstop.2
      | inr hlast =>
        obtain ⟨j, -, hj, hack⟩ := hlast
        rw [hj.unique hstop] at hack
        exact hack

end

/-! ## The whole bring-up -/

section

variable (alloc : Request → Nat → Nat)

/-- The SMMU with number `i` has its registers where the table says, the probe accepts
it, and the queues and the stream table are allocated. -/
def Accepted (i : Nat) (hw : SmmuHw) : Prop :=
  hw.base ≠ 0 ∧ ∃ p, smmuProbe hw = some p ∧ smmuCmdQueueInit alloc i p = true ∧
    smmuEvntQueueInit alloc i p = true ∧ smmuStrtabInitAlloc alloc i p = true

structure BroughtUp (i : Nat) (hw : SmmuHw) : Prop where
  allocated : ∃ p, smmuProbe hw = some p ∧ smmuCmdQueueInit alloc i p = true ∧
    smmuEvntQueueInit alloc i p = true ∧ smmuStrtabInitAlloc alloc i p = true
  enabled : (smmuReset hw).2 = cr0Enabled

/-- `val_smmu_init` fails before or besides the acknowledges of SMMU_CR0. -/
def Refused (table : List SmmuHw) : Prop :=
  table.length = 0 ∨ alloc .gSmmu (table.length * sizeofSmmuDev % 2 ^ 32) = 0 ∨
    ∃ i hw, table[i]? = some hw ∧ hw.archMajorRev = 3 ∧ ¬ Accepted alloc i hw

variable {alloc}

theorem smmuInit_eq_zero_iff {i : Nat} {hw : SmmuHw} :
    smmuInit alloc i hw = 0 ↔ Accepted alloc i hw := by
  have herr : acsStatusErr ≠ 0 := by decide
  unfold smmuInit Accepted
  by_cases hb : hw.base = 0
  · simp [hb, herr]
  · cases hp : smmuProbe hw with
    | none => simp [herr]
    | some p =>
      -- the reset adds no condition, as it returns 1 in any case
      have hreset : ¬ (smmuReset hw).1 = 0 := by rw [smmuReset_status]; decide
      by_cases hcmdq : smmuCmdQueueInit alloc i p = true
      · by_cases hevntq : smmuEvntQueueInit alloc i p = true
        · by_cases hstrtab : smmuStrtabInitAlloc alloc i p = true
          · simp [hb, hreset, hcmdq, hevntq, hstrtab]
          · simp [herr, hstrtab]
        · simp [herr, hevntq]
      · simp [herr, hcmdq]

theorem initFrom_eq_zero_iff (i : Nat) (table : List SmmuHw) :
    initFrom alloc i table = 0 ↔
      ∀ j hw, table[j]? = some hw → hw.archMajorRev = 3 → Accepted alloc (i + j) hw := by
  induction table generalizing i with
  | nil => simp [initFrom]
  | cons hw rest ih =>
    have hsplit : (∀ j hw', (hw :: rest)[j]? = some hw' → hw'.archMajorRev = 3 →
        Accepted alloc (i + j) hw') ↔ (hw.archMajorRev = 3 → Accepted alloc i hw) ∧
          ∀ j hw', rest[j]? = some hw' → hw'.archMajorRev = 3 →
            Accepted alloc (i + 1 + j) hw' := by
      constructor
      · intro h
        refine ⟨h 0 hw rfl, ?_⟩
        intro j hw' hj hrev
        rw [add_assoc, add_comm 1 j]
        exact h (j + 1) hw' hj hrev
      · intro h j hw' hj hrev
        cases j with
        | zero =>
          obtain rfl : hw = hw' := by simpa using hj
          exact h.1 hrev
        | succ j =>
          rw [add_comm j 1, ← add_assoc]
          exact h.2 j hw' hj hrev
    rw [hsplit, ← ih, initFrom]
    by_cases hrev : hw.archMajorRev = 3
    · by_cases hinit : smmuInit alloc i hw = 0
      · rw [if_neg (not_not.mpr hinit)]
        simp [smmuInit_eq_zero_iff.mp hinit]
      · rw [if_pos hinit]
        have hno : ¬ Accepted alloc i hw := fun h => hinit (smmuInit_eq_zero_iff.mpr h)
        simp [hrev, hno, acsStatusErr]
    · simp [hrev]

theorem valSmmuInit_eq_zero_iff_not_refused (table : List SmmuHw) :
    valSmmuInit alloc table = 0 ↔ ¬ Refused alloc table := by
  have herr : acsStatusErr ≠ 0 := by decide
  unfold valSmmuInit Refused
  generalize table.length * sizeofSmmuDev % 2 ^ 32 = size
  by_cases hlen : table.length = 0
  · simp [hlen, herr]
  · by_cases hg : alloc .gSmmu size = 0
    · simp [hg, herr]
    · rw [if_neg hlen, if_neg hg, initFrom_eq_zero_iff]
      simp [hlen, hg]

/-- Success stands for SMMUs that are up exactly if the hardware acknowledges what it is
told, or the call fails for another reason. -/
theorem valSmmuInit_sound_iff (table : List SmmuHw) :
    (valSmmuInit alloc table = 0 → ∀ i hw, table[i]? = some hw → hw.archMajorRev = 3 →
        BroughtUp alloc i hw) ↔
      Refused alloc table ∨ ∀ hw ∈ table, hw.archMajorRev = 3 → hw.Handshake := by
  rw [valSmmuInit_eq_zero_iff_not_refused]
  constructor
  · intro h
    by_cases href : Refused alloc table
    · exact .inl href
    · right
      intro hw hmem hrev
      obtain ⟨i, hi⟩ := List.mem_iff_getElem?.mp hmem
      exact (smmuReset_ack_iff hw).mp (h href i hw hi hrev).enabled
  · intro h href i hw hi hrev
    have hacc : Accepted alloc i hw := by
      by_contra hno
      exact href (.inr (.inr ⟨i, hw, hi, hrev, hno⟩))
    cases h with
    | inl hno => exact absurd hno href
    | inr hand =>
      exact ⟨hacc.2, (smmuReset_ack_iff hw).mpr (hand hw (List.mem_of_getElem? hi) hrev)⟩

end

def stuckSmmu : SmmuHw where
  archMajorRev := 3
  base := 0x10000
  idr0 := 0xa
  idr1 := 0x1080008
  idr5 := 5
  cr0ack := fun _ _ => 0

theorem stuckSmmu_accepted : Accepted (fun _ _ => 0x1000) 0 stuckSmmu :=
  ⟨by decide, _, rfl, by decide, by decide, by decide⟩

theorem stuckSmmu_stopsAt : stuckSmmu.StopsAt 1 := by
  constructor
  · intro j hj
    obtain rfl : j = 0 := by omega
    exact ⟨0, by decide, rfl⟩
  · rintro ⟨n, -, hn⟩
    have hzero : 0 = cr0Value 1 := hn
    exact absurd hzero (by decide)

/-- The command queue is never enabled, and the call reports success. -/
theorem stuckSmmu_reported_up :
    valSmmuInit (fun _ _ => 0x1000) [stuckSmmu] = 0 ∧
      ¬ BroughtUp (fun _ _ => 0x1000) 0 stuckSmmu := by
  constructor
  · rw [valSmmuInit, if_neg (by decide), if_neg (by decide), initFrom_eq_zero_iff]
    intro j hw hj _
    cases j with
    | zero =>
      obtain rfl : stuckSmmu = hw := by simpa using hj
      exact stuckSmmu_accepted
    | succ j => simp at hj
  · intro h
    have hlast := h.enabled
    rw [smmuReset_of_stopsAt (by decide) stuckSmmu_stopsAt] at hlast
    have hzero := hlast
    exact absurd hzero (by decide)

end ServerSoc.Smmu
