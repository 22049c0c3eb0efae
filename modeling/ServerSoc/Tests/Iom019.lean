/-
Test iom019: performance counters of the IOMMUs (test_os_iom019.c).

The bits that the payload means to toggle are overwritten before the write: only zeros of the mask
are probed, and the overflow bit and the CY bits not at all.  A programmable counter gets the old
value of the cycle counter back, and a failed check returns without restoring.
-/
import ServerSoc.Base.Probe
import ServerSoc.Iommu.RegAccess
import ServerSoc.Memory.Masked
import ServerSoc.Val.Status

namespace ServerSoc.Tests.Iom019

open Base Memory Iommu Val Function List

def testNum : Nat := 1200 + 19

/-! ## The payload -/

inductive HpmReg where
  | cap
  | iocountovf
  | iocountinh
  | iohpmcycles
  | iohpmctr (k : Fin 4)
  deriving DecidableEq, Repr

def HpmReg.offset : HpmReg → Nat
  | .cap => 0x0
  | .iocountovf => 88
  | .iocountinh => 92
  | .iohpmcycles => 96
  | .iohpmctr k => 104 + 8 * k

def HpmReg.num : HpmReg → Nat
  | .iocountovf => 1
  | .iocountinh => 1
  | _ => 2

def riscvIommuCapHpmMsk : BitVec 64 := 1#64 <<< 30
def riscvIommuRegIocountCyMsk : BitVec 64 := 1#64
def riscvIommuRegIocountHpmMsk : BitVec 64 := 0xFFFFFFFE#64
def riscvIommuRegIohpmcyclesOfMsk : BitVec 64 := 1#64 <<< 63
def riscvIommuRegCounterMsk : BitVec 64 := 0xFFFFFFFFFF#64

/-- `val_iommu_read_iommu_reg` and `val_iommu_write_iommu_reg` on the state `σ`. -/
structure RegAccess (σ : Type) where
  read : σ → Nat → HpmReg → BitVec 64
  write : σ → Nat → HpmReg → BitVec 64 → σ

variable {σ : Type}

section

variable (regs : RegAccess σ)

/-- `.error` is a return with FAIL. -/
def probeCycles (index : Nat) (regIohpmcyclesOld : BitVec 64) (s : σ) : Except σ σ :=
  -- the toggled OF bit and the cleared counter are overwritten by this assignment
  let regIohpmcycles := regIohpmcyclesOld ||| riscvIommuRegCounterMsk
  let s := regs.write s index .iohpmcycles regIohpmcycles
  let regIohpmcyclesNew := regs.read s index .iohpmcycles
  if regIohpmcyclesNew < regIohpmcycles then .error s
  else .ok (regs.write s index .iohpmcycles regIohpmcyclesOld)

def probeCounter (index : Nat) (regIohpmcyclesOld : BitVec 64) (k : Fin 4) (s : σ) : Except σ σ :=
  let regIohpmctrlOld := regs.read s index (.iohpmctr k)
  let regIohpmctrl := regIohpmctrlOld &&& ~~~riscvIommuRegCounterMsk
  let s := regs.write s index (.iohpmctr k) regIohpmctrl
  if regs.read s index (.iohpmctr k) ≠ regIohpmctrl then .error s
  else
    let regIohpmctrl := regIohpmctrlOld ||| riscvIommuRegCounterMsk
    let s := regs.write s index (.iohpmctr k) regIohpmctrl
    if regs.read s index (.iohpmctr k) ≠ regIohpmctrl then .error s
    -- the value that is restored is not the one of this counter
    else .ok (regs.write s index (.iohpmctr k) regIohpmcyclesOld)

def probeCount (index : Nat) (r : HpmReg) (s : σ) : Except σ σ :=
  let regOld := regs.read s index r
  -- the toggled CY bit and the cleared bits are overwritten by this assignment
  let reg := regOld ||| riscvIommuRegIocountHpmMsk
  let s := regs.write s index r reg
  if regs.read s index r ≠ reg then .error s
  else .ok (regs.write s index r regOld)

def probeCounters (index : Nat) (regIohpmcyclesOld : BitVec 64) : List (Fin 4) → σ → Except σ σ
  | [], s => .ok s
  | k :: ks, s =>
    (probeCounter regs index regIohpmcyclesOld k s).bind
      (probeCounters index regIohpmcyclesOld ks)

def probeIommu (index : Nat) (s : σ) : Except σ σ :=
  let regIohpmcyclesOld := regs.read s index .iohpmcycles
  (probeCycles regs index regIohpmcyclesOld s).bind fun s =>
    (probeCounters regs index regIohpmcyclesOld (List.finRange 4) s).bind fun s =>
      (probeCount regs index .iocountovf s).bind (probeCount regs index .iocountinh)

def probeIommus (g : Option Mem) : List Nat → σ → Except σ σ
  | [], s => .ok s
  | index :: rest, s =>
    if valIommuGetInfo g index .type = typeIommu then
      if (regs.read s index .cap &&& riscvIommuCapHpmMsk) >>> 30 = 0#64 then probeIommus g rest s
      else (probeIommu regs index s).bind (probeIommus g rest)
    else probeIommus g rest s

def payload (g : Option Mem) (s : σ) : Nat × σ :=
  match probeIommus regs g (range (valIommuGetNum g)) s with
  | .ok s => (resultPass testNum 1, s)
  | .error s => (resultFail testNum 1, s)

end

/-! ## The hardware -/

def hwRegs (mask : Mem) (bar : Nat → Nat) (g : Mem) : RegAccess Mem where
  read := fun m index r =>
    BitVec.ofNat 64 (valIommuReadIommuReg (plainBus m bar) (some g) index r.offset r.num)
  write := fun m index r data =>
    valIommuWriteIommuReg (regStore (masked mask) bar) (some g) index r.offset r.num data.toNat m

section

variable (bar : Nat → Nat) (g : Mem)

def Valid (index : Nat) : Prop :=
  index < valIommuGetNum (some g) ∧ valIommuGetInfo (some g) index .type = typeIommu

instance (index : Nat) : Decidable (Valid g index) := inferInstanceAs (Decidable (_ ∧ _))

structure Layout : Prop where
  aligned : ∀ index, Valid g index → baseOf bar g index % 8 = 0
  fits : ∀ index, Valid g index → baseOf bar g index + 0x1000 ≤ 2 ^ 64
  apart : ∀ i j, Valid g i → Valid g j → i ≠ j →
    baseOf bar g i + 0x1000 ≤ baseOf bar g j ∨ baseOf bar g j + 0x1000 ≤ baseOf bar g i

def regsOf (m : Mem) (k : Nat × HpmReg) : BitVec 64 :=
  if Valid g k.1 then BitVec.ofNat 64 (load m (baseOf bar g k.1 + k.2.offset) (4 * k.2.num))
    else 0#64

end

abbrev Cells := Nat × HpmReg → BitVec 64

def cellRegs (mask : Cells) : RegAccess Cells where
  read := fun cells index r => cells (index, r)
  write := fun cells index r data =>
    update cells (index, r) (maskedWrite (mask (index, r)) (cells (index, r)) data)

/-! ## What the test is for -/

section

variable (mask cells : Cells)

def Writable (k : Nat × HpmReg) (bits : BitVec 64) : Prop := bits &&& ~~~mask k = 0#64

instance (k : Nat × HpmReg) (bits : BitVec 64) : Decidable (Writable mask k bits) :=
  inferInstanceAs (Decidable (_ = _))

/-- The overflow bit and forty bits of the cycle counter, forty bits of the four counters,
and the CY bit and the counter bits of the other two registers can be written. -/
structure Toggles (index : Nat) : Prop where
  cycles : Writable mask (index, .iohpmcycles)
    (riscvIommuRegIohpmcyclesOfMsk ||| riscvIommuRegCounterMsk)
  counters : ∀ k, Writable mask (index, .iohpmctr k) riscvIommuRegCounterMsk
  countovf : Writable mask (index, .iocountovf)
    (riscvIommuRegIocountCyMsk ||| riscvIommuRegIocountHpmMsk)
  countinh : Writable mask (index, .iocountinh)
    (riscvIommuRegIocountCyMsk ||| riscvIommuRegIocountHpmMsk)

def HasHpm (index : Nat) : Prop := (cells (index, .cap) &&& riscvIommuCapHpmMsk) >>> 30 ≠ 0#64

instance (index : Nat) : Decidable (HasHpm cells index) := inferInstanceAs (Decidable (¬ _))

/-- The probe of a register that sets the zeros among `bits`.  It fails at a zero that
cannot be set, and then leaves the others set. -/
def setProbe (k : Nat × HpmReg) (bits : BitVec 64) : Probe (Nat × HpmReg) (BitVec 64) where
  key := k
  fails := fun x => bits &&& ~~~mask k &&& ~~~x ≠ 0#64
  leave := fun x => if bits &&& ~~~mask k &&& ~~~x ≠ 0#64 then x ||| (bits &&& mask k) else x

/-- The probe of a programmable counter.  It fails at a bit that cannot be written, and
leaves the counter cleared or set.  Otherwise it leaves the value `cycles` there. -/
def counterProbe (k : Nat × HpmReg) (cycles : BitVec 64) : Probe (Nat × HpmReg) (BitVec 64) where
  key := k
  fails := fun _ => riscvIommuRegCounterMsk &&& ~~~mask k ≠ 0#64
  leave := fun x =>
    if riscvIommuRegCounterMsk &&& ~~~mask k &&& x ≠ 0#64 then
      x &&& ~~~(riscvIommuRegCounterMsk &&& mask k)
    else if riscvIommuRegCounterMsk &&& ~~~mask k ≠ 0#64 then
      x ||| (riscvIommuRegCounterMsk &&& mask k)
    else maskedWrite (mask k) x cycles

def iommuProbes (index : Nat) : List (Probe (Nat × HpmReg) (BitVec 64)) :=
  setProbe mask (index, .iohpmcycles) riscvIommuRegCounterMsk ::
    ((List.finRange 4).map fun k =>
      counterProbe mask (index, .iohpmctr k) (cells (index, .iohpmcycles))) ++
    [setProbe mask (index, .iocountovf) riscvIommuRegIocountHpmMsk,
      setProbe mask (index, .iocountinh) riscvIommuRegIocountHpmMsk]

def allProbes (g : Mem) (l : List Nat) : List (Probe (Nat × HpmReg) (BitVec 64)) :=
  (l.filter fun index => Valid g index ∧ HasHpm cells index).flatMap (iommuProbes mask cells)

end

/-! ## The payload on cells -/

variable {index : Nat} {g : Mem}

section

variable {mask old cells : Cells} {l : List Nat}

theorem probeCycles_eq :
    probeCycles (cellRegs mask) index (cells (index, .iohpmcycles)) cells =
      runProbes [setProbe mask (index, .iohpmcycles) riscvIommuRegCounterMsk] cells := by
  simp only [probeCycles, cellRegs, runProbes, setProbe, update_self, maskedWrite_or,
    or_and_lt_iff, update_idem, decide_eq_true_eq, maskedWrite_back]
  split <;> rfl

theorem probeCount_eq (r : HpmReg) :
    probeCount (cellRegs mask) index r cells =
      runProbes [setProbe mask (index, r) riscvIommuRegIocountHpmMsk] cells := by
  simp only [probeCount, cellRegs, runProbes, setProbe, update_self, maskedWrite_or,
    ne_eq, or_and_eq_iff, update_idem, decide_eq_true_eq, maskedWrite_back]
  split <;> rfl

theorem probeCounter_eq (cycles : BitVec 64) (k : Fin 4) :
    probeCounter (cellRegs mask) index cycles k cells =
      runProbes [counterProbe mask (index, .iohpmctr k) cycles] cells := by
  simp only [probeCounter, cellRegs, runProbes, counterProbe, update_self,
    maskedWrite_and_not, ne_eq, and_not_eq_iff]
  by_cases hclear : riscvIommuRegCounterMsk &&& ~~~mask (index, .iohpmctr k) &&&
      cells (index, .iohpmctr k) = 0#64
  · rw [and_not_eq_iff.mpr hclear, maskedWrite_or_of_clear hclear]
    simp only [hclear, or_and_eq_iff]
    by_cases hset : riscvIommuRegCounterMsk &&& ~~~mask (index, .iohpmctr k) &&&
        ~~~cells (index, .iohpmctr k) = 0#64
    · have hall : riscvIommuRegCounterMsk &&& ~~~mask (index, .iohpmctr k) = 0#64 :=
        and_not_eq_zero_iff.mpr ⟨hclear, hset⟩
      rw [or_and_eq_iff.mpr hset, maskedWrite_of_writable hall]
      simp [hall]
    · have hall : ¬ riscvIommuRegCounterMsk &&& ~~~mask (index, .iohpmctr k) = 0#64 :=
        fun h => hset (and_not_eq_zero_iff.mp h).2
      simp [hset, hall]
  · have hall : ¬ riscvIommuRegCounterMsk &&& ~~~mask (index, .iohpmctr k) = 0#64 :=
      fun h => hclear (and_not_eq_zero_iff.mp h).1
    simp [hclear, hall]

theorem probeCounters_eq (cycles : BitVec 64) (ks : List (Fin 4)) :
    probeCounters (cellRegs mask) index cycles ks cells =
      runProbes (ks.map fun k => counterProbe mask (index, .iohpmctr k) cycles) cells := by
  induction ks generalizing cells with
  | nil => rfl
  | cons k ks ih =>
    refine Eq.trans ?_ (runProbes_cons _ _ cells).symm
    rw [probeCounters, probeCounter_eq]
    congr 1
    funext cells
    exact ih

theorem probeIommu_eq :
    probeIommu (cellRegs mask) index cells = runProbes (iommuProbes mask cells index) cells := by
  have hread : (cellRegs mask).read cells index .iohpmcycles = cells (index, .iohpmcycles) := rfl
  refine Eq.trans ?_ (runProbes_cons _ _ cells).symm
  rw [probeIommu, hread, probeCycles_eq]
  congr 1
  funext cells'
  refine Eq.trans ?_ (runProbes_append _ _ cells').symm
  rw [probeCounters_eq]
  congr 1
  funext cells'
  refine Eq.trans ?_ (runProbes_cons _ _ cells').symm
  rw [probeCount_eq]
  congr 1
  funext cells'
  exact probeCount_eq .iocountinh

theorem keys_iommuProbes (old : Cells) (index : Nat) :
    (iommuProbes mask old index).map Probe.key =
      [.iohpmcycles, .iohpmctr 0, .iohpmctr 1, .iohpmctr 2, .iohpmctr 3, .iocountovf,
        .iocountinh].map (Prod.mk index) := rfl

theorem fst_of_mem_keys {k : Nat × HpmReg} (h : k ∈ (iommuProbes mask old index).map Probe.key) :
    k.1 = index := by
  rw [keys_iommuProbes, mem_map] at h
  obtain ⟨r, -, rfl⟩ := h
  rfl

theorem nodup_keys_allProbes (hl : l.Nodup) : ((allProbes mask old g l).map Probe.key).Nodup := by
  rw [allProbes, map_flatMap]
  refine nodup_flatMap_of_key Prod.fst (hl.filter _) (fun index _ => ?_)
    (fun index k hk => fst_of_mem_keys hk)
  rw [keys_iommuProbes]
  exact List.Nodup.map (fun r r' h => congrArg Prod.snd h) (by decide)

theorem probeIommus_eq (hl : l.Nodup) (hlt : ∀ index ∈ l, index < valIommuGetNum (some g))
    (hsame : ∀ index ∈ l, ∀ r, cells (index, r) = old (index, r)) :
    probeIommus (cellRegs mask) (some g) l cells = runProbes (allProbes mask old g l) cells := by
  induction l generalizing cells with
  | nil => rfl
  | cons index rest ih =>
    rw [nodup_cons] at hl
    have ih := fun {c} => @ih c hl.2 fun i hi => hlt i (mem_cons_of_mem index hi)
    have hrest : ∀ i ∈ rest, ∀ r, cells (i, r) = old (i, r) :=
      fun i hi => hsame i (mem_cons_of_mem index hi)
    have hhpm : HasHpm old index ↔
        ¬ ((cellRegs mask).read cells index .cap &&& riscvIommuCapHpmMsk) >>> 30 = 0#64 := by
      rw [HasHpm, ← hsame index mem_cons_self]
      rfl
    rw [probeIommus, allProbes]
    by_cases htype : valIommuGetInfo (some g) index .type = typeIommu
    · have hvalid : Valid g index := ⟨hlt index mem_cons_self, htype⟩
      rw [if_pos htype]
      by_cases hcap : HasHpm old index
      · rw [if_neg (hhpm.mp hcap), filter_cons_of_pos (by simp [hvalid, hcap]),
          flatMap_cons, runProbes_append, probeIommu_eq,
          show iommuProbes mask cells index = iommuProbes mask old index by
            rw [iommuProbes, iommuProbes, hsame index mem_cons_self _]]
        cases hrun : runProbes (iommuProbes mask old index) cells with
        | error c => rfl
        | ok c =>
          refine ih fun i hi r => ?_
          rw [← hrest i hi r]
          have hkeep :=
            @cellsOf_runProbes_of_not_mem _ _ _ (iommuProbes mask old index) cells (i, r)
            (fun hmem => hl.1 (fst_of_mem_keys hmem ▸ hi))
          rwa [hrun] at hkeep
      · rw [if_pos (not_not.mp (fun h => hcap (hhpm.mpr h))),
          filter_cons_of_neg (by simp [hcap])]
        exact ih hrest
    · rw [if_neg htype, filter_cons_of_neg (by simp [Valid, htype])]
      exact ih hrest

end

/-! ## The payload on the hardware -/

section

variable {τ : Type}

def mapEnds (h : σ → τ) : Except σ σ → Except τ τ
  | .ok s => .ok (h s)
  | .error s => .error (h s)

theorem mapEnds_bind {h : σ → τ} {f : σ → Except σ σ} {f' : τ → Except τ τ}
    (hf : ∀ s, mapEnds h (f s) = f' (h s)) (x : Except σ σ) :
    mapEnds h (x.bind f) = (mapEnds h x).bind f' := by
  cases x with
  | error s => rfl
  | ok s => exact hf s

/-- The registers of the entries with `P` are the same seen through `h`. -/
structure Simulates (A : RegAccess σ) (B : RegAccess τ) (h : σ → τ) (P : Nat → Prop) : Prop where
  read : ∀ s index r, P index → A.read s index r = B.read (h s) index r
  write : ∀ s index r data, P index → h (A.write s index r data) = B.write (h s) index r data

variable {A : RegAccess σ} {B : RegAccess τ} {h : σ → τ} {P : Nat → Prop}

section

variable (hs : Simulates A B h P) (hi : P index)
include hs hi

theorem Simulates.probeCycles (old : BitVec 64) (s : σ) :
    mapEnds h (probeCycles A index old s) = Iom019.probeCycles B index old (h s) := by
  simp only [Iom019.probeCycles, ← hs.write _ _ _ _ hi, ← hs.read _ _ _ hi]
  split <;> rfl

theorem Simulates.probeCount (r : HpmReg) (s : σ) :
    mapEnds h (probeCount A index r s) = Iom019.probeCount B index r (h s) := by
  simp only [Iom019.probeCount, ← hs.write _ _ _ _ hi, ← hs.read _ _ _ hi]
  split <;> rfl

theorem Simulates.probeCounter (old : BitVec 64) (k : Fin 4)
    (s : σ) :
    mapEnds h (probeCounter A index old k s) = Iom019.probeCounter B index old k (h s) := by
  simp only [Iom019.probeCounter, ← hs.write _ _ _ _ hi, ← hs.read _ _ _ hi]
  split
  · rfl
  · split <;> rfl

theorem Simulates.probeCounters (old : BitVec 64) (ks : List (Fin 4)) (s : σ) :
    mapEnds h (probeCounters A index old ks s) = Iom019.probeCounters B index old ks (h s) := by
  induction ks generalizing s with
  | nil => rfl
  | cons k ks ih =>
    rw [Iom019.probeCounters, Iom019.probeCounters, mapEnds_bind ih, hs.probeCounter hi]

theorem Simulates.probeIommu (s : σ) :
    mapEnds h (probeIommu A index s) = Iom019.probeIommu B index (h s) := by
  simp only [Iom019.probeIommu, ← hs.read _ _ _ hi]
  rw [← hs.probeCycles hi]
  refine mapEnds_bind (fun s => ?_) _
  rw [← hs.probeCounters hi]
  refine mapEnds_bind (fun s => ?_) _
  rw [← hs.probeCount hi]
  exact mapEnds_bind (fun s => hs.probeCount hi _ s) _

end

theorem Simulates.probeIommus (hs : Simulates A B h P) {g : Option Mem} {l : List Nat}
    (hl : ∀ index ∈ l, valIommuGetInfo g index .type = typeIommu → P index) (s : σ) :
    mapEnds h (probeIommus A g l s) = Iom019.probeIommus B g l (h s) := by
  induction l generalizing s with
  | nil => rfl
  | cons index rest ih =>
    have ih := ih fun i hi => hl i (mem_cons_of_mem index hi)
    rw [Iom019.probeIommus, Iom019.probeIommus]
    by_cases htype : valIommuGetInfo g index .type = typeIommu
    · have hi := hl index mem_cons_self htype
      rw [if_pos htype, hs.read _ _ _ hi]
      split
      · exact ih s
      · rw [← hs.probeIommu hi]
        exact mapEnds_bind ih _
    · rw [if_neg htype, if_neg htype]
      exact ih s

end

section

variable {bar : Nat → Nat} {r : HpmReg}

theorem HpmReg.apart {r' : HpmReg} (h : r ≠ r') :
    r.offset + 4 * r.num ≤ r'.offset ∨ r'.offset + 4 * r'.num ≤ r.offset := by
  cases r <;> cases r' <;> grind [HpmReg.offset, HpmReg.num]

theorem HpmReg.offset_le (r : HpmReg) : r.offset + 4 * r.num ≤ 136 := by
  cases r <;> simp only [HpmReg.offset, HpmReg.num] <;> omega

theorem HpmReg.num_cases (r : HpmReg) : r.num = 1 ∨ r.num = 2 ∧ 8 ∣ r.offset := by
  cases r <;> grind [HpmReg.offset, HpmReg.num]

section

variable (hl : Layout bar g) (hi : Valid g index)
include hl hi

theorem Layout.address_eq (r : HpmReg) :
    (baseOf bar g index + r.offset) % 2 ^ 64 = baseOf bar g index + r.offset := by
  have hfit := hl.fits index hi
  have hr := r.offset_le
  exact Nat.mod_eq_of_lt (by omega)

theorem read_eq_load (m : Mem) (r : HpmReg) :
    valIommuReadIommuReg (plainBus m bar) (some g) index r.offset r.num =
      load m (baseOf bar g index + r.offset) (4 * r.num) := by
  have hr := r.offset_le
  have haddr := hl.address_eq hi r
  rcases r.num_cases with hn | ⟨hn, hd⟩
  · rw [hn, readReg_one hi.2 (by omega), haddr]
  · rw [hn, readReg_two hi.2 (by omega) hd (.inr (hl.aligned index hi)), haddr]

theorem write_eq_storeWith (f : Nat → UInt8 → UInt8 → UInt8) (m : Mem) (r : HpmReg) (data : Nat) :
    valIommuWriteIommuReg (regStore f bar) (some g) index r.offset r.num data m =
      storeWith f m (baseOf bar g index + r.offset) (4 * r.num) data := by
  have hr := r.offset_le
  have haddr := hl.address_eq hi r
  rcases r.num_cases with hn | ⟨hn, hd⟩
  · rw [hn, writeReg_one hi.2 (by omega), haddr]
  · rw [hn, writeReg_two hi.2 (by omega) hd (.inr (hl.aligned index hi)), haddr]

end

theorem regsOf_of_valid (hi : Valid g index) {m : Mem} :
    regsOf bar g m (index, r) =
      BitVec.ofNat 64 (load m (baseOf bar g index + r.offset) (4 * r.num)) := if_pos hi

theorem simulates_hwRegs (hl : Layout bar g) (mask : Mem) :
    Simulates (hwRegs mask bar g) (cellRegs (regsOf bar g mask)) (regsOf bar g) (Valid g) := by
  refine ⟨fun m i r hi => ?_, fun m i r data hi => ?_⟩
  · show BitVec.ofNat 64 _ = regsOf bar g m (i, r)
    rw [read_eq_load hl hi, regsOf_of_valid hi]
  · funext ⟨j, r'⟩
    simp only [hwRegs, cellRegs, write_eq_storeWith hl hi]
    by_cases hk : (j, r') = (i, r)
    · rw [hk, update_self, regsOf_of_valid hi, regsOf_of_valid hi, regsOf_of_valid hi,
        ofNat_load_storeWith, BitVec.ofNat_toNat, BitVec.setWidth_eq]
    · rw [update_of_ne hk]
      by_cases hj : Valid g j
      · rw [regsOf_of_valid hj, regsOf_of_valid hj]
        congr 1
        refine load_congr fun o ho => storeWith_outside ?_
        have hr := r.offset_le
        have hr' := r'.offset_le
        by_cases hij : j = i
        · have hne : r ≠ r' := fun h => hk (by rw [hij, h])
          rw [hij]
          rcases HpmReg.apart hne with h | h <;> omega
        · rcases hl.apart j i hj hi hij with h | h <;> omega
      · rw [regsOf, regsOf, if_neg hj, if_neg hj]

end

/-- The registers hold what they held before, up to the first probe that fails, and when
no probe fails the bits the test is for can be written. -/
def Reliable (g : Mem) (mask cells : Cells) : Prop :=
  Restores (allProbes mask cells g (range (valIommuGetNum (some g)))) cells ∧
    ((∀ p ∈ allProbes mask cells g (range (valIommuGetNum (some g))),
        p.fails (cells p.key) = false) →
      ∀ index, Valid g index → HasHpm cells index → Toggles mask index)

theorem payload_eq {bar : Nat → Nat} (hl : Layout bar g) (mask m : Mem) :
    ((payload (hwRegs mask bar g) (some g) m).1 = resultPass testNum 1 ↔
      (runProbes (allProbes (regsOf bar g mask) (regsOf bar g m) g
        (range (valIommuGetNum (some g)))) (regsOf bar g m)).isOk = true) ∧
    regsOf bar g (payload (hwRegs mask bar g) (some g) m).2 =
      cellsOf (runProbes (allProbes (regsOf bar g mask) (regsOf bar g m) g
        (range (valIommuGetNum (some g)))) (regsOf bar g m)) := by
  have hlt : ∀ index ∈ range (valIommuGetNum (some g)), index < valIommuGetNum (some g) :=
    fun index h => mem_range.mp h
  have hends := (simulates_hwRegs hl mask).probeIommus
    (fun index h htype => ⟨hlt index h, htype⟩) m
  rw [probeIommus_eq nodup_range hlt (fun _ _ _ => rfl)] at hends
  rw [payload, ← hends]
  cases probeIommus (hwRegs mask bar g) (some g) (range (valIommuGetNum (some g))) m with
  | ok s => exact ⟨iff_of_true rfl rfl, rfl⟩
  | error s =>
    have hne : resultFail testNum 1 ≠ resultPass testNum 1 := by decide
    exact ⟨iff_of_false hne (by simp [mapEnds, Except.toBool]), rfl⟩

/-- A PASS says that the bits can be written, and the registers are as before, exactly on
reliable hardware. -/
theorem payload_reliable_iff (bar : Nat → Nat) (g mask m : Mem) (hl : Layout bar g) :
    (((payload (hwRegs mask bar g) (some g) m).1 = resultPass testNum 1 →
        ∀ index, Valid g index → HasHpm (regsOf bar g m) index →
          Toggles (regsOf bar g mask) index) ∧
      regsOf bar g (payload (hwRegs mask bar g) (some g) m).2 = regsOf bar g m) ↔
    Reliable g (regsOf bar g mask) (regsOf bar g m) := by
  obtain ⟨hpass, hregs⟩ := payload_eq hl mask m
  have hnodup : ((allProbes (regsOf bar g mask) (regsOf bar g m) g
      (range (valIommuGetNum (some g)))).map Probe.key).Nodup :=
    nodup_keys_allProbes nodup_range
  rw [hpass, hregs, isOk_runProbes_iff hnodup, cellsOf_runProbes_eq_iff hnodup, Reliable, and_comm]

/-! ## One IOMMU -/

def oneIommu : Mem := fun a => if a = 0 then 1 else if a = 33 then 0x10 else 0

theorem valid_oneIommu (h : Valid oneIommu index) : index = 0 := by
  have hlt := h.1
  rw [show valIommuGetNum (some oneIommu) = 1 by decide] at hlt
  omega

theorem layout_oneIommu : Layout (fun _ => 0) oneIommu := by
  have hbase : baseOf (fun _ => 0) oneIommu 0 = 0x1000 := by decide
  refine ⟨?_, ?_, ?_⟩
  · intro index h
    rw [valid_oneIommu h, hbase]
  · intro index h
    rw [valid_oneIommu h, hbase]
    decide
  · intro i j hi hj hne
    exact absurd ((valid_oneIommu hi).trans (valid_oneIommu hj).symm) hne

def hpmMem (cycles : UInt8) : Mem := fun a =>
  if a = 0x1003 then 0x40 else if a = 0x1000 + 96 then cycles else 0

/-- All bits can be written and the counters are zero. -/
theorem payload_reliable_writable :
    ((payload (hwRegs (fun _ => 0xFF) (fun _ => 0) oneIommu) (some oneIommu) (hpmMem 0)).1 =
        resultPass testNum 1 →
      ∀ index, Valid oneIommu index → HasHpm (regsOf (fun _ => 0) oneIommu (hpmMem 0)) index →
        Toggles (regsOf (fun _ => 0) oneIommu (fun _ => 0xFF)) index) ∧
    regsOf (fun _ => 0) oneIommu
        (payload (hwRegs (fun _ => 0xFF) (fun _ => 0) oneIommu) (some oneIommu) (hpmMem 0)).2 =
      regsOf (fun _ => 0) oneIommu (hpmMem 0) := by
  refine (payload_reliable_iff (fun _ => 0) oneIommu (fun _ => 0xFF) (hpmMem 0) layout_oneIommu).mpr
    ⟨by decide, fun _ index h _ => ?_⟩
  rw [valid_oneIommu h]
  exact ⟨by decide, by decide, by decide, by decide⟩

/-- The overflow bit cannot be written and the cycle counter holds 5.  The test passes, and
a programmable counter that was zero holds 5. -/
theorem payload_passes_fixed_overflow :
    let mask : Mem := fun a => if a = 0x1000 + 103 then 0x7F else 0xFF
    let r := payload (hwRegs mask (fun _ => 0) oneIommu) (some oneIommu) (hpmMem 5)
    r.1 = resultPass testNum 1 ∧ Valid oneIommu 0 ∧
      HasHpm (regsOf (fun _ => 0) oneIommu (hpmMem 5)) 0 ∧
      ¬ Toggles (regsOf (fun _ => 0) oneIommu mask) 0 ∧
      regsOf (fun _ => 0) oneIommu (hpmMem 5) (0, .iohpmctr 0) = 0#64 ∧
      regsOf (fun _ => 0) oneIommu r.2 (0, .iohpmctr 0) = 5#64 := by
  intro mask r
  have hfixed : ¬ Writable (regsOf (fun _ => 0) oneIommu mask) (0, .iohpmcycles)
      (riscvIommuRegIohpmcyclesOfMsk ||| riscvIommuRegCounterMsk) := by
    decide
  exact ⟨by decide, by decide, by decide, fun h => hfixed h.cycles, by decide, by decide⟩

end ServerSoc.Tests.Iom019
