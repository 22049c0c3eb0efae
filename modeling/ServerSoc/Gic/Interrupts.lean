/-
Interrupt sources of a GIC of version 3 (gic_v3.c and gic_v3_extended.c).

`v3EnableInterruptSource` writes the clear-enable register of an extended SPI.  `v3Init` writes
the priorities of private interrupts in the control frame of the redistributor, where there are
none.
-/
import Mathlib.Tactic.SplitIfs
import Mathlib.Data.Nat.Bitwise

namespace ServerSoc.Gic

/-- What the functions read of the hardware.  The redistributor of the current hart exists. -/
structure Config where
  gicdTyper : Nat
  gicrTyper : Nat
  mpidr : Nat
  gicrWaker : Nat

inductive Base where
  | gicd | cpuRd
  deriving DecidableEq

structure Register where
  base : Base
  offset : Nat
  deriving DecidableEq

structure Write where
  register : Register
  value : Nat → Nat

def extendedSpiStartIntid : Nat := 4096
def extendedPpiStartIntid : Nat := 1056
def extendedPpiRegOffset : Nat := 1024
def gicrCtlrFrameSize : Nat := 0x10000
def gicDefaultPriority : Nat := 0x80

def valGetMaxIntid (c : Config) : Nat := 32 * ((c.gicdTyper &&& 0x1f) + 1)

def valBsaGicEspiSupport (c : Config) : Bool := c.gicdTyper >>> 8 &&& 1 ≠ 0

def valBsaGicMaxEspiVal (c : Config) : Nat := 32 * ((c.gicdTyper >>> 27 &&& 0x1f) + 1) + 4095

def valBsaGicEppiSupport (c : Config) : Bool := c.gicrTyper >>> 27 &&& 0x1f ≠ 0

def valBsaGicMaxEppiVal (c : Config) : Nat :=
  if c.gicrTyper >>> 27 &&& 0x1f = 1 then 1087
  else if c.gicrTyper >>> 27 &&& 0x1f = 2 then 1119 else 0

def v3IsExtendedSpi (c : Config) (id : Nat) : Bool :=
  extendedSpiStartIntid ≤ id ∧ id ≤ valBsaGicMaxEspiVal c

def v3IsExtendedPpi (c : Config) (id : Nat) : Bool :=
  extendedPpiStartIntid ≤ id ∧ id ≤ valBsaGicMaxEppiVal c

def isSpi (id : Nat) : Bool := 32 ≤ id ∧ id < 1020

/-- The write for an extended interrupt in a bank with `n` to a register, at `espi` in the
distributor and at `rd` in the redistributor.  `value` is given the place in the register. -/
def extendedWrite (n espi rd : Nat) (value : Nat → Nat → Nat) (c : Config) (id : Nat) : Write :=
  if v3IsExtendedSpi c id then
    ⟨⟨.gicd, espi + 4 * ((id - extendedSpiStartIntid) / n)⟩,
      value ((id - extendedSpiStartIntid) % n)⟩
  else
    ⟨⟨.cpuRd, rd + 4 * ((id - extendedPpiRegOffset) / n)⟩, value ((id - extendedPpiRegOffset) % n)⟩

def sourceWrite (n spi espi rd : Nat) (value : Nat → Nat → Nat) (c : Config) (id : Nat) : Write :=
  if v3IsExtendedSpi c id || v3IsExtendedPpi c id then extendedWrite n espi rd value c id
  else if isSpi id then ⟨⟨.gicd, spi + 4 * (id / n)⟩, value (id % n)⟩
  else ⟨⟨.cpuRd, rd + 4 * (id / n)⟩, value (id % n)⟩

def bitValue (shift _ : Nat) : Nat := 1 <<< shift

def byteValue (priority lane old : Nat) : Nat :=
  (old &&& (0xffffffff ^^^ 0xff <<< (lane * 8))) ||| priority <<< (lane * 8)

def v3DisableExtendedInterruptSource : Config → Nat → Write :=
  extendedWrite 32 0x1400 (gicrCtlrFrameSize + 0x180) bitValue

def v3DisableInterruptSource : Config → Nat → Write :=
  sourceWrite 32 0x180 0x1400 (gicrCtlrFrameSize + 0x180) bitValue

/-- The register of an extended SPI is `GICD_ICENABLERE`, as in the function that disables. -/
def v3EnableInterruptSource : Config → Nat → Write :=
  sourceWrite 32 0x100 0x1400 (gicrCtlrFrameSize + 0x100) bitValue

def v3SetExtendedInterruptPriority (priority : Nat) : Config → Nat → Write :=
  extendedWrite 4 0x2000 0x400 (byteValue priority)

def v3SetInterruptPriority (priority : Nat) : Config → Nat → Write :=
  sourceWrite 4 0x400 0x2000 0x400 (byteValue priority)

def cpuTarget (c : Config) : Nat := c.mpidr &&& 0xff00ffffff

inductive Stage where
  | disable | priority | route | control
  deriving DecidableEq

def loop (stage : Stage) (lo hi : Nat) (f : Nat → Write) : List (Stage × Write) :=
  ((List.range hi).drop lo).map fun index => (stage, f index)

def v3ExtendedInit (c : Config) : List (Stage × Write) :=
  let espi (stage : Stage) := loop stage extendedSpiStartIntid (valBsaGicMaxEspiVal c + 1)
  let eppi (stage : Stage) := loop stage extendedPpiStartIntid (valBsaGicMaxEppiVal c + 1)
  espi .disable (v3DisableExtendedInterruptSource c) ++
  eppi .disable (v3DisableExtendedInterruptSource c) ++
  espi .priority (v3SetExtendedInterruptPriority gicDefaultPriority c) ++
  eppi .priority (v3SetExtendedInterruptPriority gicDefaultPriority c) ++
  espi .route fun index => ⟨⟨.gicd, 0x6100 + index * 8⟩, fun _ => cpuTarget c⟩

/-- The sleep bit is cleared when it is set. -/
def wakeUpRD (c : Config) : List (Stage × Write) :=
  if c.gicrWaker >>> 1 &&& 1 ≠ 0 then
    [(.control, ⟨⟨.cpuRd, 0x14⟩, fun _ => c.gicrWaker &&& 0xfffffffd⟩)]
  else []

def v3Init (c : Config) : List (Stage × Write) :=
  let priorities :=
    loop .priority 0 (valGetMaxIntid c) (v3SetInterruptPriority gicDefaultPriority c)
  (if valBsaGicEspiSupport c || valBsaGicEppiSupport c then v3ExtendedInit c else []) ++
  loop .disable 0 (valGetMaxIntid c) (v3DisableInterruptSource c) ++ priorities ++
  [(.control, ⟨⟨.gicd, 0⟩, (· ||| 1 <<< 4)⟩), (.control, ⟨⟨.gicd, 0⟩, (· ||| 2)⟩)] ++
  wakeUpRD c ++ priorities ++ loop .route 0 (valGetMaxIntid c - 32) fun index =>
    ⟨⟨.gicd, 0x6100 + index * 8⟩, fun _ => cpuTarget c⟩

/-! ## The interrupts of the architecture -/

def Interrupt (id : Nat) : Prop := id < 1020 ∨ 1056 ≤ id ∧ id < 1120 ∨ 4096 ≤ id ∧ id < 5120

def Supported (c : Config) (id : Nat) : Prop :=
  id < 1020 ∧ id < valGetMaxIntid c ∨ v3IsExtendedPpi c id = true ∨
    valBsaGicEspiSupport c = true ∧ v3IsExtendedSpi c id = true

/-- The register of an interrupt in a bank with `n` to a register.  Private interrupts are in the
second frame of the redistributor. -/
def bankRegister (n sgi spi espi id : Nat) : Register :=
  if id < 32 then ⟨.cpuRd, gicrCtlrFrameSize + sgi + 4 * (id / n)⟩
  else if id < 1020 then ⟨.gicd, spi + 4 * (id / n)⟩
  else if id < 4096 then ⟨.cpuRd, gicrCtlrFrameSize + sgi + 4 * ((id - 1024) / n)⟩
  else ⟨.gicd, espi + 4 * ((id - 4096) / n)⟩

def enableRegister : Bool → Nat → Register
  | true => bankRegister 32 0x100 0x100 0x1200
  | false => bankRegister 32 0x180 0x180 0x1400

def priorityRegister : Nat → Register := bankRegister 4 0x400 0x400 0x2000

def routeRegister (id : Nat) : Register :=
  ⟨.gicd, if id < 4096 then 0x6000 + 8 * id else 0x8000 + 8 * (id - 4096)⟩

structure Hardware where
  regs : Register → Nat
  enabled : Nat → Bool

/-- A one in an enable register sets or clears the enable, a zero leaves it. -/
def Hardware.apply (s : Hardware) (w : Write) : Hardware where
  regs r := if r = w.register then w.value (s.regs r) else s.regs r
  enabled id :=
    if (w.value (s.regs w.register)).testBit (id % 32) then
      if w.register = enableRegister true id then true
      else if w.register = enableRegister false id then false else s.enabled id
    else s.enabled id

def EnableDisable (c : Config) (id : Nat) : Prop :=
  ∀ (s : Hardware) j, Interrupt j →
    (s.apply (v3EnableInterruptSource c id)).enabled j = (if j = id then true else s.enabled j) ∧
    (s.apply (v3DisableInterruptSource c id)).enabled j = (if j = id then false else s.enabled j)

structure Initialised (c : Config) (s : Hardware) : Prop where
  priority : ∀ id, Supported c id →
    s.regs (priorityRegister id) >>> (id % 4 * 8) &&& 0xff = gicDefaultPriority
  route : ∀ id, Supported c id → isSpi id = true ∨ v3IsExtendedSpi c id = true →
    s.regs (routeRegister id) = cpuTarget c
  disabled : ∀ id, Supported c id → s.enabled id = false
  inside : ∀ w ∈ v3Init c, w.1 = .priority ∨ w.1 = .route →
    ∃ id, w.2.register = priorityRegister id ∨ w.2.register = routeRegister id

variable {c : Config} {id j : Nat}

/-- The ranges of numbers, with the tests of the code in each. -/
theorem Supported.cases (h : Supported c id) :
    (id < 1020 ∧ v3IsExtendedPpi c id = false ∨
        v3IsExtendedPpi c id = true ∧ 1056 ≤ id ∧ id < 1120) ∧ v3IsExtendedSpi c id = false ∨
      v3IsExtendedSpi c id = true ∧ 4096 ≤ id ∧ id < 5120 := by
  have hespi : valBsaGicMaxEspiVal c < 5120 := by
    have := @Nat.and_le_right (c.gicdTyper >>> 27) 0x1f
    rw [valBsaGicMaxEspiVal]
    omega
  have heppi : valBsaGicMaxEppiVal c < 1120 := by
    rw [valBsaGicMaxEppiVal]
    split_ifs <;> decide
  simp only [Supported, v3IsExtendedPpi, v3IsExtendedSpi, decide_eq_true_eq,
    decide_eq_false_iff_not] at h ⊢
  simp only [extendedPpiStartIntid, extendedSpiStartIntid] at h ⊢
  omega

theorem Supported.interrupt (h : Supported c id) : Interrupt id := by
  rw [Interrupt]
  rcases h.cases with ⟨⟨hid, -⟩ | ⟨-, hid⟩, -⟩ | ⟨-, hid⟩ <;> omega

theorem sourceWrite_eq (h : Supported c id) (sgi spi espi : Nat) :
    sourceWrite 32 spi espi (gicrCtlrFrameSize + sgi) bitValue c id =
      ⟨bankRegister 32 sgi spi espi id, bitValue (id % 32)⟩ := by
  rw [sourceWrite, extendedWrite, bankRegister]
  rcases h.cases with ⟨⟨hid, hp⟩ | ⟨hp, hlo, hhi⟩, hs⟩ | ⟨hs, hlo, hhi⟩
  · rw [hp, hs, Bool.or_false, if_neg Bool.false_ne_true]
    by_cases hspi : 32 ≤ id
    · have hspi' : isSpi id = true := decide_eq_true ⟨hspi, hid⟩
      rw [if_pos hspi', if_neg (Nat.not_lt.mpr hspi), if_pos hid]
    · have hspi' : isSpi id ≠ true := fun h => hspi (of_decide_eq_true h).1
      rw [if_neg hspi', if_pos (Nat.not_le.mp hspi)]
  · rw [hp, hs, Bool.or_true, if_pos rfl, if_neg Bool.false_ne_true, if_neg (by omega),
      if_neg (by omega), if_pos (by omega), extendedPpiRegOffset,
      show (id - 1024) % 32 = id % 32 by omega]
  · rw [hs, Bool.true_or, if_pos rfl, if_pos rfl, if_neg (by omega), if_neg (by omega),
      if_neg (by omega), extendedSpiStartIntid, show (id - 4096) % 32 = id % 32 by omega]

/-- An enable bit belongs to one interrupt, and a register does not both set and clear. -/
theorem enableRegister_inj {b b' : Bool} (hid : Interrupt id) (hj : Interrupt j)
    (hbit : id % 32 = j % 32) (h : enableRegister b id = enableRegister b' j) :
    b = b' ∧ j = id := by
  rw [Interrupt] at hj hid
  cases b <;> cases b' <;> simp only [enableRegister, bankRegister, gicrCtlrFrameSize] at h <;>
    split_ifs at h <;> simp only [Register.mk.injEq] at h <;>
    simp only [reduceCtorEq, true_and] <;> omega

theorem enabled_apply (hid : Interrupt id) (hj : Interrupt j) (s : Hardware) (b : Bool) :
    (s.apply ⟨enableRegister b id, bitValue (id % 32)⟩).enabled j =
      if j = id then b else s.enabled j := by
  simp only [Hardware.apply, bitValue, Nat.one_shiftLeft, Nat.testBit_two_pow, decide_eq_true_eq]
  by_cases hji : j = id
  · rw [hji, if_pos rfl, if_pos rfl]
    cases b with
    | true => rw [if_pos rfl]
    | false => rw [if_neg fun h => Bool.false_ne_true (enableRegister_inj hid hid rfl h).1,
      if_pos rfl]
  · split_ifs with hbit hset hclear
    · exact absurd (enableRegister_inj hid hj hbit hset).2 hji
    · exact absurd (enableRegister_inj hid hj hbit hclear).2 hji
    · rfl
    · rfl

/-- The functions are right about every interrupt but the extended SPIs. -/
theorem enableDisable_iff (h : Supported c id) :
    EnableDisable c id ↔ v3IsExtendedSpi c id = false := by
  have hid := h.interrupt
  have hdisable : v3DisableInterruptSource c id = ⟨enableRegister false id, bitValue (id % 32)⟩ :=
    sourceWrite_eq h 0x180 0x180 0x1400
  have henable : v3EnableInterruptSource c id =
      ⟨enableRegister (!v3IsExtendedSpi c id) id, bitValue (id % 32)⟩ := by
    refine (sourceWrite_eq h 0x100 0x100 0x1400).trans (congrArg (Write.mk · _) ?_)
    rcases h.cases with ⟨hsmall, hs⟩ | ⟨hs, hlo, -⟩
    · rw [hs]
      simp [enableRegister, bankRegister, if_pos (show id < 4096 by omega)]
    · rw [hs]
      simp [enableRegister, bankRegister, if_neg (show ¬ id < 32 by omega),
        if_neg (show ¬ id < 1020 by omega), if_neg (Nat.not_lt.mpr hlo)]
  rw [EnableDisable, hdisable, henable]
  cases v3IsExtendedSpi c id with
  | false =>
    exact iff_of_true (fun s j hj => ⟨enabled_apply hid hj s true, enabled_apply hid hj s false⟩)
      rfl
  | true =>
    refine iff_of_false (fun hall => ?_) (by decide)
    have hself := (hall ⟨fun _ => 0, fun _ => false⟩ id hid).1
    rw [enabled_apply hid hid, if_pos rfl, if_pos rfl] at hself
    exact Bool.false_ne_true hself

def espiGic : Config := ⟨0x101, 0, 0, 0⟩

theorem enableDisable_spi : Supported espiGic 40 ∧ EnableDisable espiGic 40 :=
  have h : Supported espiGic 40 := Or.inl (by decide)
  ⟨h, (enableDisable_iff h).mpr (by decide)⟩

/-- Enabling the first extended SPI leaves it disabled. -/
theorem espiGic_not_enabled : Supported espiGic 4096 ∧ ¬ EnableDisable espiGic 4096 :=
  ⟨Or.inr (Or.inr (by decide)), fun h => absurd
    (h ⟨fun _ => 0, fun _ => false⟩ 4096 (Or.inr (Or.inr (by decide)))).1 (by decide)⟩

def Hardware.init (s : Hardware) (c : Config) : Hardware :=
  (v3Init c).foldl (fun s w => s.apply w.2) s

/-- The priority of interrupt 0 is written outside the frame of the priorities. -/
theorem not_initialised (c : Config) (s : Hardware) : ¬ Initialised c (s.init c) := by
  intro h
  have hloop : (Stage.priority, v3SetInterruptPriority gicDefaultPriority c 0) ∈
      loop .priority 0 (valGetMaxIntid c) (v3SetInterruptPriority gicDefaultPriority c) :=
    List.mem_map.mpr ⟨0, by simp [valGetMaxIntid], rfl⟩
  have hmem : (Stage.priority, v3SetInterruptPriority gicDefaultPriority c 0) ∈ v3Init c := by
    simp only [v3Init, List.mem_append]
    exact Or.inl (Or.inr hloop)
  have hregister : (v3SetInterruptPriority gicDefaultPriority c 0).register = ⟨.cpuRd, 0x400⟩ := by
    simp [v3SetInterruptPriority, sourceWrite, v3IsExtendedSpi, v3IsExtendedPpi,
      extendedSpiStartIntid, extendedPpiStartIntid, isSpi]
  obtain ⟨id, hid⟩ := h.inside _ hmem (Or.inl rfl)
  simp only [hregister, priorityRegister, bankRegister, routeRegister, gicrCtlrFrameSize] at hid
  split_ifs at hid <;>
    simp only [Register.mk.injEq, reduceCtorEq, false_and, or_false] at hid <;> omega

/-- The priority of interrupt 0 stays as it was. -/
theorem priority_not_set :
    ¬ Initialised ⟨0, 0, 0, 0⟩ (Hardware.init ⟨fun _ => 0, fun _ => true⟩ ⟨0, 0, 0, 0⟩) :=
  fun h => absurd (h.priority 0 (Or.inl (by decide))) (by decide +kernel)

end ServerSoc.Gic
