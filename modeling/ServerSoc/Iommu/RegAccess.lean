/-
Which registers an access to an IOMMU reaches.

The registers are plain memory here.  An IOMMU that is a PCIe function has them behind
the first memory BAR of that function, and the access finds the BAR through a BDF that
keeps eight bits of the segment.
-/
import ServerSoc.Iommu.Table
import ServerSoc.Pcie.MmioBar

namespace ServerSoc.Iommu

open Base Memory Pcie Nat Option

/-! ## Registers as memory

`f x new old` is what becomes of the byte at `x` when `new` is written to it. -/

def plainBus (m : Mem) (bar : Nat → Nat) : RegBus where
  mmioRead := fun a => load m (a % 2 ^ 64) 4
  mmioRead64 := fun a => load m (a % 2 ^ 64) 8
  mmioBar := bar
  barMemRead := fun _ a => load m (a % 2 ^ 64) 4

def regStore (f : Nat → UInt8 → UInt8 → UInt8) (bar : Nat → Nat) : RegStore Mem where
  mmioWrite := fun a data m => storeWith f m (a % 2 ^ 64) 4 data
  mmioWrite64 := fun a data m => storeWith f m (a % 2 ^ 64) 8 data
  mmioBar := bar
  barMemWrite := fun _ a data m => storeWith f m (a % 2 ^ 64) 4 data

section

variable (v : CfgView) (exerciser : Nat → Option Nat) (g : Mem) (index : Nat)

def readReg (offset num : Nat) (m : Mem) : Nat :=
  valIommuReadIommuReg (plainBus m (fun bdf => valPcieGetMmioBar v exerciser bdf 0)) (some g) index
    offset num

def writeReg (offset num data : Nat) (m : Mem) : Mem :=
  valIommuWriteIommuReg
    (regStore (fun _ new _ => new) (fun bdf => valPcieGetMmioBar v exerciser bdf 0)) (some g) index
    offset num data m

end

/-- Accesses to the registers at `base`: a 64-bit write is read back, and an access to
`num` words at `offset` concerns no other bytes. -/
structure RegContract (read : Nat → Nat → Mem → Nat) (write : Nat → Nat → Nat → Mem → Mem)
    (base : Nat) : Prop where
  roundTrip : ∀ m offset data, offset ≤ 1024 → 8 ∣ offset → data < 2 ^ 64 →
    read offset 2 (write offset 2 data m) = data
  writes : ∀ m offset num data x, offset ≤ 1024 → 8 ∣ offset → num = 1 ∨ num = 2 →
    x < (base + offset) % 2 ^ 64 ∨ (base + offset) % 2 ^ 64 + 4 * num ≤ x →
    write offset num data m x = m x
  reads : ∀ m m' offset num, offset ≤ 1024 → 8 ∣ offset → num = 1 ∨ num = 2 →
    (∀ x, (base + offset) % 2 ^ 64 ≤ x → x < (base + offset) % 2 ^ 64 + 4 * num → m x = m' x) →
    read offset num m = read offset num m'

/-! ## The entries -/

section

variable (blocks : List PcieInfoBlock) (rd : MmioRead) (g : Mem) (index : Nat)

def Direct : Prop := valIommuGetInfo (some g) index .flags &&& 0x01 = 0

instance : Decidable (Direct g index) := inferInstanceAs (Decidable (_ = _))

/-- `x` is the function of the IOMMU: segment and requester id are those of the entry. -/
structure HostedBy (x : Slot) : Prop where
  mem : x ∈ slots blocks
  window : x.window.ecamBase ≠ 0
  segment : x.window.segmentNum = valIommuGetInfo (some g) index .pcieSeg
  bus : x.bus = valIommuGetInfo (some g) index .pcieBdf / 256
  dev : x.dev = valIommuGetInfo (some g) index .pcieBdf / 8 % 32
  func : x.func = valIommuGetInfo (some g) index .pcieBdf % 8

def RegistersAt (base : Nat) : Prop :=
  (Direct g index ∧ base = valIommuGetInfo (some g) index .baseAddress) ∨
    (¬ Direct g index ∧ ∃ x, HostedBy blocks g index x ∧
      firstMemoryBar (x.word rd) type0MaxBars 0 = some base)

def DistinctBars : Prop :=
  ∀ x ∈ slots blocks, ∀ y ∈ slots blocks, ∀ base,
    firstMemoryBar (x.word rd) type0MaxBars 0 = some base →
    firstMemoryBar (y.word rd) type0MaxBars 0 = some base → x = y

def iommuBdf : Nat :=
  let pcieSeg := valIommuGetInfo (some g) index .pcieSeg
  let pcieBdf := valIommuGetInfo (some g) index .pcieBdf
  (pcieSeg <<< 24 ||| (pcieBdf &&& 0xff00) <<< 8 ||| (pcieBdf &&& 0x00f8) <<< 5 |||
    (pcieBdf &&& 0x0007)) % 2 ^ 32

/-- The entry leads to the registers at `base`.  The segment of a PCIe function fits the
BDF and its first register of memory type is implemented, unless the platform takes the
function for an exerciser and reports the base itself. -/
def Addressed (exerciser : Nat → Option Nat) (base : Nat) : Prop :=
  Direct g index ∨ ∃ x, HostedBy blocks g index x ∧
    match exerciser (iommuBdf g index) with
    | some e => e % 2 ^ 64 = base
    | none => valIommuGetInfo (some g) index .pcieSeg < 256 ∧
        firstBarRegister (x.word rd) type0MaxBars 0 ≠ 0

end

/-! ## Accesses through a base -/

section

variable {bar : Nat → Nat} {g : Mem} {index : Nat}

/-- The base address the accesses are made with, where `bar` finds the BAR of a function. -/
def baseOf (bar : Nat → Nat) (g : Mem) (index : Nat) : Nat :=
  if Direct g index then valIommuGetInfo (some g) index .baseAddress else bar (iommuBdf g index)

theorem baseOf_of_direct (hd : Direct g index) :
    baseOf bar g index = valIommuGetInfo (some g) index .baseAddress := if_pos hd

theorem baseOf_of_not_direct (hd : ¬ Direct g index) :
    baseOf bar g index = bar (iommuBdf g index) := if_neg hd

theorem add_four_mod {base offset : Nat} (hbase : base % 8 = 0) (hoffset : 8 ∣ offset) :
    (base + offset + 4) % 2 ^ 64 = (base + offset) % 2 ^ 64 + 4 := by
  omega

variable (htype : valIommuGetInfo (some g) index .type = typeIommu) {offset : Nat}
  (ho : offset ≤ 1024)
include htype ho

theorem writeReg_one (f : Nat → UInt8 → UInt8 → UInt8) (data : Nat) (m : Mem) :
    valIommuWriteIommuReg (regStore f bar) (some g) index offset 1 data m =
      storeWith f m ((baseOf bar g index + offset) % 2 ^ 64) 4 data := by
  rw [valIommuWriteIommuReg, if_neg (by simp), if_neg (by omega), if_pos htype]
  by_cases hd : Direct g index
  · rw [baseOf_of_direct hd]
    exact (if_pos hd).trans (storeWith_mod f m _ 4 data)
  · rw [baseOf_of_not_direct hd]
    exact (if_neg hd).trans (storeWith_mod f m _ 4 data)

theorem readReg_one (m : Mem) :
    valIommuReadIommuReg (plainBus m bar) (some g) index offset 1 =
      load m ((baseOf bar g index + offset) % 2 ^ 64) 4 := by
  rw [valIommuReadIommuReg, if_neg (by simp), if_neg (by omega), if_pos htype]
  by_cases hd : Direct g index
  · rw [baseOf_of_direct hd]
    exact (if_pos hd).trans (mod_eq_of_lt (load_lt m _ 4))
  · rw [baseOf_of_not_direct hd]
    exact (if_neg hd).trans (mod_eq_of_lt (load_lt m _ 4))

variable (hoffset : 8 ∣ offset) (halign : Direct g index ∨ baseOf bar g index % 8 = 0)
include hoffset halign

theorem writeReg_two (f : Nat → UInt8 → UInt8 → UInt8) (data : Nat) (m : Mem) :
    valIommuWriteIommuReg (regStore f bar) (some g) index offset 2 data m =
      storeWith f m ((baseOf bar g index + offset) % 2 ^ 64) 8 data := by
  rw [valIommuWriteIommuReg, if_neg (by simp), if_neg (by omega), if_pos htype]
  by_cases hd : Direct g index
  · rw [baseOf_of_direct hd]
    exact if_pos hd
  · have hbase := halign.resolve_left hd
    have hhigh : (data &&& 0xffffffff00000000) >>> 32 = data / 256 ^ 4 % 256 ^ 4 := by
      rw [show (0xffffffff00000000 : Nat) = (2 ^ 32 - 1) <<< 32 from rfl, and_mask,
        shiftLeft_shiftRight]
      norm_num
    rw [baseOf_of_not_direct hd] at hbase ⊢
    rw [← storeWith_add f m _ 4 4 data, ← add_four_mod hbase hoffset, ← storeWith_mod f m _ 4 data]
    refine (if_neg hd).trans ?_
    rw [hhigh]
    exact storeWith_mod f _ _ 4 _

theorem readReg_two (m : Mem) :
    valIommuReadIommuReg (plainBus m bar) (some g) index offset 2 =
      load m ((baseOf bar g index + offset) % 2 ^ 64) 8 := by
  rw [valIommuReadIommuReg, if_neg (by simp), if_neg (by omega), if_pos htype]
  by_cases hd : Direct g index
  · rw [baseOf_of_direct hd]
    exact (if_pos hd).trans (mod_eq_of_lt (load_lt m _ 8))
  · have hbase := halign.resolve_left hd
    have hmask : ∀ w, w < 256 ^ 4 → w &&& 0xffffffff = w := by
      intro w hw
      rw [show (0xffffffff : Nat) = 2 ^ 32 - 1 from rfl, and_low]
      exact mod_eq_of_lt hw
    rw [baseOf_of_not_direct hd] at hbase ⊢
    rw [load_add m _ 4 4, ← add_four_mod hbase hoffset]
    refine (if_neg hd).trans ?_
    show (load m ((bar (iommuBdf g index) + offset + 4) % 2 ^ 64) 4 &&& 0xffffffff) <<< 32 |||
      (load m ((bar (iommuBdf g index) + offset) % 2 ^ 64) 4 &&& 0xffffffff) = _
    rw [hmask _ (load_lt m _ 4), hmask _ (load_lt m _ 4),
      shiftLeft_or (show _ < 2 ^ 32 from load_lt m _ 4)]
    ring

end

section

variable {v : CfgView} {exerciser : Nat → Option Nat} {g : Mem} {index : Nat}

def usedBase (v : CfgView) (exerciser : Nat → Option Nat) (g : Mem) (index : Nat) : Nat :=
  baseOf (fun bdf => valPcieGetMmioBar v exerciser bdf 0) g index

section

variable (htype : valIommuGetInfo (some g) index .type = typeIommu)
include htype

theorem regContract_usedBase (halign : Direct g index ∨ usedBase v exerciser g index % 8 = 0) :
    RegContract (readReg v exerciser g index) (writeReg v exerciser g index)
      (usedBase v exerciser g index) := by
  refine ⟨fun m offset data ho hoffset hdata => ?_, ?_, ?_⟩
  · rw [readReg, writeReg, readReg_two htype ho hoffset halign,
      writeReg_two htype ho hoffset halign]
    exact (load_store_self m _ 8 data).trans (mod_eq_of_lt hdata)
  · rintro m offset num data x ho hoffset (rfl | rfl) hx
    · rw [writeReg, writeReg_one htype ho]
      exact storeWith_outside hx
    · rw [writeReg, writeReg_two htype ho hoffset halign]
      exact storeWith_outside hx
  · rintro m m' offset num ho hoffset (rfl | rfl) hsame
    · rw [readReg, readReg, readReg_one htype ho, readReg_one htype ho]
      exact load_congr fun i hi => hsame _ (by rw [usedBase]; omega) (by rw [usedBase]; omega)
    · rw [readReg, readReg, readReg_two htype ho hoffset halign,
        readReg_two htype ho hoffset halign]
      exact load_congr fun i hi => hsame _ (by rw [usedBase]; omega) (by rw [usedBase]; omega)

theorem eq_of_regContract {base : Nat}
    (hused : usedBase v exerciser g index < 2 ^ 64) (hbase : base < 2 ^ 64)
    (h : RegContract (readReg v exerciser g index) (writeReg v exerciser g index) base) :
    usedBase v exerciser g index = base := by
  by_contra hne
  have hwrite : ∀ x, x < base ∨ base + 4 ≤ x → ¬ (usedBase v exerciser g index ≤ x ∧
      x < usedBase v exerciser g index + 4) := by
    rintro x hx ⟨h1, h2⟩
    have hkeep := h.writes (fun _ => 0) 0 1 0xffffffff x (by decide) (by decide) (.inl rfl)
      (by rw [add_zero, mod_eq_of_lt hbase]; omega)
    rw [writeReg, writeReg_one htype (by decide)] at hkeep
    rw [usedBase] at h1 h2 hused
    rw [add_zero, mod_eq_of_lt hused, storeWith_inside h1 h2] at hkeep
    have hbyte : ∀ i < 4, byteOf 0xffffffff i ≠ 0 := by decide
    exact hbyte _ (by omega) hkeep
  -- one of the ends of the range that is written is outside
  rcases Nat.lt_or_gt_of_ne hne with hlt | hgt
  · exact hwrite _ (.inl hlt) ⟨le_rfl, by omega⟩
  · exact hwrite (usedBase v exerciser g index + 3) (.inr (by omega)) ⟨by omega, by omega⟩

end

end

/-! ## The function of an entry -/

section

variable {blocks : List PcieInfoBlock} {rd : MmioRead} {g : Mem} {index base : Nat} {x : Slot}
  {exerciser : Nat → Option Nat}

theorem HostedBy.bdf_eq (h : HostedBy blocks g index x) : x.bdf = iommuBdf g index := by
  have hbus : (valIommuGetInfo (some g) index .pcieBdf &&& 0xff00) <<< 8 =
      (x.bus &&& 0xFF) <<< 16 := by
    rw [show (0xff00 : Nat) = (2 ^ 8 - 1) <<< 8 from rfl, and_mask, ← shiftLeft_add, h.bus,
      show (0xFF : Nat) = 2 ^ 8 - 1 from rfl, and_low]
    rfl
  have hdev : (valIommuGetInfo (some g) index .pcieBdf &&& 0x00f8) <<< 5 =
      (x.dev &&& 0xFF) <<< 8 := by
    rw [show (0x00f8 : Nat) = (2 ^ 5 - 1) <<< 3 from rfl, and_mask, ← shiftLeft_add, h.dev,
      show (0xFF : Nat) = 2 ^ 8 - 1 from rfl, and_low]
    omega
  have hfunc : valIommuGetInfo (some g) index .pcieBdf &&& 0x0007 = x.func := by
    rw [show (0x0007 : Nat) = 2 ^ 3 - 1 from rfl, and_low, h.func]
    rfl
  simp [Slot.bdf, pcieCreateBdf, iommuBdf, hbus, hdev, hfunc, h.segment]

theorem HostedBy.mapped (hinfo : InfoTable blocks) (h : HostedBy blocks g index x)
    (hseg : valIommuGetInfo (some g) index .pcieSeg < 256) : Mapped (some blocks) x.bdf := by
  have hdec := decodeBdf_bdf hinfo h.mem
  simp only [decodeBdf, Prod.mk.injEq] at hdec
  obtain ⟨hs, hb, hd, hf⟩ := hdec
  obtain ⟨hw, hstart, hend, hdev, hfunc⟩ := mem_slots.mp h.mem
  refine ⟨hd ▸ hdev, hf ▸ hfunc, ?_⟩
  rw [hs, hb, mod_eq_of_lt (h.segment ▸ hseg), findEcamBase_of_mem hinfo.disjoint hw hstart hend]
  exact h.window

theorem word_lt (x : Slot) (rd : MmioRead) (o : Nat) : x.word rd o < 2 ^ 32 :=
  mod_lt _ (Nat.two_pow_pos 32)

/-- A segment that does not fit leads to another function, or to address zero. -/
theorem HostedBy.usedBase_ne (hinfo : InfoTable blocks) (hbars : DistinctBars blocks rd)
    (h : HostedBy blocks g index x) (hd : ¬ Direct g index)
    (hseg : ¬ valIommuGetInfo (some g) index .pcieSeg < 256)
    (hex : exerciser (iommuBdf g index) = none) (onchip : Nat → Bool)
    (hbase : firstMemoryBar (x.word rd) type0MaxBars 0 = some base) :
    usedBase ⟨some blocks, rd, onchip, fun _ => 0⟩ exerciser g index < 2 ^ 64 ∧
      usedBase ⟨some blocks, rd, onchip, fun _ => 0⟩ exerciser g index ≠ base := by
  rw [usedBase, baseOf_of_not_direct hd, valPcieGetMmioBar, hex]
  simp only
  rw [← h.bdf_eq]
  have hne := (firstMemoryBar_bounds (word_lt x rd) hbase).2.2
  by_cases hmap : Mapped (some blocks) x.bdf
  · obtain ⟨y, hy, -, hyseg, hword⟩ := exists_alias hinfo h.mem hmap
    have hword : cfgWord (some blocks) rd x.bdf = y.word rd := funext (hword rd)
    rw [searchMmioBar_of_mapped hmap, CfgView.word, hword]
    refine ⟨firstBarRegister_lt (word_lt y rd) _ _, fun heq => ?_⟩
    have hfirst := @firstMemoryBar_of_ne_zero (y.word rd) 0 type0MaxBars rfl
      (maxBars_pos _) (heq ▸ hne)
    rw [heq] at hfirst
    have hxy := hbars x h.mem y hy base hbase hfirst
    rw [← hxy, h.segment] at hyseg
    omega
  · rw [searchMmioBar_of_not_mapped hmap]
    exact ⟨Nat.two_pow_pos 64, Ne.symm hne⟩

theorem HostedBy.addressed_iff (hinfo : InfoTable blocks) (hx : HostedBy blocks g index x)
    (hd : ¬ Direct g index) :
    Addressed blocks rd g index exerciser base ↔
      match exerciser (iommuBdf g index) with
      | some e => e % 2 ^ 64 = base
      | none => valIommuGetInfo (some g) index .pcieSeg < 256 ∧
          firstBarRegister (x.word rd) type0MaxBars 0 ≠ 0 := by
  constructor
  · rintro (hdir | ⟨y, hy, h⟩)
    · exact absurd hdir hd
    · have hyx : y = x := ident_inj hinfo hy.mem hx.mem (by
        simp [Slot.ident, hy.segment, hx.segment, hy.bus, hx.bus, hy.dev, hx.dev, hy.func, hx.func])
      exact hyx ▸ h
  · intro h
    exact .inr ⟨x, hx, h⟩

end

/-- An IOMMU entry gives access to the registers of its IOMMU, and of no other, exactly
when it leads to them. -/
theorem iommu_registers_iff (blocks : List PcieInfoBlock) (hinfo : InfoTable blocks) (rd : MmioRead)
    (hbars : DistinctBars blocks rd) (onchip : Nat → Bool) (exerciser : Nat → Option Nat) (g : Mem)
    (index : Nat) (htype : valIommuGetInfo (some g) index .type = typeIommu) (base : Nat)
    (hregs : RegistersAt blocks rd g index base) :
    (∀ stack, RegContract (readReg ⟨some blocks, rd, onchip, stack⟩ exerciser g index)
      (writeReg ⟨some blocks, rd, onchip, stack⟩ exerciser g index) base) ↔
    Addressed blocks rd g index exerciser base := by
  rcases hregs with ⟨hd, hbase⟩ | ⟨hd, x, hx, hbase⟩
  · refine iff_of_true (fun stack => ?_) (.inl hd)
    have hcontract := @regContract_usedBase ⟨some blocks, rd, onchip, stack⟩
      exerciser g index htype (.inl hd)
    rwa [usedBase, baseOf_of_direct hd, ← hbase] at hcontract
  · obtain ⟨hlt, halign, hne⟩ := firstMemoryBar_bounds (word_lt x rd) hbase
    -- the contract for a base that is found on every stack
    have hfound : ∀ c, c < 2 ^ 64 →
        (∀ stack, usedBase ⟨some blocks, rd, onchip, stack⟩ exerciser g index = c) →
        ((∀ stack, RegContract (readReg ⟨some blocks, rd, onchip, stack⟩ exerciser g index)
          (writeReg ⟨some blocks, rd, onchip, stack⟩ exerciser g index) base) ↔ c = base) := by
      intro c hc hused
      constructor
      · intro h
        have heq := eq_of_regContract htype (by rw [hused]; exact hc) hlt (h (fun _ => 0))
        rwa [hused] at heq
      · rintro rfl stack
        have hcontract := @regContract_usedBase ⟨some blocks, rd, onchip, stack⟩
          exerciser g index htype (.inr (by rw [hused]; omega))
        rwa [hused] at hcontract
    rw [hx.addressed_iff hinfo hd]
    cases hex : exerciser (iommuBdf g index) with
    | some e =>
      refine hfound (e % 2 ^ 64) (mod_lt _ (Nat.two_pow_pos 64)) fun stack => ?_
      rw [usedBase, baseOf_of_not_direct hd, valPcieGetMmioBar, hex]
    | none =>
      by_cases hseg : valIommuGetInfo (some g) index .pcieSeg < 256
      · have hmap := hx.mapped hinfo hseg
        have hword : cfgWord (some blocks) rd x.bdf = x.word rd :=
          funext (cfgWord_bdf hinfo hx.mem (hx.segment ▸ hseg) rd)
        rw [hfound _ (firstBarRegister_lt (word_lt x rd) _ _) (fun stack => by
          rw [usedBase, baseOf_of_not_direct hd, valPcieGetMmioBar, hex, ← hx.bdf_eq,
            searchMmioBar_of_mapped hmap, CfgView.word, hword])]
        have hiff : firstBarRegister (x.word rd) type0MaxBars 0 = base ↔
            firstBarRegister (x.word rd) type0MaxBars 0 ≠ 0 := by
          constructor
          · intro h
            rwa [h]
          · intro h
            have hfirst := firstMemoryBar_of_ne_zero rfl (maxBars_pos _) h
            rw [hbase, some_inj] at hfirst
            exact hfirst.symm
        rw [hiff]
        exact (and_iff_right hseg).symm
      · refine iff_of_false (fun h => ?_) (fun h => hseg h.1)
        obtain ⟨hc, hcne⟩ := hx.usedBase_ne hinfo hbars hd hseg hex onchip hbase
        exact hcne (eq_of_regContract htype hc hlt (h (fun _ => 0)))

/-! ## Two segments -/

/-- Every function has a memory BAR at the address of its configuration space. -/
def barAtConfig : MmioRead := fun _ a => if a % 4096 = 0x10 then a - 0x10 else 0

def pcieEntry (segHigh : UInt8) : Mem := fun a =>
  if a = 40 then 1 else if a = 45 then segHigh else if a = 46 then 8 else 0

def twoSegments : List PcieInfoBlock := [⟨0x30000000, 0, 0, 0⟩, ⟨0x40000000, 256, 0, 0⟩]

theorem infoTable_twoSegments : InfoTable twoSegments := by
  refine ⟨by decide, by decide, ?_⟩
  simp [twoSegments]

def configBase (x : Slot) : Nat := x.window.ecamBase + x.dev * 32768 + x.func * 4096

variable {x : Slot}

section

variable (hx : x ∈ slots twoSegments)
include hx

theorem ecamBase_twoSegments :
    (x.window.ecamBase = 0x30000000 ∧ x.window = ⟨0x30000000, 0, 0, 0⟩ ∨
      x.window.ecamBase = 0x40000000 ∧ x.window = ⟨0x40000000, 256, 0, 0⟩) ∧
      x.bus = 0 ∧ x.dev < 32 ∧ x.func < 8 := by
  obtain ⟨hw, -, hend, hdev, hfunc⟩ := mem_slots.mp hx
  rw [twoSegments, List.mem_cons, List.mem_singleton] at hw
  rcases hw with hw | hw
  · rw [hw] at hend
    exact ⟨.inl ⟨by rw [hw], hw⟩, le_zero.mp hend, hdev, hfunc⟩
  · rw [hw] at hend
    exact ⟨.inr ⟨by rw [hw], hw⟩, le_zero.mp hend, hdev, hfunc⟩

theorem word_barAtConfig {o : Nat} (ho : o < 4096) :
    x.word barAtConfig o = if o = 0x10 then configBase x else 0 := by
  obtain ⟨hbase, hbus, hdev, hfunc⟩ := ecamBase_twoSegments hx
  have haddr : cfgAddress x.window.ecamBase x.bus x.dev x.func o = configBase x + o := by
    simp only [cfgAddress, pcieMaxDev, pcieMaxFunc, configBase, hbus]
    omega
  rw [Slot.word, haddr, barAtConfig, configBase]
  by_cases h10 : o = 0x10
  · rw [if_pos h10, if_pos (by omega)]
    omega
  · rw [if_neg h10, if_neg (by omega), zero_mod]

theorem firstMemoryBar_barAtConfig :
    firstMemoryBar (x.word barAtConfig) type0MaxBars 0 = some (configBase x) := by
  obtain ⟨hbase, hbus, hdev, hfunc⟩ := ecamBase_twoSegments hx
  have hlow : x.word barAtConfig (type01Bar + 0 * 4) = configBase x :=
    word_barAtConfig hx (by decide)
  have hclsr : x.word barAtConfig type01Clsr = 0 := word_barAtConfig hx (by decide)
  have hmax : maxBars (x.word barAtConfig) = 6 := by
    rw [maxBars, hclsr]
    rfl
  have h16 : configBase x % 4096 = 0 ∧ configBase x < 2 ^ 32 ∧ configBase x ≠ 0 := by
    rw [configBase]
    omega
  have hmmio : isMmioBar (configBase x) = true := by
    rw [isMmioBar, decide_eq_true_eq, show (0x1 : Nat) = 2 ^ 1 - 1 from rfl, shiftRight_and]
    omega
  have h64 : isBar64 (configBase x) = false := by
    rw [isBar64, decide_eq_false_iff_not, show (0x3 : Nat) = 2 ^ 2 - 1 from rfl, shiftRight_and]
    omega
  have hbar : barBase (x.word barAtConfig) 0 = configBase x := by
    simp only [barBase, hlow, h64, Bool.false_eq_true, if_false, zero_shiftLeft, zero_or]
    rw [barLow, show (0xfffffff : Nat) = 2 ^ 28 - 1 from rfl, shiftRight_and]
    omega
  rw [show type0MaxBars = 5 + 1 from rfl, firstMemoryBar, hmax, hlow, hmmio, hbar]
  simp [h16.2.2]

end

theorem distinctBars_twoSegments : DistinctBars twoSegments barAtConfig := by
  intro x hx y hy base hxb hyb
  rw [firstMemoryBar_barAtConfig hx, some_inj] at hxb
  rw [firstMemoryBar_barAtConfig hy, some_inj, ← hxb, configBase, configBase] at hyb
  obtain ⟨hbase, hbus, hdev, hfunc⟩ := ecamBase_twoSegments hx
  obtain ⟨hbase', hbus', hdev', hfunc'⟩ := ecamBase_twoSegments hy
  have hwindow : x.window = y.window := by
    rcases hbase with ⟨h, hw⟩ | ⟨h, hw⟩
    · rcases hbase' with ⟨h', hw'⟩ | ⟨h', hw'⟩
      · rw [hw, hw']
      · omega
    · rcases hbase' with ⟨h', hw'⟩ | ⟨h', hw'⟩
      · omega
      · rw [hw, hw']
  obtain ⟨w, b, d, f⟩ := x
  obtain ⟨w', b', d', f'⟩ := y
  simp only at hbus hbus' hdev hdev' hfunc hfunc' hwindow hyb
  rw [hwindow] at hyb ⊢
  rw [hbus, hbus', show d = d' by omega, show f = f' by omega]

theorem hostedBy_pcieEntry_zero :
    HostedBy twoSegments (pcieEntry 0) 0 ⟨⟨0x30000000, 0, 0, 0⟩, 0, 1, 0⟩ :=
  ⟨mem_slots.mpr (by decide), by decide, by decide, by decide, by decide, by decide⟩

theorem iommu_registers_first_segment :
    RegistersAt twoSegments barAtConfig (pcieEntry 0) 0 0x30008000 ∧
      ∀ stack, RegContract (readReg ⟨some twoSegments, barAtConfig, fun _ => false, stack⟩
          (fun _ => none) (pcieEntry 0) 0)
        (writeReg ⟨some twoSegments, barAtConfig, fun _ => false, stack⟩ (fun _ => none)
          (pcieEntry 0) 0) 0x30008000 := by
  have hregs : RegistersAt twoSegments barAtConfig (pcieEntry 0) 0 0x30008000 :=
    .inr ⟨by decide, _, hostedBy_pcieEntry_zero,
      firstMemoryBar_barAtConfig hostedBy_pcieEntry_zero.mem⟩
  refine ⟨hregs, (iommu_registers_iff twoSegments infoTable_twoSegments barAtConfig
    distinctBars_twoSegments (fun _ => false) (fun _ => none) (pcieEntry 0) 0 (by decide) 0x30008000
    hregs).mpr ?_⟩
  exact .inr ⟨_, hostedBy_pcieEntry_zero, by decide, by decide⟩

/-- The registers of IOMMU 256:0:1.0 are at 0x40008000, and a write to them goes to the
function 0:0:1.0. -/
theorem write_reaches_other_segment :
    RegistersAt twoSegments barAtConfig (pcieEntry 1) 0 0x40008000 ∧
      writeReg ⟨some twoSegments, barAtConfig, fun _ => false, fun _ => 0⟩ (fun _ => none)
        (pcieEntry 1) 0 0 1 1 (fun _ => 0) 0x30008000 = 1 ∧
      ¬ RegContract (readReg ⟨some twoSegments, barAtConfig, fun _ => false, fun _ => 0⟩
          (fun _ => none) (pcieEntry 1) 0)
        (writeReg ⟨some twoSegments, barAtConfig, fun _ => false, fun _ => 0⟩ (fun _ => none)
          (pcieEntry 1) 0) 0x40008000 := by
  have hhosted : HostedBy twoSegments (pcieEntry 1) 0 ⟨⟨0x40000000, 256, 0, 0⟩, 0, 1, 0⟩ :=
    ⟨mem_slots.mpr (by decide), by decide, by decide, by decide, by decide, by decide⟩
  have hwrite : writeReg ⟨some twoSegments, barAtConfig, fun _ => false, fun _ => 0⟩ (fun _ => none)
      (pcieEntry 1) 0 0 1 1 (fun _ => 0) 0x30008000 = 1 := by
    decide
  refine ⟨.inr ⟨by decide, _, hhosted, firstMemoryBar_barAtConfig hhosted.mem⟩, hwrite,
    fun h => ?_⟩
  have hkeep := h.writes (fun _ => 0) 0 1 1 0x30008000 (by decide) (by decide) (.inl rfl)
  exact absurd hkeep (by decide)

end ServerSoc.Iommu
