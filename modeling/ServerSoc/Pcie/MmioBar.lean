/-
The first memory BAR of a function (acs_pcie.c).

A register that is not implemented reads as zero, which is of memory type, so the search ends at it
and returns address zero even when a memory BAR follows.
-/
import ServerSoc.Base.Counter
import ServerSoc.Pcie.BdfTable
import ServerSoc.Pcie.Lookup

namespace ServerSoc.Pcie

open Base List Option

abbrev CfgView.word (v : CfgView) (bdf : Nat) : Nat → Nat := cfgWord v.info v.read bdf

def type01Bar : Nat := 0x10
def type0MaxBars : Nat := 6
def type1MaxBars : Nat := 2
def type1HeaderType : Nat := 1

def isMmioBar (low : Nat) : Bool := (low >>> 0) &&& 0x1 = 0

def isBar64 (low : Nat) : Bool := (low >>> 1) &&& 0x3 = 2

def isBar32 (low : Nat) : Bool := (low >>> 1) &&& 0x3 = 0

def barLow (low : Nat) : Nat := ((low >>> 4) &&& 0xfffffff) <<< 4

section

variable (v : CfgView)

/-- The loop of `val_pcie_get_mmio_bar` with `n` registers left, of which `index` is the
next one.  `low` is `bar_low32bits`, and `base` what `*base` held before. -/
def searchMmioBar (bdf base : Nat) : Nat → Nat → Nat → Nat
  | 0, _, _ => 0
  | n + 1, index, low =>
    let low := (valPcieReadCfg v.info v.read bdf (type01Bar + index * 4)).getD low
    if isMmioBar low then
      let high :=
        if isBar64 low then
          (valPcieReadCfg v.info v.read bdf (type01Bar + (index + 1) * 4)).getD (v.stack bdf)
        else if isBar32 low then 0
        else base >>> 32
      high <<< 32 ||| barLow low
    else if valPcieFunctionHeaderType v bdf = type1HeaderType ∧ index + 1 = type1MaxBars then 0
    else searchMmioBar bdf base n (index + 1) low

/-- `exerciser bdf` is the base that `pal_exerciser_get_data` reports when
`pal_is_bdf_exerciser` says that the function is an exerciser. -/
def valPcieGetMmioBar (exerciser : Nat → Option Nat) (bdf base : Nat) : Nat :=
  match exerciser bdf with
  | some baseAddr => baseAddr % 2 ^ 64
  | none => searchMmioBar v bdf base type0MaxBars 0 (v.stack bdf)

end

/-! ## The registers of one function -/

section

variable (word : Nat → Nat)

def barBase (index : Nat) : Nat :=
  let low := word (type01Bar + index * 4)
  (if isBar64 low then word (type01Bar + (index + 1) * 4) else 0) <<< 32 ||| barLow low

def maxBars : Nat :=
  if (((word type01Clsr >>> 16) &&& 0xff) >>> 0) &&& 0x7f = type1HeaderType then type1MaxBars
  else type0MaxBars

def firstBarRegister : Nat → Nat → Nat
  | 0, _ => 0
  | n + 1, index =>
    if isMmioBar (word (type01Bar + index * 4)) then barBase word index
    else if maxBars word = type1MaxBars ∧ index + 1 = type1MaxBars then 0
    else firstBarRegister n (index + 1)

def firstMemoryBar : Nat → Nat → Option Nat
  | 0, _ => none
  | n + 1, index =>
    if maxBars word ≤ index then none
    else if isMmioBar (word (type01Bar + index * 4)) then
      if barBase word index ≠ 0 then some (barBase word index)
      else firstMemoryBar n (index + if isBar64 (word (type01Bar + index * 4)) then 2 else 1)
    else firstMemoryBar n (index + 1)

end

section

variable {word : Nat → Nat} {v : CfgView} {bdf index n : Nat}

theorem barLow_lt (low : Nat) : barLow low < 2 ^ 32 := by
  rw [barLow, show (0xfffffff : Nat) = 2 ^ 28 - 1 from rfl, shiftRight_and]
  omega

section

variable (hword : ∀ o, word o < 2 ^ 32)
include hword

theorem barBase_bounds (index : Nat) :
    barBase word index < 2 ^ 64 ∧ barBase word index % 16 = 0 := by
  have hlow : barLow (word (type01Bar + index * 4)) % 16 = 0 := by
    rw [barLow]
    omega
  have hlt := barLow_lt (word (type01Bar + index * 4))
  simp only [barBase]
  rw [shiftLeft_or hlt]
  have hhigh : (if isBar64 (word (type01Bar + index * 4)) then
      word (type01Bar + (index + 1) * 4) else 0) < 2 ^ 32 := by
    split
    · exact hword _
    · decide
  omega

theorem firstMemoryBar_bounds {base : Nat}
    (h : firstMemoryBar word n index = some base) : base < 2 ^ 64 ∧ base % 16 = 0 ∧ base ≠ 0 := by
  induction n generalizing index with
  | zero => cases h
  | succ n ih =>
    rw [firstMemoryBar] at h
    split at h
    · cases h
    · split at h
      · split at h
        · rename_i hne
          rw [some_inj] at h
          rw [← h]
          obtain ⟨h1, h2⟩ := barBase_bounds hword index
          exact ⟨h1, h2, hne⟩
        · exact ih h
      · exact ih h

theorem firstBarRegister_lt (n index : Nat) : firstBarRegister word n index < 2 ^ 64 := by
  induction n generalizing index with
  | zero => exact Nat.two_pow_pos 64
  | succ n ih =>
    rw [firstBarRegister]
    split
    · exact (barBase_bounds hword index).1
    · split
      · exact Nat.two_pow_pos 64
      · exact ih (index + 1)

end

theorem firstMemoryBar_of_ne_zero (hn : n + index = type0MaxBars) (hindex : index < maxBars word)
    (h : firstBarRegister word n index ≠ 0) :
    firstMemoryBar word n index = some (firstBarRegister word n index) := by
  induction n generalizing index with
  | zero => exact absurd rfl h
  | succ n ih =>
    rw [firstBarRegister] at h ⊢
    rw [firstMemoryBar, if_neg (not_le.mpr hindex)]
    by_cases hmmio : isMmioBar (word (type01Bar + index * 4)) = true
    · rw [if_pos hmmio] at h ⊢
      rw [if_pos hmmio, if_pos h]
    · rw [if_neg hmmio] at h ⊢
      rw [if_neg hmmio]
      by_cases hlast : maxBars word = type1MaxBars ∧ index + 1 = type1MaxBars
      · rw [if_pos hlast] at h
        exact absurd rfl h
      · rw [if_neg hlast] at h ⊢
        cases n with
        | zero => exact absurd rfl h
        | succ n =>
          refine ih (by omega) ?_ h
          rw [maxBars] at hindex hlast ⊢
          split_ifs at hindex with htype
          · rw [if_pos htype] at hlast ⊢
            omega
          · rw [if_neg htype]
            omega

theorem maxBars_pos (word : Nat → Nat) : 0 < maxBars word := by
  rw [maxBars]
  split <;> decide

theorem getD_valPcieReadCfg (h : Mapped v.info bdf) (o w : Nat) :
    (valPcieReadCfg v.info v.read bdf o).getD w = v.word bdf o := by
  rw [valPcieReadCfg_of_mapped h, getD_some]

theorem headerType_iff_maxBars (h : Mapped v.info bdf) :
    valPcieFunctionHeaderType v bdf = type1HeaderType ↔ maxBars (v.word bdf) = type1MaxBars := by
  rw [valPcieFunctionHeaderType, maxBars]
  simp only [getD_valPcieReadCfg h]
  split_ifs with htype
  · exact iff_of_true htype rfl
  · exact iff_of_false htype (by decide)

theorem searchMmioBar_of_mapped (h : Mapped v.info bdf) (n index low : Nat) :
    searchMmioBar v bdf 0 n index low = firstBarRegister (v.word bdf) n index := by
  induction n generalizing index low with
  | zero => rfl
  | succ n ih =>
    rw [searchMmioBar, firstBarRegister]
    simp only [getD_valPcieReadCfg h, headerType_iff_maxBars h, ih]
    split
    · rw [barBase]
      split
      · rfl
      · split <;> rfl
    · rfl

theorem searchMmioBar_of_not_mapped (h : ¬ Mapped v.info bdf) (n index : Nat) :
    searchMmioBar v bdf 0 n index 0 = 0 := by
  cases n with
  | zero => rfl
  | succ n =>
    rw [searchMmioBar]
    simp only [valPcieReadCfg_of_not_mapped h]
    rw [if_pos (by decide), if_neg (by decide)]
    rfl

end

/-! ## The memory type below a bridge

The loops over the buses, devices and functions below the bridge read the registers of the bridge
itself, whose header is not of Type 0. -/

section

variable (v : CfgView) (bdf : Nat)

/-- The loop over the functions, `n` of them left.  It leaves `data` and `status`. -/
def scanFunctions : Nat → Nat × Nat → Nat × Nat
  | 0, st => st
  | n + 1, (data, status) =>
    if valPcieFunctionHeaderType v bdf = type0HeaderType then
      let data := (valPcieReadCfg v.info v.read bdf type01Bar).getD data
      if data ≠ 0 ∧ ¬ isBar32 data then (data, 1) else scanFunctions n (data, status)
    else scanFunctions n (data, status)

def valPcieScanBridgeDevicesAndCheckMemtype : Nat :=
  let regValue := (valPcieReadCfg v.info v.read bdf type1Pbn).getD (v.stack bdf)
  let buses := List.range' (secBus regValue) (subBus regValue + 1 - secBus regValue)
  (buses.foldl (fun st _ =>
    (List.range pcieMaxDev).foldl (fun st _ => scanFunctions v bdf pcieMaxFunc st) st)
    (v.stack bdf, 0)).2

/-- A Type 0 function below the bridge has a BAR 0 that is not for 32-bit addresses. -/
def WideBarBelow : Prop :=
  ∃ fn, Mapped v.info fn ∧ pcieExtractBdfSeg fn = pcieExtractBdfSeg bdf ∧
    secBus (v.word bdf type1Pbn) ≤ pcieExtractBdfBus fn ∧
    pcieExtractBdfBus fn ≤ subBus (v.word bdf type1Pbn) ∧
    valPcieFunctionHeaderType v fn = type0HeaderType ∧
    v.word fn type01Bar ≠ 0 ∧ ¬ isBar32 (v.word fn type01Bar)

variable {v bdf}

theorem scanFunctions_bridge (hhead : valPcieFunctionHeaderType v bdf = type1HeaderType) (n : Nat)
    (st : Nat × Nat) : scanFunctions v bdf n st = st := by
  have hne : valPcieFunctionHeaderType v bdf ≠ type0HeaderType := by
    rw [hhead]
    decide
  induction n with
  | zero => rfl
  | succ n ih => rw [scanFunctions, if_neg hne, ih]

/-- The scan of a bridge is right exactly when there is nothing to be found. -/
theorem valPcieScanBridge_iff (hmap : Mapped v.info bdf)
    (hhead : valPcieFunctionHeaderType v bdf = type1HeaderType) :
    (valPcieScanBridgeDevicesAndCheckMemtype v bdf = 1 ↔ WideBarBelow v bdf) ↔
      ¬ WideBarBelow v bdf := by
  have hzero : valPcieScanBridgeDevicesAndCheckMemtype v bdf = 0 := by
    rw [valPcieScanBridgeDevicesAndCheckMemtype, valPcieReadCfg_of_mapped hmap]
    simp [scanFunctions_bridge hhead]
  rw [hzero]
  simp

end

def bar32Below : CfgView where
  info := some [⟨0x30000000, 0, 0, 1⟩]
  read := fun _ a => if a < 0x30100000 then 0x10100 else 0xe0000000
  onchip := fun _ => false
  stack := fun _ => 0

/-- The function below the bridge has a BAR of 32 bits. -/
theorem valPcieScanBridge_bar32Below :
    Mapped bar32Below.info 0 ∧ valPcieFunctionHeaderType bar32Below 0 = type1HeaderType ∧
      valPcieFunctionHeaderType bar32Below 0x10000 = type0HeaderType ∧
      (valPcieScanBridgeDevicesAndCheckMemtype bar32Below 0 = 1 ↔ WideBarBelow bar32Below 0) := by
  refine ⟨by decide, by decide, by decide, (valPcieScanBridge_iff (by decide) (by decide)).mpr ?_⟩
  rintro ⟨fn, -, -, -, -, -, -, hbar⟩
  apply hbar
  unfold CfgView.word cfgWord bar32Below
  dsimp only
  split <;> decide

def bar64Below : CfgView where
  info := some [⟨0x30000000, 0, 0, 1⟩]
  read := fun _ a => if a < 0x30100000 then 0x10100 else if a = 0x3010000C then 0 else 4
  onchip := fun _ => false
  stack := fun _ => 0

theorem valPcieScanBridge_misses :
    Mapped bar64Below.info 0 ∧ valPcieFunctionHeaderType bar64Below 0 = type1HeaderType ∧
      WideBarBelow bar64Below 0 ∧ valPcieScanBridgeDevicesAndCheckMemtype bar64Below 0 = 0 :=
  ⟨by decide, by decide, ⟨0x10000, by decide⟩, by decide⟩

/-! ## What val_pcie_get_mmio_bar writes

It may be called with every content of the base address registers and of the place it writes to.
The upper half is left alone for the reserved type codes. -/

section

variable (word : Nat → Nat)

def barWord (index : Nat) : Nat := word (type01Bar + index * 4)

def endingBar : Option Nat :=
  (List.range (maxBars word)).find? (fun index => isMmioBar (barWord word index))

def implementedBar : Option Nat :=
  (List.range (maxBars word)).find?
    (fun index => isMmioBar (barWord word index) ∧ barWord word index ≠ 0)

def addressOf (bar : Option Nat) : Nat := (bar.map (barBase word)).getD 0

/-- What the search writes when it ends at a register and `base` was there before. -/
def writtenAt (base : Nat) (bar : Option Nat) : Nat :=
  match bar with
  | none => 0
  | some index =>
    (if isBar64 (barWord word index) then barWord word (index + 1)
      else if isBar32 (barWord word index) then 0
      else base >>> 32) <<< 32 ||| barLow (barWord word index)

/-- The search ends nowhere, at an implemented BAR with one of the two type codes in use, or
at a register that reads zero while no memory BAR or one with address zero is implemented. -/
def BarDecided : Prop :=
  ∀ index, endingBar word = some index →
    (barWord word index ≠ 0 →
      isBar64 (barWord word index) = true ∨ isBar32 (barWord word index) = true) ∧
    (barWord word index = 0 → ∀ j, implementedBar word = some j → barBase word j = 0)

end

def WritesFirstBar (v : CfgView) (exerciser : Nat → Option Nat) (bdf : Nat) : Prop :=
  ∀ base, base < 2 ^ 64 → valPcieGetMmioBar v exerciser bdf base =
    addressOf (v.word bdf) (implementedBar (v.word bdf))

section

variable {word : Nat → Nat} {index bdf : Nat} {v : CfgView}

theorem barBase_eq (index : Nat) :
    barBase word index =
      (if isBar64 (barWord word index) then barWord word (index + 1) else 0) <<< 32
        ||| barLow (barWord word index) := rfl

theorem maxBars_eq (word : Nat → Nat) :
    maxBars word = type1MaxBars ∨ maxBars word = type0MaxBars := by
  rw [maxBars]
  split
  · exact .inl rfl
  · exact .inr rfl

theorem searchMmioBar_eq_writtenAt (h : Mapped v.info bdf) (base : Nat) {n low : Nat}
    (hn : n + index = type0MaxBars) (hindex : index < maxBars (v.word bdf)) :
    searchMmioBar v bdf base n index low =
      writtenAt (v.word bdf) base
        ((range' index (maxBars (v.word bdf) - index)).find?
          (fun i => isMmioBar (barWord (v.word bdf) i))) := by
  induction n generalizing index low with
  | zero =>
    rcases maxBars_eq (v.word bdf) with hmax | hmax
    · rw [hmax] at hindex
      unfold type1MaxBars at hindex
      unfold type0MaxBars at hn
      omega
    · omega
  | succ n ih =>
    have hrange : range' index (maxBars (v.word bdf) - index) =
        index :: range' (index + 1) (maxBars (v.word bdf) - (index + 1)) := by
      rw [← range'_succ]
      congr 1
      omega
    rw [searchMmioBar, hrange]
    simp only [getD_valPcieReadCfg h, headerType_iff_maxBars h]
    by_cases hmmio : isMmioBar (barWord (v.word bdf) index) = true
    · rw [find?_cons_of_pos (p := fun i => isMmioBar (barWord _ i)) hmmio]
      rw [barWord] at hmmio
      rw [if_pos hmmio]
      rfl
    · rw [find?_cons_of_neg (p := fun i => isMmioBar (barWord _ i)) hmmio]
      rw [barWord] at hmmio
      rw [if_neg hmmio]
      by_cases hmore : index + 1 < maxBars (v.word bdf)
      · rw [if_neg]
        · exact ih (by omega) hmore
        · omega
      · -- all registers of the header are seen, by the check for Type 1 or by the loop
        have hnil : maxBars (v.word bdf) - (index + 1) = 0 := by omega
        rw [hnil]
        rcases maxBars_eq (v.word bdf) with hmax | hmax
        · rw [if_pos ⟨hmax, by omega⟩]
          rfl
        · have hlast : n = 0 := by omega
          rw [hlast]
          split <;> rfl

theorem valPcieGetMmioBar_eq_writtenAt {exerciser : Nat → Option Nat} (h : Mapped v.info bdf)
    (hex : exerciser bdf = none) (base : Nat) :
    valPcieGetMmioBar v exerciser bdf base =
      writtenAt (v.word bdf) base (endingBar (v.word bdf)) := by
  rw [valPcieGetMmioBar, hex, endingBar, range_eq_range']
  exact searchMmioBar_eq_writtenAt h base rfl (maxBars_pos _)

theorem implementedBar_of_endingBar (h : endingBar word = some index)
    (hne : barWord word index ≠ 0) : implementedBar word = some index := by
  rw [endingBar, find?_range_eq_some_iff] at h
  rw [implementedBar, find?_range_eq_some_iff]
  refine ⟨h.1, by simpa using ⟨h.2.holds, hne⟩, fun j hj => ?_⟩
  simp [h.2.before j hj]

theorem implementedBar_of_endingBar_none (h : endingBar word = none) :
    implementedBar word = none := by
  rw [endingBar, find?_eq_none] at h
  rw [implementedBar, find?_eq_none]
  intro index hindex
  simp [h index hindex]

theorem writtenAt_of_code
    (h : isBar64 (barWord word index) = true ∨ isBar32 (barWord word index) = true) (base : Nat) :
    writtenAt word base (some index) = barBase word index := by
  rw [writtenAt, barBase_eq]
  by_cases h64 : isBar64 (barWord word index) = true
  · rw [if_pos h64, if_pos h64]
  · rw [if_neg h64, if_neg h64, if_pos (h.resolve_left h64)]

theorem writtenAt_reserved (h64 : ¬ isBar64 (barWord word index) = true)
    (h32 : ¬ isBar32 (barWord word index) = true) (base : Nat) :
    writtenAt word base (some index) / 2 ^ 32 = base >>> 32 ∧ barBase word index < 2 ^ 32 := by
  have hlow := barLow_lt (barWord word index)
  constructor
  · simp only [writtenAt, if_neg h64, if_neg h32]
    rw [shiftLeft_or hlow]
    omega
  · rw [barBase_eq, if_neg h64, Nat.zero_shiftLeft, Nat.zero_or]
    exact hlow

/-- The written value is the address of the first implemented BAR exactly when the search is
decided by it. -/
theorem writtenAt_eq_iff :
    (∀ base, base < 2 ^ 64 → writtenAt word base (endingBar word) =
      addressOf word (implementedBar word)) ↔ BarDecided word := by
  cases hend : endingBar word with
  | none =>
    rw [implementedBar_of_endingBar_none hend]
    simp [BarDecided, hend, writtenAt, addressOf]
  | some index =>
    have hdecided : BarDecided word ↔
        (barWord word index ≠ 0 →
          isBar64 (barWord word index) = true ∨ isBar32 (barWord word index) = true) ∧
        (barWord word index = 0 → ∀ j, implementedBar word = some j → barBase word j = 0) := by
      simp [BarDecided, hend]
    rw [hdecided]
    by_cases hzero : barWord word index = 0
    · have hwritten : ∀ base, writtenAt word base (some index) = 0 := by
        simp [writtenAt, hzero, isBar64, isBar32, barLow]
      simp only [hwritten, hzero, ne_eq, not_true_eq_false, false_imp_iff, true_and,
        forall_const]
      cases himp : implementedBar word with
      | none => simp [addressOf]
      | some j =>
        constructor
        · intro h k hk
          cases hk
          exact (h 0 (by decide)).symm
        · intro h base _
          exact (h j rfl).symm
    · rw [implementedBar_of_endingBar hend hzero]
      simp only [hzero, ne_eq, not_false_eq_true, true_imp_iff, false_imp_iff, and_true]
      constructor
      · intro h
        by_contra hcode
        rw [not_or] at hcode
        obtain ⟨hupper, hlow⟩ := writtenAt_reserved hcode.1 hcode.2 (2 ^ 32)
        rw [h (2 ^ 32) (by decide)] at hupper
        have haddress : addressOf word (some index) = barBase word index := rfl
        rw [haddress, Nat.div_eq_of_lt hlow] at hupper
        exact absurd hupper (by decide)
      · intro h base _
        exact writtenAt_of_code h base

end

/-- For a function that is no exerciser, the result is the address of its first implemented
memory BAR exactly when no register that reads zero is in front of one with an address, and
the first one has a type code in use. -/
theorem valPcieGetMmioBar_first_iff (v : CfgView) (exerciser : Nat → Option Nat) (bdf : Nat)
    (hmap : Mapped v.info bdf) (hex : exerciser bdf = none) :
    WritesFirstBar v exerciser bdf ↔ BarDecided (v.word bdf) := by
  rw [← writtenAt_eq_iff]
  constructor
  · intro h base hbase
    rw [← valPcieGetMmioBar_eq_writtenAt hmap hex]
    exact h base hbase
  · intro h base hbase
    rw [valPcieGetMmioBar_eq_writtenAt hmap hex]
    exact h base hbase

def withBars (bar0 bar1 : Nat) : CfgView where
  info := oneSegment
  read := fun _ a => if a = 0x30000010 then bar0 else if a = 0x30000014 then bar1 else 0
  onchip := fun _ => false
  stack := fun _ => 0

theorem valPcieGetMmioBar_bar64 : WritesFirstBar (withBars 0xe000000c 0x1) (fun _ => none) 0 := by
  apply (valPcieGetMmioBar_first_iff (withBars 0xe000000c 0x1) (fun _ => none) 0
    (by decide) rfl).mpr
  intro index hindex
  have hend : endingBar ((withBars 0xe000000c 0x1).word 0) = some 0 := by decide
  rw [hend, Option.some_inj] at hindex
  rw [← hindex]
  constructor
  · intro _
    exact .inl (by decide)
  · intro hzero
    exact absurd hzero (by decide)

/-- An unimplemented BAR in front of a memory BAR gives address zero, and a reserved type
code leaves the upper half as it was. -/
theorem valPcieGetMmioBar_misses :
    (Mapped (withBars 0 0xe0000000).info 0 ∧
      valPcieGetMmioBar (withBars 0 0xe0000000) (fun _ => none) 0 0 = 0 ∧
      ¬ WritesFirstBar (withBars 0 0xe0000000) (fun _ => none) 0) ∧
    (Mapped (withBars 0xe0000002 0).info 0 ∧
      valPcieGetMmioBar (withBars 0xe0000002 0) (fun _ => none) 0 0xffffffffffffffff =
        0xffffffffe0000000 ∧
      ¬ WritesFirstBar (withBars 0xe0000002 0) (fun _ => none) 0) := by
  refine ⟨⟨by decide, by decide, fun h => ?_⟩, ⟨by decide, by decide, fun h => ?_⟩⟩
  · exact absurd (h 0 (by decide)) (by decide)
  · exact absurd (h 0xffffffffffffffff (by decide)) (by decide)

end ServerSoc.Pcie
