/-
The next device in the order of buses and devices: val_pcie_increment_busdev of acs_pcie.c,
incrementBusDev of pal_uefi_acpi/src/pal_pcie_enumeration.c and pal_increment_bus_dev of
pal_baremetal/pal_pcie_enumeration.c.

The three are one function with different ideas of the last device.  The VAL compares with the
number of devices, so it makes up a device 32 at the end of every bus.
-/
import Mathlib.Logic.Function.Iterate
import ServerSoc.Pcie.Cfg

namespace ServerSoc.Pcie

def pciMaxDevice : Nat := 31

/-- `PCIE_CREATE_BDF` of the PAL, which does not mask its arguments. -/
def palCreateBdf (seg bus dev func : Nat) : Nat :=
  (seg <<< 24 ||| bus <<< 16 ||| dev <<< 8 ||| func) % 2 ^ 32

def nextBusDev (create : Nat → Nat → Nat → Nat → Nat) (last startBdf : Nat) : Nat :=
  let seg := pcieExtractBdfSeg startBdf
  let bus := pcieExtractBdfBus startBdf
  let dev := pcieExtractBdfDev startBdf
  if dev ≠ last then create seg bus (dev + 1) 0 else create seg (bus + 1) 0 0

def valPcieIncrementBusdev (startBdf : Nat) : Nat := nextBusDev pcieCreateBdf pcieMaxDev startBdf

def incrementBusDev (startBdf : Nat) : Nat := nextBusDev palCreateBdf pciMaxDevice startBdf

def palIncrementBusDev (startBdf : Nat) : Nat := nextBusDev palCreateBdf (pcieMaxDev - 1) startBdf

/-- From device 0 of the bus on, `next` comes to device 0 of the next bus, and before that to
every device of this one once. -/
def VisitsBus (next : Nat → Nat) (seg bus : Nat) : Prop :=
  ∃ n, next^[n] (pcieCreateBdf seg bus 0 0) = pcieCreateBdf seg (bus + 1) 0 0 ∧
    (∀ k < n, pcieExtractBdfSeg (next^[k] (pcieCreateBdf seg bus 0 0)) = seg ∧
      pcieExtractBdfBus (next^[k] (pcieCreateBdf seg bus 0 0)) = bus) ∧
    ∀ dev < pcieMaxDev, ∃! k, k < n ∧
      next^[k] (pcieCreateBdf seg bus 0 0) = pcieCreateBdf seg bus dev 0

/-- The three agree on the device behind `bdf`, it is one, and each of them goes over the
devices of the bus. -/
structure SuccessorsAgree (bdf : Nat) : Prop where
  uefi : valPcieIncrementBusdev bdf = incrementBusDev bdf
  baremetal : valPcieIncrementBusdev bdf = palIncrementBusDev bdf
  device : pcieExtractBdfDev (valPcieIncrementBusdev bdf) < pcieMaxDev
  function : pcieExtractBdfFunc (valPcieIncrementBusdev bdf) = 0
  visits : ∀ next ∈ [valPcieIncrementBusdev, incrementBusDev, palIncrementBusDev],
    VisitsBus next (pcieExtractBdfSeg bdf) (pcieExtractBdfBus bdf)

section

variable {seg bus dev func : Nat}

theorem palCreateBdf_eq (hb : bus < 256) (hd : dev < 256) :
    palCreateBdf seg bus dev func = pcieCreateBdf seg bus dev func := by
  rw [palCreateBdf, pcieCreateBdf, show bus &&& 0xFF = bus % 256 from Base.and_low bus 8,
    show dev &&& 0xFF = dev % 256 from Base.and_low dev 8, Nat.mod_eq_of_lt hb,
    Nat.mod_eq_of_lt hd]

end

section

variable {next : Nat → Nat} {seg bus last bdf : Nat} {create : Nat → Nat → Nat → Nat → Nat}

def StepsTo (next : Nat → Nat) (seg bus last : Nat) : Prop :=
  (∀ dev < last, next (pcieCreateBdf seg bus dev 0) = pcieCreateBdf seg bus (dev + 1) 0) ∧
    next (pcieCreateBdf seg bus last 0) = pcieCreateBdf seg (bus + 1) 0 0

theorem iterate_of_stepsTo (h : StepsTo next seg bus last) {k : Nat} (hk : k ≤ last) :
    next^[k] (pcieCreateBdf seg bus 0 0) = pcieCreateBdf seg bus k 0 := by
  induction k with
  | zero => rfl
  | succ k ih => rw [Function.iterate_succ_apply', ih (by omega), h.1 k (by omega)]

theorem visitsBus_of_stepsTo (h : StepsTo next seg bus last) (hs : seg < 256) (hb : bus < 256)
    (hlast : 31 ≤ last) (hlt : last < 256) : VisitsBus next seg bus := by
  refine ⟨last + 1, ?_, ?_, ?_⟩
  · rw [Function.iterate_succ_apply', iterate_of_stepsTo h le_rfl, h.2]
  · intro k hk
    rw [iterate_of_stepsTo h (by omega)]
    have hf := pcieCreateBdf_fields hs hb (show k < 256 by omega) (show 0 < 256 by decide)
    exact ⟨hf.1, hf.2.1⟩
  · intro dev hdev
    have hdev : dev < 32 := hdev
    refine ⟨dev, ⟨by omega, iterate_of_stepsTo h (by omega)⟩, ?_⟩
    rintro k ⟨hk, hkdev⟩
    -- the device number tells the iterates apart
    rw [iterate_of_stepsTo h (by omega)] at hkdev
    have hfield := congrArg pcieExtractBdfDev hkdev
    rwa [(pcieCreateBdf_fields hs hb (show k < 256 by omega) (show 0 < 256 by decide)).2.2.1,
      (pcieCreateBdf_fields hs hb (by omega) (show 0 < 256 by decide)).2.2.1] at hfield

theorem nextBusDev_of_ne (h : pcieExtractBdfDev bdf ≠ last) :
    nextBusDev create last bdf =
      create (pcieExtractBdfSeg bdf) (pcieExtractBdfBus bdf) (pcieExtractBdfDev bdf + 1) 0 :=
  if_pos h

theorem stepsTo_nextBusDev
    (hcreate : ∀ b d, b < 256 → d < 256 → create seg b d 0 = pcieCreateBdf seg b d 0)
    (hs : seg < 256) (hb : bus < 255) (hlast : last < 255) :
    StepsTo (nextBusDev create last) seg bus last := by
  refine ⟨fun dev hdev => ?_, ?_⟩
  · obtain ⟨hseg, hbus, hd, -⟩ := pcieCreateBdf_fields hs (show bus < 256 by omega)
      (show dev < 256 by omega) (show 0 < 256 by decide)
    rw [nextBusDev_of_ne (by omega), hseg, hbus, hd, hcreate _ _ (by omega) (by omega)]
  · obtain ⟨hseg, hbus, hd, -⟩ := pcieCreateBdf_fields hs (show bus < 256 by omega)
      (show last < 256 by omega) (show 0 < 256 by decide)
    rw [nextBusDev, if_neg (not_not.mpr hd), hseg, hbus, hcreate _ _ (by omega) (by omega)]

end

/-- The three successors agree and stay inside the bus exactly when the device is not the
last of its bus. -/
theorem busDevSuccessors_agree_iff {bdf : Nat} (hbus : pcieExtractBdfBus bdf < 255)
    (hdev : pcieExtractBdfDev bdf < pcieMaxDev) :
    SuccessorsAgree bdf ↔ pcieExtractBdfDev bdf ≠ 31 := by
  have hdev : pcieExtractBdfDev bdf < 32 := hdev
  have hseg := pcieExtractBdfSeg_lt bdf
  have hval : valPcieIncrementBusdev bdf = pcieCreateBdf (pcieExtractBdfSeg bdf)
      (pcieExtractBdfBus bdf) (pcieExtractBdfDev bdf + 1) 0 :=
    nextBusDev_of_ne (by omega)
  obtain ⟨-, -, hnext, hzero⟩ := pcieCreateBdf_fields hseg
    (show pcieExtractBdfBus bdf < 256 by omega) (show pcieExtractBdfDev bdf + 1 < 256 by omega)
    (show 0 < 256 by decide)
  constructor
  · -- the VAL makes up a device behind the last one
    intro h hlast
    have hd := h.device
    rw [hval, hnext, hlast] at hd
    exact absurd hd (by decide)
  · intro hne
    have huefi : incrementBusDev bdf = valPcieIncrementBusdev bdf := by
      rw [hval, incrementBusDev, nextBusDev_of_ne (show _ ≠ pciMaxDevice from hne),
        palCreateBdf_eq (by omega) (by omega)]
    have hbare : palIncrementBusDev bdf = valPcieIncrementBusdev bdf := by
      rw [hval, palIncrementBusDev, nextBusDev_of_ne (show _ ≠ pcieMaxDev - 1 from hne),
        palCreateBdf_eq (by omega) (by omega)]
    refine ⟨huefi.symm, hbare.symm, ?_, ?_, ?_⟩
    · rw [hval, hnext]
      show pcieExtractBdfDev bdf + 1 < 32
      omega
    · rw [hval, hzero]
    · have hpal : StepsTo (nextBusDev palCreateBdf 31) (pcieExtractBdfSeg bdf)
          (pcieExtractBdfBus bdf) 31 :=
        stepsTo_nextBusDev (fun b d hb hd => palCreateBdf_eq hb hd) hseg hbus (by decide)
      have hvalSteps : StepsTo (nextBusDev pcieCreateBdf 32) (pcieExtractBdfSeg bdf)
          (pcieExtractBdfBus bdf) 32 :=
        stepsTo_nextBusDev (fun _ _ _ _ => rfl) hseg hbus (by decide)
      intro next hmem
      simp only [List.mem_cons, List.not_mem_nil, or_false] at hmem
      rcases hmem with rfl | rfl | rfl
      · exact visitsBus_of_stepsTo hvalSteps hseg (by omega) (by decide) (by decide)
      · exact visitsBus_of_stepsTo hpal hseg (by omega) (by decide) (by decide)
      · exact visitsBus_of_stepsTo hpal hseg (by omega) (by decide) (by decide)

theorem busDevSuccessors_agree_first : SuccessorsAgree (pcieCreateBdf 0 1 0 0) :=
  (busDevSuccessors_agree_iff (by decide) (by decide)).mpr (by decide)

/-- Behind device 31 the PAL goes to the next bus and the VAL to a device 32. -/
theorem busDevSuccessors_differ_last :
    valPcieIncrementBusdev (pcieCreateBdf 0 1 31 0) = pcieCreateBdf 0 1 32 0 ∧
      incrementBusDev (pcieCreateBdf 0 1 31 0) = pcieCreateBdf 0 2 0 0 ∧
      palIncrementBusDev (pcieCreateBdf 0 1 31 0) = pcieCreateBdf 0 2 0 0 ∧
      ¬SuccessorsAgree (pcieCreateBdf 0 1 31 0) := by
  refine ⟨by decide, by decide, by decide, fun h => ?_⟩
  exact absurd h.uefi (by decide)

end ServerSoc.Pcie
