/-
Building the table of PCIe functions (acs_pcie.c).

The enumeration writes to the configuration space: it sets the memory space and bus master bits of
every function it finds.  `CfgHw` is the hardware behind these reads and writes, and `Undisturbed`
says of it that setting these bits changes no other register.
-/
import ServerSoc.Pcie.Capability

namespace ServerSoc.Pcie

open List

def type01Cr : Nat := 0x4
def type01Ridr : Nat := 0x8
def cidPciecs : Nat := 0x10

structure CfgHw (σ : Type) where
  read : σ → MmioRead
  write : σ → Nat → Nat → σ

variable {σ : Type}

section

variable (hw : CfgHw σ) (t : Option (List PcieInfoBlock))

def valPcieWriteCfg (s : σ) (bdf offset data : Nat) : σ :=
  let bus := pcieExtractBdfBus bdf
  let dev := pcieExtractBdfDev bdf
  let func := pcieExtractBdfFunc bdf
  let segment := pcieExtractBdfSeg bdf
  if pcieMaxBus ≤ bus ∨ pcieMaxDev ≤ dev ∨ pcieMaxFunc ≤ func then s
  else if t.isNone then s
  else
    let ecamBase := findEcamBase t bus segment
    if ecamBase = 0 then s
    else hw.write s (cfgAddress ecamBase bus dev func offset) data

def valPcieEnableBme (s : σ) (bdf : Nat) : σ :=
  let regValue := (valPcieReadCfg t (hw.read s) bdf type01Cr).getD 0
  valPcieWriteCfg hw t s bdf type01Cr (regValue ||| 1 <<< 2)

def valPcieEnableMsa (s : σ) (bdf : Nat) : σ :=
  let regValue := (valPcieReadCfg t (hw.read s) bdf type01Cr).getD 0
  valPcieWriteCfg hw t s bdf type01Cr (regValue ||| 1 <<< 1)

def valPcieIsHostBridge (rd : MmioRead) (bdf : Nat) : Bool :=
  let regValue := (valPcieReadCfg t rd bdf type01Ridr).getD 0
  0x06 = (regValue >>> 24) &&& 0xFF ∧ 0x00 = (regValue >>> 16) &&& 0xFF

inductive Probe (σ : Type) where
  | noMapping
  | next (s : σ) (table : List Nat)

/-- The body of the four loops.  `valid` is `pal_pcie_check_device_valid`, and `none` a
search for the capability the fuel did not end. -/
def probeFunction (fuel : Nat) (valid : Nat → Nat) (s : σ) (table : List Nat) (bdf : Nat) :
    Option (Probe σ) :=
  match valPcieReadCfg t (hw.read s) bdf type01Vidr with
  | none => some .noMapping
  | some regValue =>
    if regValue = pcieUnknownResponse then some (.next s table)
    else if valPcieIsHostBridge t (hw.read s) bdf then some (.next s table)
    else
      let s := valPcieEnableBme hw t s bdf
      let s := valPcieEnableMsa hw t s bdf
      match valPcieFindCapability fuel t (hw.read s) bdf .pcieCap cidPciecs 0 0 with
      | none => none
      | some (pCap, _) =>
        if pCap ≠ pcieSuccess then some (.next s table)
        else if valid bdf ≠ 0 then some (.next s table)
        else some (.next s (table ++ [bdf]))

def probeAll (fuel : Nat) (valid : Nat → Nat) : List Nat → σ → List Nat →
    Option (Nat × List Nat × σ)
  | [], s, table => some (0, table, s)
  | bdf :: bdfs, s, table =>
    match probeFunction hw t fuel valid s table bdf with
    | none => none
    | some .noMapping => some (1, table, s)
    | some (.next s table) => probeAll fuel valid bdfs s table

def loopBdfs : List Nat :=
  (range (valPcieGetInfo t .numEcam 0)).flatMap (fun ecamIndex =>
    let segNum := valPcieGetInfo t .segment ecamIndex
    let startBus := valPcieGetInfo t .startBus ecamIndex
    let endBus := valPcieGetInfo t .endBus ecamIndex
    (range' startBus (endBus + 1 - startBus)).flatMap (fun busIndex =>
      (range pcieMaxDev).flatMap (fun devIndex =>
        (range pcieMaxFunc).map (fun funcIndex =>
          pcieCreateBdf segNum busIndex devIndex funcIndex))))

/-- `g` is `g_pcie_bdf_table` and `alloc` says whether the allocation succeeds.  The
result is the return value, the table and the hardware.  The root ports the source adds
to the finished entries are not part of the table here. -/
def valPcieCreateDeviceBdfTable (fuel : Nat) (valid : Nat → Nat) (alloc : Bool)
    (g : Option (List Nat)) (s : σ) : Option (Nat × Option (List Nat) × σ) :=
  match g with
  | some table => some (pcieSuccess, some table, s)
  | none =>
    if alloc then
      if valPcieGetInfo t .numEcam 0 = 0 then some (1, some [], s)
      else
        match probeAll hw t fuel valid (loopBdfs t) s [] with
        | none => none
        | some (ret, table, s) => some (ret, some table, s)
    else some (1, none, s)

/-! ## The hardware -/

def enable (s : σ) (bdf : Nat) : σ := valPcieEnableMsa hw t (valPcieEnableBme hw t s bdf) bdf

def enableAll (s : σ) (gs : List Nat) : σ := gs.foldl (enable hw t) s

/-- Enabling functions changes no register but their command registers, and what an
enabled function's command register reads does not depend on the others. -/
structure Undisturbed (s0 : σ) : Prop where
  others : ∀ gs bdf o, Mapped t bdf → o ≠ type01Cr →
    cfgWord t (hw.read (enableAll hw t s0 gs)) bdf o = cfgWord t (hw.read s0) bdf o
  command : ∀ gs gs' bdf, Mapped t bdf → bdf ∈ gs → bdf ∈ gs' →
    cfgWord t (hw.read (enableAll hw t s0 gs)) bdf type01Cr =
      cfgWord t (hw.read (enableAll hw t s0 gs')) bdf type01Cr

end

/-! ## One function -/

def candidate (t : Option (List PcieInfoBlock)) (rd : MmioRead) (bdf : Nat) : Bool :=
  cfgWord t rd bdf type01Vidr ≠ pcieUnknownResponse ∧ valPcieIsHostBridge t rd bdf = false

def pciecsSearch (fuel : Nat) (t : Option (List PcieInfoBlock)) (rd : MmioRead) (bdf : Nat) :
    Option (Nat × Nat) :=
  valPcieFindCapability fuel t rd bdf .pcieCap cidPciecs 0 0

variable {hw : CfgHw σ} {t : Option (List PcieInfoBlock)} {bdf : Nat}

theorem probeFunction_of_mapped (h : Mapped t bdf) (fuel : Nat) (valid : Nat → Nat) (s : σ)
    (table : List Nat) :
    probeFunction hw t fuel valid s table bdf =
      if candidate t (hw.read s) bdf then
        (pciecsSearch fuel t (hw.read (enable hw t s bdf)) bdf).map (fun r =>
          .next (enable hw t s bdf)
            (if r.1 = pcieSuccess ∧ valid bdf = 0 then table ++ [bdf] else table))
      else some (.next s table) := by
  unfold probeFunction candidate
  rw [valPcieReadCfg_of_mapped h]
  by_cases hones : cfgWord t (hw.read s) bdf type01Vidr = pcieUnknownResponse
  · simp [hones]
  · by_cases hhb : valPcieIsHostBridge t (hw.read s) bdf = true
    · simp [hhb]
    · have hhb' : valPcieIsHostBridge t (hw.read s) bdf = false := by simpa using hhb
      simp only [hhb', ne_eq, hones]
      show (match pciecsSearch fuel t (hw.read (enable hw t s bdf)) bdf with
        | none => none
        | some (pCap, _) => _) = _
      cases pciecsSearch fuel t (hw.read (enable hw t s bdf)) bdf with
      | none => rfl
      | some r =>
        by_cases hr : r.1 = pcieSuccess
        · by_cases hv : valid bdf = 0
          · simp [hr, hv, enable]
          · simp [hv, enable]
        · simp [hr, enable]

theorem probeFunction_of_not_mapped (h : ¬ Mapped t bdf) (fuel : Nat) (valid : Nat → Nat) (s : σ)
    (table : List Nat) : probeFunction hw t fuel valid s table bdf = some .noMapping := by
  unfold probeFunction
  rw [valPcieReadCfg_of_not_mapped h]

theorem valPcieIsHostBridge_congr {rd rd' : MmioRead} (hmap : Mapped t bdf)
    (h : cfgWord t rd bdf type01Ridr = cfgWord t rd' bdf type01Ridr) :
    valPcieIsHostBridge t rd bdf = valPcieIsHostBridge t rd' bdf := by
  unfold valPcieIsHostBridge
  rw [valPcieReadCfg_of_mapped hmap, valPcieReadCfg_of_mapped hmap, h]

theorem pciecsSearch_congr {rd rd' : MmioRead} (hmap : Mapped t bdf)
    (h : ∀ o, cfgWord t rd bdf o = cfgWord t rd' bdf o) (fuel : Nat) :
    pciecsSearch fuel t rd bdf = pciecsSearch fuel t rd' bdf := by
  have hnext : capNext t rd bdf .pcieCap = capNext t rd' bdf .pcieCap := by
    funext o
    rw [capNext, capNext, h]
  have hcid : hasCid t rd bdf .pcieCap cidPciecs = hasCid t rd' bdf .pcieCap cidPciecs := by
    funext o
    rw [hasCid, hasCid, h]
  simp [pciecsSearch, valPcieFindCapability, valPcieReadCfg_of_mapped hmap,
    searchCapability_of_mapped hmap, h type01Cpr, hnext, hcid]

/-! ## The whole enumeration -/

section

variable {s0 : σ} {l : List Nat}

def candidates (hw : CfgHw σ) (t : Option (List PcieInfoBlock)) (s0 : σ) : List Nat :=
  (loopBdfs t).filter fun bdf => decide (Mapped t bdf) && candidate t (hw.read s0) bdf

def enabled (hw : CfgHw σ) (t : Option (List PcieInfoBlock)) (s0 : σ) : σ :=
  enableAll hw t s0 (candidates hw t s0)

theorem candidate_enableAll (hu : Undisturbed hw t s0) (gs : List Nat) (hmap : Mapped t bdf) :
    candidate t (hw.read (enableAll hw t s0 gs)) bdf = candidate t (hw.read s0) bdf := by
  unfold candidate
  rw [hu.others gs bdf type01Vidr hmap (by decide),
    valPcieIsHostBridge_congr hmap (hu.others gs bdf type01Ridr hmap (by decide))]

theorem cfgWord_enabled (hu : Undisturbed hw t s0) {gs : List Nat} (hmap : Mapped t bdf)
    (hgs : bdf ∈ gs) (hbdf : bdf ∈ candidates hw t s0) (o : Nat) :
    cfgWord t (hw.read (enableAll hw t s0 gs)) bdf o =
      cfgWord t (hw.read (enabled hw t s0)) bdf o := by
  by_cases ho : o = type01Cr
  · subst ho
    exact hu.command gs _ bdf hmap hgs hbdf
  · rw [enabled, hu.others gs bdf o hmap ho, hu.others _ bdf o hmap ho]

def takes (fuel : Nat) (valid : Nat → Nat) (hw : CfgHw σ) (t : Option (List PcieInfoBlock))
    (s0 : σ) (bdf : Nat) : Bool :=
  candidate t (hw.read s0) bdf &&
    ((pciecsSearch fuel t (hw.read (enabled hw t s0)) bdf).any (fun r =>
      decide (r.1 = pcieSuccess ∧ valid bdf = 0)))

/-- A mapped function is passed over, ends the loops by an endless search, or is
enabled and goes to the table when it should. -/
theorem probeFunction_enableAll (hu : Undisturbed hw t s0) (fuel : Nat) (valid : Nat → Nat)
    (gs table : List Nat) (hbdf : bdf ∈ loopBdfs t) (hmap : Mapped t bdf) :
    probeFunction hw t fuel valid (enableAll hw t s0 gs) table bdf =
      if candidate t (hw.read s0) bdf then
        (pciecsSearch fuel t (hw.read (enabled hw t s0)) bdf).map (fun _ =>
          .next (enableAll hw t s0 (gs ++ [bdf]))
            (if takes fuel valid hw t s0 bdf then table ++ [bdf] else table))
      else some (.next (enableAll hw t s0 gs) table) := by
  rw [probeFunction_of_mapped hmap, candidate_enableAll hu gs hmap]
  by_cases hc : candidate t (hw.read s0) bdf = true
  · have hmem : bdf ∈ candidates hw t s0 := by
      simp [candidates, hbdf, hmap, hc]
    have hlast : enable hw t (enableAll hw t s0 gs) bdf = enableAll hw t s0 (gs ++ [bdf]) := by
      simp [enableAll]
    rw [if_pos hc, if_pos hc, hlast,
      pciecsSearch_congr hmap (cfgWord_enabled hu hmap (by simp) hmem)]
    unfold takes
    cases pciecsSearch fuel t (hw.read (enabled hw t s0)) bdf with
    | none => rfl
    | some r => simp [hc]
  · rw [if_neg hc, if_neg hc]

def SearchesEnd (fuel : Nat) (hw : CfgHw σ) (t : Option (List PcieInfoBlock)) (s0 : σ)
    (l : List Nat) : Prop :=
  ∀ bdf ∈ l, candidate t (hw.read s0) bdf = true →
    (pciecsSearch fuel t (hw.read (enabled hw t s0)) bdf).isSome = true

theorem probeAll_append (hu : Undisturbed hw t s0) {fuel : Nat} (valid : Nat → Nat)
    (l' gs table : List Nat) (hl : ∀ bdf ∈ l, bdf ∈ loopBdfs t ∧ Mapped t bdf)
    (hend : SearchesEnd fuel hw t s0 l) :
    probeAll hw t fuel valid (l ++ l') (enableAll hw t s0 gs) table =
      probeAll hw t fuel valid l'
        (enableAll hw t s0 (gs ++ l.filter (candidate t (hw.read s0))))
        (table ++ l.filter (takes fuel valid hw t s0)) := by
  induction l generalizing gs table with
  | nil => simp
  | cons bdf l ih =>
    obtain ⟨hmem, hmap⟩ := hl bdf mem_cons_self
    have hl' := fun b hb => hl b (mem_cons_of_mem bdf hb)
    have hend' : SearchesEnd fuel hw t s0 l := fun b hb => hend b (mem_cons_of_mem bdf hb)
    rw [cons_append, probeAll, probeFunction_enableAll hu fuel valid gs table hmem hmap]
    by_cases hc : candidate t (hw.read s0) bdf = true
    · obtain ⟨r, hr⟩ := Option.isSome_iff_exists.mp (hend bdf mem_cons_self hc)
      rw [if_pos hc, hr, Option.map_some, filter_cons_of_pos hc]
      simp only
      rw [ih _ _ hl' hend']
      by_cases ht : takes fuel valid hw t s0 bdf = true <;> simp [ht]
    · have ht : takes fuel valid hw t s0 bdf = false := by simp [takes, hc]
      rw [if_neg hc, filter_cons_of_neg hc]
      simp only
      rw [ih _ _ hl' hend']
      simp [ht]

theorem probeAll_endless (hu : Undisturbed hw t s0) (fuel : Nat) (valid : Nat → Nat)
    (l' gs table : List Nat) (hl : ∀ b ∈ l ++ [bdf], b ∈ loopBdfs t ∧ Mapped t b)
    (hc : candidate t (hw.read s0) bdf = true)
    (hnone : pciecsSearch fuel t (hw.read (enabled hw t s0)) bdf = none) :
    probeAll hw t fuel valid (l ++ bdf :: l') (enableAll hw t s0 gs) table = none := by
  induction l generalizing gs table with
  | nil =>
    obtain ⟨hmem, hmap⟩ := hl bdf (by simp)
    rw [nil_append, probeAll, probeFunction_enableAll hu fuel valid gs table hmem hmap,
      if_pos hc, hnone]
    rfl
  | cons b l ih =>
    obtain ⟨hmem, hmap⟩ := hl b (by simp)
    have hl' : ∀ b' ∈ l ++ [bdf], b' ∈ loopBdfs t ∧ Mapped t b' :=
      fun b' hb' => hl b' (mem_cons_of_mem b hb')
    rw [cons_append, probeAll, probeFunction_enableAll hu fuel valid gs table hmem hmap]
    by_cases hcb : candidate t (hw.read s0) b = true
    · rw [if_pos hcb]
      cases hsearch : pciecsSearch fuel t (hw.read (enabled hw t s0)) b with
      | none => rfl
      | some r =>
        exact ih _ _ hl'
    · rw [if_neg hcb]
      exact ih _ _ hl'

end

end ServerSoc.Pcie
