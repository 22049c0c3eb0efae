/-
Finding a function behind a root port, and the root port in front of a function (acs_pcie.c).

The search downwards takes any function whose bus is in the range of the port, also one on bus 0
when the port has no bus numbers.  The search upwards decides by the type of the function first.
-/
import ServerSoc.Pcie.Enumerate

namespace ServerSoc.Pcie

open List

def type01Clsr : Nat := 0xc
def type1Pbn : Nat := 0x18
def type0HeaderType : Nat := 0
def pciecrOffset : Nat := 0x2
def cidrOffset : Nat := 0x0
def pciecrDptShift : Nat := 4
def pciecrDptMask : Nat := 0xf

/-! ## Device and port types -/

def rcIEp : Nat := 1 <<< 0b1001
def rcEc : Nat := 1 <<< 0b1010
def ep : Nat := 1 <<< 0b0000
def rp : Nat := 1 <<< 0b0100
def iEpEp : Nat := 1 <<< 0b1100
def iEpRp : Nat := 1 <<< 0b1011

/-- What the code sees of the functions: the ECAM windows, the registers, the answer of
`pal_pcie_is_onchip_peripheral`, and what the stack holds in a variable that is read
without being set while a function is looked at. -/
structure CfgView where
  info : Option (List PcieInfoBlock)
  read : MmioRead
  onchip : Nat → Bool
  stack : Nat → Nat

section

variable (v : CfgView)

def valPcieFunctionHeaderType (bdf : Nat) : Nat :=
  let regValue := (valPcieReadCfg v.info v.read bdf type01Clsr).getD (v.stack bdf)
  let regValue := (regValue >>> 16) &&& 0xff
  (regValue >>> 0) &&& 0x7f

/-- The result of the search for the capability is not checked. -/
def valPcieDevicePortType (fuel bdf : Nat) : Option Nat :=
  match valPcieFindCapability fuel v.info v.read bdf .pcieCap cidPciecs (v.stack bdf)
      (v.stack bdf) with
  | none => none
  | some (_, pciecsBase) =>
    match valPcieReadCfg v.info v.read bdf ((pciecsBase + cidrOffset) % 2 ^ 32) with
    | none => some pcieUnknownResponse
    | some regValue =>
      let dpType := (regValue >>> ((pciecrOffset - cidrOffset) * 8 + pciecrDptShift)) &&&
        pciecrDptMask
      let dpType := 1 <<< dpType
      if v.onchip bdf then
        if dpType = ep then some iEpEp
        else if dpType = rp then some iEpRp
        else some dpType
      else some dpType

def secBus (regValue : Nat) : Nat := (regValue >>> 8) &&& 0xff
def subBus (regValue : Nat) : Nat := (regValue >>> 16) &&& 0xff

/-- The loop of `val_pcie_get_downstream_function`: `dsfBdf` is `*dsf_bdf` and `type1Bdf`
the first function found without a Type 0 header.  The result is the return value and
`*dsf_bdf`. -/
def searchDownstream (regValue seg : Nat) : List Nat → Nat → Option Nat → Nat × Nat
  | [], dsfBdf, none => (1, dsfBdf)
  | [], _, some type1Bdf => (0, type1Bdf)
  | bdf :: table, dsfBdf, type1Bdf =>
    if secBus regValue ≤ pcieExtractBdfBus bdf ∧ pcieExtractBdfBus bdf ≤ subBus regValue ∧
        pcieExtractBdfSeg bdf = seg then
      if valPcieFunctionHeaderType v bdf = type0HeaderType then (0, bdf)
      else searchDownstream regValue seg table bdf (type1Bdf.or (some bdf))
    else searchDownstream regValue seg table dsfBdf type1Bdf

def valPcieGetDownstreamFunction (table : List Nat) (bdf : Nat) : Nat × Nat :=
  let regValue := (valPcieReadCfg v.info v.read bdf type1Pbn).getD (v.stack bdf)
  searchDownstream v regValue (pcieExtractBdfSeg bdf) table 0 none

def searchRootport (fuel bdf : Nat) : List Nat → Nat → Option (Nat × Nat)
  | [], _ => some (1, 0)
  | rpBdf :: table, regValue =>
    let regValue := (valPcieReadCfg v.info v.read rpBdf type1Pbn).getD regValue
    match valPcieDevicePortType v fuel rpBdf with
    | none => none
    | some dpType =>
      if (dpType = rp ∨ dpType = iEpRp) ∧ secBus regValue ≤ pcieExtractBdfBus bdf ∧
          pcieExtractBdfBus bdf ≤ subBus regValue ∧
          pcieExtractBdfSeg rpBdf = pcieExtractBdfSeg bdf then
        some (0, rpBdf)
      else searchRootport fuel bdf table regValue

def valPcieGetRootport (fuel : Nat) (table : List Nat) (bdf : Nat) : Option (Nat × Nat) :=
  match valPcieDevicePortType v fuel bdf with
  | none => none
  | some dpType =>
    if dpType = rp ∨ dpType = iEpRp then some (0, bdf)
    else if dpType = rcIEp ∨ dpType = rcEc then some (1, 0xffffffff)
    else searchRootport v fuel bdf table (v.stack bdf)

/-! ## What the searches are for -/

def HasType (bdf dpType : Nat) : Prop := ∃ fuel, valPcieDevicePortType v fuel bdf = some dpType

def RootPort (bdf : Nat) : Prop := HasType v bdf rp ∨ HasType v bdf iEpRp

def InRange (port bus : Nat) : Prop :=
  secBus (cfgWord v.info v.read port type1Pbn) ≤ bus ∧
    bus ≤ subBus (cfgWord v.info v.read port type1Pbn)

instance (port bus : Nat) : Decidable (InRange v port bus) := inferInstanceAs (Decidable (_ ∧ _))

def DisjointRanges (table : List Nat) : Prop :=
  ∀ p ∈ table, ∀ q ∈ table, RootPort v p → RootPort v q →
    pcieExtractBdfSeg p = pcieExtractBdfSeg q → p ≠ q →
    ∀ bus, ¬ (InRange v p bus ∧ InRange v q bus)

def Behind (port bdf : Nat) : Prop :=
  InRange v port (pcieExtractBdfBus bdf) ∧ pcieExtractBdfSeg bdf = pcieExtractBdfSeg port

instance (port bdf : Nat) : Decidable (Behind v port bdf) := inferInstanceAs (Decidable (_ ∧ _))

/-- The first function behind the port, one with a Type 0 header if there is one. -/
def firstBehind (table : List Nat) (port : Nat) : Option Nat :=
  (table.find? (fun bdf => Behind v port bdf ∧ valPcieFunctionHeaderType v bdf =
    type0HeaderType)).or (table.find? (fun bdf => Behind v port bdf))

def Consistent (table : List Nat) (port : Nat) : Prop :=
  ∀ d, valPcieGetDownstreamFunction v table port = (0, d) →
    d ≠ port ∧ ∃ fuel, valPcieGetRootport v fuel table d = some (0, port)

/-- The first function behind the port is no root port and not integrated in the root
complex, and the types of it and of the functions listed before the port are found. -/
def Attached (table : List Nat) (port : Nat) : Prop :=
  ∀ d, firstBehind v table port = some d →
    (∃ dpType, HasType v d dpType ∧ dpType ∉ [rp, iEpRp, rcIEp, rcEc]) ∧
      ∀ bdf ∈ table.takeWhile (· ≠ port), ∃ dpType, HasType v bdf dpType

end

/-! ## Types of functions -/

variable {v : CfgView} {bdf fuel : Nat}

section

variable {fuel' cidOffset dpType cid : Nat} {t : Option (List PcieInfoBlock)} {r : Nat × Nat}
  {rd : MmioRead} {k : CidType}

theorem searchCapability_mono {o regValue : Nat}
    (h : searchCapability t rd bdf k cid fuel o regValue cidOffset = some r) (hle : fuel ≤ fuel') :
    searchCapability t rd bdf k cid fuel' o regValue cidOffset = some r := by
  induction fuel generalizing fuel' o regValue with
  | zero => cases h
  | succ fuel ih =>
    obtain ⟨n, rfl⟩ : ∃ n, fuel' = n + 1 := ⟨fuel' - 1, by omega⟩
    rw [searchCapability] at h ⊢
    by_cases h0 : o = 0
    · rwa [if_pos h0] at h ⊢
    · rw [if_neg h0] at h ⊢
      simp only at h ⊢
      split_ifs at h with hcid
      · rwa [if_pos hcid]
      · rw [if_neg hcid]
        exact ih h (Nat.le_of_succ_le_succ hle)

theorem valPcieFindCapability_mono {uninit : Nat}
    (h : valPcieFindCapability fuel t rd bdf k cid uninit cidOffset = some r) (hle : fuel ≤ fuel') :
    valPcieFindCapability fuel' t rd bdf k cid uninit cidOffset = some r := by
  cases k with
  | header => exact h
  | pcieEcap => exact searchCapability_mono h hle
  | pcieCap =>
    rw [valPcieFindCapability] at h ⊢
    cases hread : valPcieReadCfg t rd bdf type01Cpr with
    | none => rwa [hread] at h
    | some regValue =>
      rw [hread] at h
      simp only at h ⊢
      split_ifs at h with hones
      · rwa [if_pos hones]
      · rw [if_neg hones]
        exact searchCapability_mono h hle

theorem valPcieDevicePortType_mono (h : valPcieDevicePortType v fuel bdf = some dpType)
    (hle : fuel ≤ fuel') : valPcieDevicePortType v fuel' bdf = some dpType := by
  rw [valPcieDevicePortType] at h ⊢
  cases hfind : valPcieFindCapability fuel v.info v.read bdf .pcieCap cidPciecs (v.stack bdf)
      (v.stack bdf) with
  | none =>
    rw [hfind] at h
    cases h
  | some r =>
    rw [hfind] at h
    rw [valPcieFindCapability_mono hfind hle]
    exact h

theorem HasType.unique {a b : Nat} (ha : HasType v bdf a) (hb : HasType v bdf b) : a = b := by
  obtain ⟨n, hn⟩ := ha
  obtain ⟨m, hm⟩ := hb
  have hn' := valPcieDevicePortType_mono hn (Nat.le_max_left n m)
  rw [valPcieDevicePortType_mono hm (Nat.le_max_right n m), Option.some_inj] at hn'
  exact hn'.symm

theorem rootPort_iff (h : HasType v bdf dpType) :
    RootPort v bdf ↔ dpType = rp ∨ dpType = iEpRp := by
  constructor
  · rintro (hrp | hrp)
    · exact .inl (h.unique hrp)
    · exact .inr (h.unique hrp)
  · rintro (rfl | rfl)
    · exact .inl h
    · exact .inr h

theorem exists_fuel {l : List Nat} (h : ∀ bdf ∈ l, ∃ dpType, HasType v bdf dpType) :
    ∃ n, ∀ fuel, n ≤ fuel → ∀ bdf ∈ l, ∃ dpType, valPcieDevicePortType v fuel bdf =
      some dpType := by
  induction l with
  | nil => exact ⟨0, fun _ _ bdf hbdf => absurd hbdf not_mem_nil⟩
  | cons b l ih =>
    obtain ⟨n, hn⟩ := ih fun bdf hbdf => h bdf (mem_cons_of_mem b hbdf)
    obtain ⟨dpType, m, hm⟩ := h b mem_cons_self
    refine ⟨max n m, fun fuel hfuel bdf hbdf => ?_⟩
    rcases mem_cons.mp hbdf with rfl | hbdf
    · exact ⟨dpType, valPcieDevicePortType_mono hm (by omega)⟩
    · exact hn fuel (by omega) bdf hbdf

theorem valPcieDevicePortType_of_not_mapped (h : ¬ Mapped v.info bdf) (fuel : Nat) :
    valPcieDevicePortType v fuel bdf = some pcieUnknownResponse := by
  rw [valPcieDevicePortType, valPcieFindCapability, valPcieReadCfg_of_not_mapped h]
  simp only
  rw [valPcieReadCfg_of_not_mapped h]

theorem RootPort.mapped (h : RootPort v bdf) : Mapped v.info bdf := by
  by_contra hno
  have htype : HasType v bdf pcieUnknownResponse := ⟨0, valPcieDevicePortType_of_not_mapped hno 0⟩
  rw [rootPort_iff htype] at h
  exact absurd h (by decide)

end

/-! ## The searches -/

section

variable {table : List Nat} {port regValue d : Nat}

theorem searchDownstream_eq (table : List Nat) (dsfBdf : Nat) (type1Bdf : Option Nat) :
    searchDownstream v (cfgWord v.info v.read port type1Pbn) (pcieExtractBdfSeg port) table dsfBdf
      type1Bdf =
    (((table.find? (fun bdf => Behind v port bdf ∧
        valPcieFunctionHeaderType v bdf = type0HeaderType)).or
      (type1Bdf.or (table.find? (fun bdf => Behind v port bdf)))).map (Prod.mk 0)).getD
        (1, dsfBdf) := by
  induction table generalizing dsfBdf type1Bdf with
  | nil =>
    cases type1Bdf with
    | none => rfl
    | some b => rfl
  | cons b table ih =>
    have hbehind : (secBus (cfgWord v.info v.read port type1Pbn) ≤ pcieExtractBdfBus b ∧
        pcieExtractBdfBus b ≤ subBus (cfgWord v.info v.read port type1Pbn) ∧
        pcieExtractBdfSeg b = pcieExtractBdfSeg port) ↔ Behind v port b := by
      rw [Behind, InRange, and_assoc]
    rw [searchDownstream]
    by_cases hb : Behind v port b
    · rw [if_pos (hbehind.mpr hb)]
      by_cases htype : valPcieFunctionHeaderType v b = type0HeaderType
      · simp [hb, htype]
      · -- the function is kept for the case that no Type 0 header follows
        rw [if_neg htype, ih, find?_cons_of_neg (by simp [htype]),
          find?_cons_of_pos (by simpa using hb)]
        cases table.find? (fun bdf => decide (Behind v port bdf ∧
            valPcieFunctionHeaderType v bdf = type0HeaderType)) with
        | some c => rfl
        | none =>
          cases type1Bdf with
          | some c => rfl
          | none => rfl
    · rw [if_neg (fun h => hb (hbehind.mp h)), ih]
      simp [hb]

theorem valPcieGetDownstreamFunction_eq_iff (hport : Mapped v.info port) :
    valPcieGetDownstreamFunction v table port = (0, d) ↔ firstBehind v table port = some d := by
  rw [valPcieGetDownstreamFunction, valPcieReadCfg_of_mapped hport, Option.getD_some,
    searchDownstream_eq]
  show ((firstBehind v table port).map (Prod.mk 0)).getD (1, 0) = (0, d) ↔ _
  cases firstBehind v table port with
  | none => simp
  | some b => simp

theorem behind_of_firstBehind (h : firstBehind v table port = some d) : Behind v port d := by
  rw [firstBehind, Option.or_eq_some_iff] at h
  rcases h with h | ⟨-, h⟩
  · have hd := find?_some h
    simp only [decide_eq_true_eq] at hd
    exact hd.1
  · simpa using find?_some h

theorem hasType_of_searchRootport (h : searchRootport v fuel bdf table regValue = some (0, port)) :
    ∀ b ∈ table.takeWhile (· ≠ port), ∃ dpType, HasType v b dpType := by
  induction table generalizing regValue with
  | nil => exact fun b hb => absurd hb not_mem_nil
  | cons c table ih =>
    rw [searchRootport] at h
    cases htype : valPcieDevicePortType v fuel c with
    | none =>
      rw [htype] at h
      cases h
    | some dpType =>
      rw [htype] at h
      simp only at h
      by_cases hc : c = port
      · simp [hc]
      · intro b hb
        rw [takeWhile_cons_of_pos (by simpa using hc)] at hb
        split at h
        · simp only [Option.some_inj, Prod.mk.injEq] at h
          exact absurd h.2 hc
        · rcases mem_cons.mp hb with rfl | hb
          · exact ⟨dpType, fuel, htype⟩
          · exact ih h b hb

theorem searchRootport_eq {dpType : Nat} (hmem : port ∈ table)
    (hport : valPcieDevicePortType v fuel port = some dpType) (hrp : dpType = rp ∨ dpType = iEpRp)
    (hbehind : Behind v port bdf)
    (hbefore : ∀ b ∈ table.takeWhile (· ≠ port), ∃ ty, valPcieDevicePortType v fuel b = some ty)
    (hother : ∀ b ∈ table, b ≠ port → RootPort v b → ¬ Behind v b bdf) :
    searchRootport v fuel bdf table regValue = some (0, port) := by
  have hread : ∀ {b}, RootPort v b → ∀ w, (valPcieReadCfg v.info v.read b type1Pbn).getD w =
      cfgWord v.info v.read b type1Pbn := by
    intro b hb w
    rw [valPcieReadCfg_of_mapped hb.mapped, Option.getD_some]
  induction table generalizing regValue with
  | nil => cases hmem
  | cons c table ih =>
    rw [searchRootport]
    by_cases hc : c = port
    · have hroot : RootPort v port := (rootPort_iff ⟨fuel, hport⟩).mpr hrp
      rw [hc, hport]
      simp only [hread hroot]
      rw [if_pos ⟨hrp, hbehind.1.1, hbehind.1.2, hbehind.2.symm⟩]
    · have hcons : (c :: table).takeWhile (· ≠ port) = c :: table.takeWhile (· ≠ port) :=
        takeWhile_cons_of_pos (by simpa using hc)
      rw [hcons] at hbefore
      obtain ⟨ty, hty⟩ := hbefore c mem_cons_self
      rw [hty]
      simp only
      rw [if_neg]
      · refine ih ?_ (fun b hb => hbefore b (mem_cons_of_mem c hb))
          (fun b hb => hother b (mem_cons_of_mem c hb))
        simpa [Ne.symm hc] using hmem
      · rintro ⟨hcrp, hsec, hsub, hseg⟩
        have hroot : RootPort v c := (rootPort_iff ⟨fuel, hty⟩).mpr hcrp
        rw [hread hroot] at hsec hsub
        exact hother c mem_cons_self hc hroot ⟨⟨hsec, hsub⟩, hseg.symm⟩

end

/-- Where the ranges of the root ports of a segment are disjoint, the searches agree at a
root port exactly when the first function behind it is attached to it. -/
theorem lookups_consistent_iff (v : CfgView) (table : List Nat) (hdisjoint : DisjointRanges v table)
    (port : Nat) (hmem : port ∈ table) (hport : RootPort v port) :
    Consistent v table port ↔ Attached v table port := by
  constructor
  · intro h d hfirst
    obtain ⟨hne, fuel, hrun⟩ := h d ((valPcieGetDownstreamFunction_eq_iff hport.mapped).mpr hfirst)
    rw [valPcieGetRootport] at hrun
    cases htype : valPcieDevicePortType v fuel d with
    | none =>
      rw [htype] at hrun
      cases hrun
    | some dpType =>
      rw [htype] at hrun
      simp only at hrun
      split_ifs at hrun with hnrp hnrc
      · simp only [Option.some_inj, Prod.mk.injEq] at hrun
        exact absurd hrun.2 hne
      · simp at hrun
      · refine ⟨⟨dpType, ⟨fuel, htype⟩, ?_⟩, hasType_of_searchRootport hrun⟩
        simpa [and_assoc] using And.intro hnrp hnrc
  · intro h d hdown
    rw [valPcieGetDownstreamFunction_eq_iff hport.mapped] at hdown
    obtain ⟨⟨dpType, hd, hother⟩, hbefore⟩ := h d hdown
    have hnot : ¬ RootPort v d := by
      rw [rootPort_iff hd]
      rintro (rfl | rfl) <;> simp at hother
    refine ⟨fun heq => hnot (heq ▸ hport), ?_⟩
    have hbehind := behind_of_firstBehind hdown
    obtain ⟨n, hn⟩ := exists_fuel hbefore
    obtain ⟨ty, hty, hrp⟩ : ∃ ty, HasType v port ty ∧ (ty = rp ∨ ty = iEpRp) := by
      rcases hport with hp | hp
      · exact ⟨rp, hp, .inl rfl⟩
      · exact ⟨iEpRp, hp, .inr rfl⟩
    obtain ⟨m, hm⟩ := hd
    obtain ⟨k, hk⟩ := hty
    refine ⟨max n (max m k), ?_⟩
    rw [valPcieGetRootport, valPcieDevicePortType_mono hm (by omega)]
    simp only [mem_cons, not_or] at hother
    simp only [hother]
    refine searchRootport_eq hmem (valPcieDevicePortType_mono hk (by omega)) hrp hbehind
      (hn _ (by omega)) fun b hb hne hroot hb' => ?_
    exact hdisjoint b hb port hmem hroot hport (hb'.2.symm.trans hbehind.2) hne _
      ⟨hb'.1, hbehind.1⟩

def portAndEndpoint (busNumbers : Nat) : CfgView where
  info := oneSegment
  read := fun _ a =>
    if a = 0x3000000c then 0x00010000
    else if a = 0x30000018 then busNumbers
    else if a = 0x30000034 ∨ a = 0x30100034 then 0x40
    else if a = 0x30000040 then 0x00420010
    else if a = 0x30100040 then 0x00020010
    else 0
  onchip := fun _ => false
  stack := fun _ => 0

theorem lookups_consistent_configured :
    Consistent (portAndEndpoint 0x00010100) [0, pcieCreateBdf 0 1 0 0] 0 := by
  have hport : RootPort (portAndEndpoint 0x00010100) 0 := .inl ⟨2, by decide⟩
  have hep : HasType (portAndEndpoint 0x00010100) (pcieCreateBdf 0 1 0 0) ep := ⟨2, by decide⟩
  have hno : ¬ RootPort (portAndEndpoint 0x00010100) (pcieCreateBdf 0 1 0 0) := by
    rw [rootPort_iff hep]
    decide
  refine (lookups_consistent_iff _ _ ?_ 0 (by decide) hport).mpr ?_
  · intro p hp q hq hrp hrq _ hne
    simp only [mem_cons, not_mem_nil, or_false] at hp hq
    rcases hp with rfl | rfl
    · rcases hq with rfl | rfl
      · exact absurd rfl hne
      · exact absurd hrq hno
    · exact absurd hrp hno
  · intro d hd
    have hfirst : firstBehind (portAndEndpoint 0x00010100) [0, pcieCreateBdf 0 1 0 0] 0 =
        some (pcieCreateBdf 0 1 0 0) := by
      decide
    rw [hfirst, Option.some_inj] at hd
    rw [← hd]
    exact ⟨⟨ep, hep, by decide⟩, by simp⟩

/-- A root port without bus numbers is found behind itself. -/
theorem unconfigured_port_behind_itself :
    RootPort (portAndEndpoint 0) 0 ∧ DisjointRanges (portAndEndpoint 0) [0] ∧
      valPcieGetDownstreamFunction (portAndEndpoint 0) [0] 0 = (0, 0) ∧
      ¬ Consistent (portAndEndpoint 0) [0] 0 := by
  have hdown : valPcieGetDownstreamFunction (portAndEndpoint 0) [0] 0 = (0, 0) := by decide
  refine ⟨.inl ⟨2, by decide⟩, ?_, hdown, fun h => (h 0 hdown).1 rfl⟩
  intro p hp q hq _ _ _ hne
  rw [mem_singleton] at hp hq
  exact absurd (hp.trans hq.symm) hne

end ServerSoc.Pcie
