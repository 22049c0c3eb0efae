/-
Finding a capability (acs_pcie.c).

A capability pointer that reads as all ones ends the search with the success of the read, and the
walk over the extended list never looks whether the function is there.
-/
import ServerSoc.Base.Chain
import ServerSoc.Pcie.Cfg

namespace ServerSoc.Pcie

open Base Nat Option

def type01Vidr : Nat := 0x0
def type01Cpr : Nat := 0x34
def type01CprMask : Nat := 0xff
def pcieEcapStart : Nat := 0x100

inductive CidType where
  | header | pcieCap | pcieEcap
  deriving DecidableEq, Repr

def CidType.cid (k : CidType) (regValue : Nat) : Nat :=
  match k with
  | .pcieEcap => regValue &&& 0xffff
  | _ => regValue &&& 0xff

def CidType.nextCapOffset (k : CidType) (regValue : Nat) : Nat :=
  match k with
  | .pcieEcap => (regValue >>> 20) &&& 0xfff
  | _ => (regValue >>> 8) &&& 0xff

/-- The loop both lists are searched with.  A read without mapping leaves `regValue`
alone.  The result is the return value and `*cid_offset`. -/
def searchCapability (t : Option (List PcieInfoBlock)) (rd : MmioRead) (bdf : Nat) (k : CidType)
    (cid : Nat) : Nat → Nat → Nat → Nat → Option (Nat × Nat)
  | 0, _, _, _ => none
  | fuel + 1, nextCapOffset, regValue, cidOffset =>
    if nextCapOffset = 0 then some (pcieCapNotFound, cidOffset)
    else
      let regValue := (valPcieReadCfg t rd bdf nextCapOffset).getD regValue
      if k.cid regValue = cid then some (pcieSuccess, nextCapOffset)
      else searchCapability t rd bdf k cid fuel (k.nextCapOffset regValue) regValue cidOffset

/-- `uninit` is what the stack holds in `reg_value`. -/
def valPcieFindCapability (fuel : Nat) (t : Option (List PcieInfoBlock)) (rd : MmioRead)
    (bdf : Nat) (cidType : CidType) (cid uninit cidOffset : Nat) : Option (Nat × Nat) :=
  match cidType with
  | .pcieCap =>
    match valPcieReadCfg t rd bdf type01Cpr with
    | none => some (pcieNoMapping, cidOffset)
    | some regValue =>
      if regValue = pcieUnknownResponse then some (pcieSuccess, cidOffset)
      else searchCapability t rd bdf .pcieCap cid fuel (regValue &&& type01CprMask) regValue
        cidOffset
  | .pcieEcap => searchCapability t rd bdf .pcieEcap cid fuel pcieEcapStart uninit cidOffset
  | .header => some (pcieCapNotFound, cidOffset)

/-! ## The lists -/

def capStart (t : Option (List PcieInfoBlock)) (rd : MmioRead) (bdf : Nat) (k : CidType) : Nat :=
  match k with
  | .pcieCap => cfgWord t rd bdf type01Cpr &&& type01CprMask
  | .pcieEcap => pcieEcapStart
  | .header => 0

def capNext (t : Option (List PcieInfoBlock)) (rd : MmioRead) (bdf : Nat) (k : CidType)
    (o : Nat) : Nat :=
  k.nextCapOffset (cfgWord t rd bdf o)

def hasCid (t : Option (List PcieInfoBlock)) (rd : MmioRead) (bdf : Nat) (k : CidType)
    (cid o : Nat) : Bool :=
  k.cid (cfgWord t rd bdf o) = cid

def CapChain (t : Option (List PcieInfoBlock)) (rd : MmioRead) (bdf : Nat) (k : CidType)
    (l : List Nat) : Prop :=
  Chain (capNext t rd bdf k) (capStart t rd bdf k) l

def Responds (t : Option (List PcieInfoBlock)) (rd : MmioRead) (bdf : Nat) : Prop :=
  cfgWord t rd bdf type01Vidr ≠ pcieUnknownResponse

def FirstCapability (t : Option (List PcieInfoBlock)) (rd : MmioRead) (bdf : Nat) (k : CidType)
    (cid o : Nat) : Prop :=
  Mapped t bdf ∧ Responds t rd bdf ∧
    ∃ l, CapChain t rd bdf k l ∧ l.find? (hasCid t rd bdf k cid) = some o

/-- Whatever the stack and `*cid_offset` hold before, the search returns, with success
exactly when there is such a structure, and then with its offset. -/
def SearchContract (t : Option (List PcieInfoBlock)) (rd : MmioRead) (bdf : Nat) (k : CidType)
    (cid : Nat) : Prop :=
  ∀ uninit cidOffset, uninit < 2 ^ 32 → ∃ fuel ret o,
    valPcieFindCapability fuel t rd bdf k cid uninit cidOffset = some (ret, o) ∧
      (ret = pcieSuccess ↔ ∃ o', FirstCapability t rd bdf k cid o') ∧
      (ret = pcieSuccess → FirstCapability t rd bdf k cid o)

/-! ## The search is a walk -/

def searchResult (cidOffset : Nat) : Option Nat → Nat × Nat
  | some o => (pcieSuccess, o)
  | none => (pcieCapNotFound, cidOffset)

variable {t : Option (List PcieInfoBlock)} {bdf : Nat} {rd : MmioRead} {k : CidType}

/-- `w o` is what the loop sees at offset `o`. -/
theorem searchCapability_eq {cid : Nat} {w : Nat → Nat}
    (hw : ∀ o o', (valPcieReadCfg t rd bdf o').getD (w o) = w o') (fuel o cidOffset : Nat)
    {regValue : Nat} (hreg : ∀ o', (valPcieReadCfg t rd bdf o').getD regValue = w o') :
    searchCapability t rd bdf k cid fuel o regValue cidOffset =
      (walk (fun o => k.nextCapOffset (w o)) (fun o => k.cid (w o) = cid) fuel o).map
        (searchResult cidOffset) := by
  induction fuel generalizing o regValue with
  | zero => rfl
  | succ fuel ih =>
    rw [searchCapability, walk]
    by_cases h0 : o = 0
    · rw [if_pos h0, if_pos h0]
      rfl
    · rw [if_neg h0, if_neg h0]
      simp only [hreg o]
      by_cases hcid : k.cid (w o) = cid
      · rw [if_pos hcid, if_pos (by simpa using hcid)]
        rfl
      · rw [if_neg hcid, if_neg (by simpa using hcid), ih (k.nextCapOffset (w o)) (hw o)]

theorem searchCapability_of_mapped (h : Mapped t bdf) (rd : MmioRead) (k : CidType)
    (cid fuel o regValue cidOffset : Nat) :
    searchCapability t rd bdf k cid fuel o regValue cidOffset =
      (walk (capNext t rd bdf k) (hasCid t rd bdf k cid) fuel o).map (searchResult cidOffset) := by
  have hread : ∀ o r, (valPcieReadCfg t rd bdf o).getD r = cfgWord t rd bdf o := by
    intro o r
    rw [valPcieReadCfg_of_mapped h, getD_some]
  exact searchCapability_eq (fun o o' => hread o' _) fuel o cidOffset fun o' => hread o' _

theorem searchCapability_of_not_mapped (h : ¬ Mapped t bdf) (rd : MmioRead) (k : CidType)
    (cid fuel o regValue cidOffset : Nat) :
    searchCapability t rd bdf k cid fuel o regValue cidOffset =
      (walk (fun _ => k.nextCapOffset regValue) (fun _ => k.cid regValue = cid) fuel o).map
        (searchResult cidOffset) := by
  have hread : ∀ o, (valPcieReadCfg t rd bdf o).getD regValue = regValue := by
    intro o
    rw [valPcieReadCfg_of_not_mapped h, getD_none]
  exact searchCapability_eq (fun _ o' => hread o') fuel o cidOffset hread

theorem valPcieFindCapability_eq_walk (h : Mapped t bdf) (hk : k ≠ .header)
    (hones : k = .pcieCap → cfgWord t rd bdf type01Cpr ≠ pcieUnknownResponse)
    (cid fuel uninit cidOffset : Nat) :
    valPcieFindCapability fuel t rd bdf k cid uninit cidOffset =
      (walk (capNext t rd bdf k) (hasCid t rd bdf k cid) fuel (capStart t rd bdf k)).map
        (searchResult cidOffset) := by
  cases k with
  | header => exact absurd rfl hk
  | pcieCap =>
    simp only [valPcieFindCapability, valPcieReadCfg_of_mapped h, if_neg (hones rfl)]
    exact searchCapability_of_mapped h rd .pcieCap cid fuel _ _ cidOffset
  | pcieEcap => exact searchCapability_of_mapped h rd .pcieEcap cid fuel _ uninit cidOffset

section

variable {rd : MmioRead} {o : Nat} {k : CidType} {cid : Nat} {l : List Nat}

theorem FirstCapability.eq_find (h : FirstCapability t rd bdf k cid o)
    (hl : CapChain t rd bdf k l) : l.find? (hasCid t rd bdf k cid) = some o := by
  obtain ⟨-, -, l', hl', hfind⟩ := h
  rw [hl.unique hl', hfind]

theorem searchContract_of_chain (hmap : Mapped t bdf) (hresp : Responds t rd bdf)
    (hl : CapChain t rd bdf k l) (hrun : ∀ fuel uninit cidOffset,
      valPcieFindCapability fuel t rd bdf k cid uninit cidOffset =
        (walk (capNext t rd bdf k) (hasCid t rd bdf k cid) fuel (capStart t rd bdf k)).map
          (searchResult cidOffset)) : SearchContract t rd bdf k cid := by
  intro uninit cidOffset _
  cases hfind : l.find? (hasCid t rd bdf k cid) with
  | some o =>
    have hfirst : FirstCapability t rd bdf k cid o := ⟨hmap, hresp, l, hl, hfind⟩
    refine ⟨l.length + 1, pcieSuccess, o, ?_, ⟨fun _ => ⟨o, hfirst⟩, fun _ => rfl⟩,
      fun _ => hfirst⟩
    rw [hrun, walk_of_chain hl (lt_succ_self _), hfind]
    rfl
  | none =>
    refine ⟨l.length + 1, pcieCapNotFound, cidOffset, ?_,
      ⟨fun h => absurd h (by decide), ?_⟩, fun h => absurd h (by decide)⟩
    · rw [hrun, walk_of_chain hl (lt_succ_self _), hfind]
      rfl
    · rintro ⟨o, ho⟩
      rw [ho.eq_find hl] at hfind
      cases hfind

/-- A search that answers every caller without success keeps the contract when there
is nothing to find. -/
theorem searchContract_of_absent {ret : Nat} (hret : ret ≠ pcieSuccess)
    (hno : ∀ o, ¬ FirstCapability t rd bdf k cid o)
    (hrun : ∀ uninit cidOffset,
      valPcieFindCapability 0 t rd bdf k cid uninit cidOffset = some (ret, cidOffset)) :
    SearchContract t rd bdf k cid := by
  intro uninit cidOffset _
  refine ⟨0, ret, cidOffset, hrun uninit cidOffset, ⟨fun h => absurd h hret, ?_⟩,
    fun h => absurd h hret⟩
  rintro ⟨o, ho⟩
  exact absurd ho (hno o)

theorem not_searchContract_of_untouched
    (hrun : ∀ fuel uninit cidOffset ret o,
      valPcieFindCapability fuel t rd bdf k cid uninit cidOffset = some (ret, o) →
        ret = pcieSuccess ∧ o = cidOffset) : ¬ SearchContract t rd bdf k cid := by
  intro h
  obtain ⟨_, ret, o, hrun0, -, hfirst0⟩ := h 0 0 (by decide)
  obtain ⟨_, ret', o', hrun1, -, hfirst1⟩ := h 0 1 (by decide)
  obtain ⟨hret, rfl⟩ := hrun _ _ _ _ _ hrun0
  obtain ⟨hret', rfl⟩ := hrun _ _ _ _ _ hrun1
  obtain ⟨-, -, l, hl, hfind⟩ := hfirst0 hret
  have hfind' := (hfirst1 hret').eq_find hl
  rw [hfind] at hfind'
  cases hfind'

/-- A walk over the extended list of which every register reads as `v` ends with
success at its start, if at all. -/
theorem walk_const {v : Nat} (hv : CidType.pcieEcap.nextCapOffset v ≠ 0) (fuel : Nat) (h0 : o ≠ 0)
    (hne : CidType.pcieEcap.cid v ≠ cid) :
    walk (fun _ => CidType.pcieEcap.nextCapOffset v) (fun _ => CidType.pcieEcap.cid v = cid)
      fuel o = none := by
  cases fuel with
  | zero => rfl
  | succ fuel =>
    rw [walk, if_neg h0, if_neg (by simpa using hne), walk_stuck hv rfl (by simpa using hne)]

end

/-! ## When the contract holds -/

/-- A function that does not answer reads as all ones everywhere, and the lists of a
function that does are finite.  Then the search of the first list is right unless the
capability pointer reads as all ones, and the search of the extended list is right
when the function is there. -/
theorem valPcieFindCapability_contract_iff {t : Option (List PcieInfoBlock)} {rd : MmioRead}
    {bdf : Nat} {k : CidType} {cid : Nat}
    (hsilent : Mapped t bdf → ¬ Responds t rd bdf → ∀ o, cfgWord t rd bdf o = pcieUnknownResponse)
    (hfinite : Mapped t bdf → Responds t rd bdf → ∃ l, CapChain t rd bdf k l) :
    SearchContract t rd bdf k cid ↔
      k = .header ∨
      (k = .pcieCap ∧ (¬ Mapped t bdf ∨ cfgWord t rd bdf type01Cpr ≠ pcieUnknownResponse)) ∨
      (k = .pcieEcap ∧ Mapped t bdf ∧ Responds t rd bdf) := by
  cases k with
  | header =>
    have hno : ∀ o, ¬ FirstCapability t rd bdf .header cid o := by
      rintro o ⟨-, -, l, hl, hfind⟩
      cases hl with
      | nil => cases hfind
      | cons hne _ => exact absurd rfl hne
    have hcontract : SearchContract t rd bdf .header cid :=
      searchContract_of_absent (by decide) hno fun _ _ => rfl
    simp [hcontract]
  | pcieCap =>
    simp only [reduceCtorEq, true_and, false_and, false_or, or_false]
    by_cases hmap : Mapped t bdf
    · have hread := valPcieReadCfg_of_mapped hmap rd type01Cpr
      by_cases hones : cfgWord t rd bdf type01Cpr = pcieUnknownResponse
      · refine iff_of_false (not_searchContract_of_untouched ?_) (by simp [hmap, hones])
        intro fuel uninit cidOffset ret o h
        simp only [valPcieFindCapability, hread, if_pos hones, some_inj,
          Prod.mk.injEq] at h
        exact ⟨h.1.symm, h.2.symm⟩
      · refine iff_of_true ?_ (.inr hones)
        have hresp : Responds t rd bdf := fun hno => hones (hsilent hmap (fun h => h hno) _)
        obtain ⟨l, hl⟩ := hfinite hmap hresp
        exact searchContract_of_chain hmap hresp hl
          (valPcieFindCapability_eq_walk (k := .pcieCap) hmap nofun (fun _ => hones) cid)
    · refine iff_of_true ?_ (.inl hmap)
      refine searchContract_of_absent (show pcieNoMapping ≠ pcieSuccess by decide)
        (fun o ho => hmap ho.1) fun uninit cidOffset => ?_
      simp [valPcieFindCapability, valPcieReadCfg_of_not_mapped hmap]
  | pcieEcap =>
    simp only [reduceCtorEq, true_and, false_and, false_or]
    by_cases hmap : Mapped t bdf
    · by_cases hresp : Responds t rd bdf
      · refine iff_of_true ?_ ⟨hmap, hresp⟩
        obtain ⟨l, hl⟩ := hfinite hmap hresp
        exact searchContract_of_chain hmap hresp hl
          (valPcieFindCapability_eq_walk (k := .pcieEcap) hmap nofun nofun cid)
      · -- every register reads as all ones: id 0xffff is found, others are sought forever
        refine iff_of_false (fun h => ?_) fun h => hresp h.2
        obtain ⟨fuel, ret, o, hrun, -, hfirst⟩ := h 0 0 (by decide)
        have hrun' : (walk (fun _ => CidType.pcieEcap.nextCapOffset pcieUnknownResponse)
            (fun _ => CidType.pcieEcap.cid pcieUnknownResponse = cid) fuel pcieEcapStart).map
              (searchResult 0) = some (ret, o) := by
          rw [← hrun]
          have hword := hsilent hmap hresp
          refine Eq.trans ?_ (searchCapability_of_mapped hmap rd .pcieEcap cid fuel _ 0 0).symm
          congr 2
          · funext o
            rw [capNext, hword]
          · funext o
            rw [hasCid, hword]
        by_cases hcid : CidType.pcieEcap.cid pcieUnknownResponse = cid
        · cases fuel with
          | zero => cases hrun'
          | succ fuel =>
            rw [walk, if_neg (by decide), if_pos (by simpa using hcid)] at hrun'
            cases hrun'
            exact hresp (hfirst rfl).2.1
        · rw [walk_const (by decide) fuel (by decide) hcid] at hrun'
          cases hrun'
    · -- nothing is read, and what the stack held decides
      refine iff_of_false (fun h => ?_) fun h => hmap h.1
      by_cases hcid : cid < 2 ^ 16
      · obtain ⟨fuel, ret, o, hrun, -, hfirst⟩ := h cid 0 (by omega)
        have hsame : CidType.pcieEcap.cid cid = cid := by
          show cid &&& (2 ^ 16 - 1) = cid
          rw [and_two_pow_sub_one_eq_mod, mod_eq_of_lt hcid]
        rw [valPcieFindCapability, searchCapability_of_not_mapped hmap] at hrun
        cases fuel with
        | zero => cases hrun
        | succ fuel =>
          rw [walk, if_neg (by decide), if_pos (by simpa using hsame)] at hrun
          cases hrun
          exact hmap (hfirst rfl).1
      · obtain ⟨fuel, ret, o, hrun, -⟩ := h pcieUnknownResponse 0 (by decide)
        have hne : CidType.pcieEcap.cid pcieUnknownResponse ≠ cid := by
          rw [show CidType.pcieEcap.cid pcieUnknownResponse = 65535 by decide]
          omega
        rw [valPcieFindCapability, searchCapability_of_not_mapped hmap,
          walk_const (by decide) fuel (by decide) hne] at hrun
        cases hrun

/-! ## One function, and one that is missing -/

def oneSegment : Option (List PcieInfoBlock) := some [⟨0x30000000, 0, 0, 255⟩]

def oneFunction : MmioRead := fun _ a =>
  if a = 0x30000000 then 0x11111b36
  else if a = 0x30000034 then 0x40
  else if a = 0x30000040 then 0x00020010
  else if a < 0x30001000 then 0
  else 0xFFFFFFFF

theorem valPcieFindCapability_oneFunction :
    SearchContract oneSegment oneFunction 0 .pcieCap 0x10 := by
  have hresp : Responds oneSegment oneFunction 0 := by
    unfold Responds
    decide
  have hchain : CapChain oneSegment oneFunction 0 .pcieCap [0x40] := by
    refine .cons (by decide) ?_
    exact .nil
  refine (valPcieFindCapability_contract_iff (fun _ hno => absurd hresp hno)
    (fun _ _ => ⟨_, hchain⟩)).mpr (.inr (.inl ⟨rfl, .inr ?_⟩))
  decide

/-- Function 1:0.0 is missing and the search reports success with no offset. -/
theorem valPcieFindCapability_missingFunction :
    ¬ Responds oneSegment oneFunction (pcieCreateBdf 0 1 0 0) ∧
      valPcieFindCapability 0 oneSegment oneFunction (pcieCreateBdf 0 1 0 0) .pcieCap 0x10 0 7 =
        some (pcieSuccess, 7) ∧
      ¬ SearchContract oneSegment oneFunction (pcieCreateBdf 0 1 0 0) .pcieCap 0x10 := by
  have hno : ¬ Responds oneSegment oneFunction (pcieCreateBdf 0 1 0 0) := by
    unfold Responds
    decide
  refine ⟨hno, by decide, not_searchContract_of_untouched ?_⟩
  intro fuel uninit cidOffset ret o h
  have hread : valPcieReadCfg oneSegment oneFunction (pcieCreateBdf 0 1 0 0) type01Cpr =
      some pcieUnknownResponse := by decide
  simp only [valPcieFindCapability, hread, if_true, some_inj, Prod.mk.injEq] at h
  exact ⟨h.1.symm, h.2.symm⟩

end ServerSoc.Pcie
