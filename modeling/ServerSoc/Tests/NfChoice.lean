/-
The function that is not there, for test p005.

`get_nf_bdf` takes the place behind the last device of a bus that the table of functions lists.
The table leaves out some functions, and one of them can be at that place.
-/
import ServerSoc.Pcie.BdfContract
import ServerSoc.Tests.RootPorts

namespace ServerSoc.Tests.RootPorts.P005

open Base Pcie

section

variable (t : Option (List PcieInfoBlock)) (rd : MmioRead)

def RespondsAt (bdf : Nat) : Prop :=
  Mapped t bdf ∧ cfgWord t rd bdf type01Vidr ≠ pcieUnknownResponse

def Omitted (valid : Nat → Nat) (bdf : Nat) : Prop :=
  RespondsAt t rd bdf ∧ (valPcieIsHostBridge t rd bdf = true ∨
    ¬ (cfgWord t rd bdf type01Cpr = pcieUnknownResponse ∨ OnCapList t rd bdf) ∨ valid bdf ≠ 0)

def OnBus (segment bus bdf : Nat) : Prop :=
  pcieExtractBdfSeg bdf = segment ∧ pcieExtractBdfBus bdf = bus

instance (segment bus bdf : Nat) : Decidable (OnBus segment bus bdf) :=
  inferInstanceAs (Decidable (_ ∧ _))

/-- The BDF is on the bus and no function answers at it.  It is 0 when the table lists the
last place of the bus. -/
structure NfRight (table : List Nat) (segment bus : Nat) : Prop where
  place : getNfBdf table segment bus ≠ 0 → OnBus segment bus (getNfBdf table segment bus)
  silent : getNfBdf table segment bus ≠ 0 → ¬ RespondsAt t rd (getNfBdf table segment bus)
  last : getNfBdf table segment bus = 0 → ∀ d < pcieMaxDev, ∀ f < pcieMaxFunc, ∃ q ∈ table,
    OnBus segment bus q ∧
      (d < pcieExtractBdfDev q ∨ d = pcieExtractBdfDev q ∧ f ≤ pcieExtractBdfFunc q)

end

/-- `m` is the highest `f q` of the listed `q` with `p q`, and 0 if there is none. -/
def Highest (table : List Nat) (p : Nat → Prop) (f : Nat → Nat) (m : Nat) : Prop :=
  (∀ q ∈ table, p q → f q ≤ m) ∧ (m = 0 ∨ ∃ q ∈ table, p q ∧ f q = m)

/-- The first function behind the highest device of the bus that is listed, or behind the
highest function of device 31 if that is listed. -/
inductive Behind (table : List Nat) (segment bus : Nat) : Nat → Nat → Prop
  | device {m : Nat} (hdev : Highest table (OnBus segment bus) pcieExtractBdfDev m) (hm : m < 31) :
    Behind table segment bus (m + 1) 0
  | function {n : Nat} (hdev : Highest table (OnBus segment bus) pcieExtractBdfDev 31)
    (hfunc : Highest table (fun q => OnBus segment bus q ∧ pcieExtractBdfDev q = 31)
      pcieExtractBdfFunc n) (hn : n < 7) :
    Behind table segment bus 31 (n + 1)

section

variable {table : List Nat} {segment bus d f d' f' : Nat}

theorem Highest.unique {p : Nat → Prop} {f : Nat → Nat} {m m' : Nat} (h : Highest table p f m)
    (h' : Highest table p f m') : m = m' := by
  refine Nat.le_antisymm ?_ ?_
  · rcases h.2 with rfl | ⟨q, hq, hp, rfl⟩
    · exact Nat.zero_le m'
    · exact h'.1 q hq hp
  · rcases h'.2 with rfl | ⟨q, hq, hp, rfl⟩
    · exact Nat.zero_le m
    · exact h.1 q hq hp

theorem Behind.unique (h : Behind table segment bus d f) (h' : Behind table segment bus d' f') :
    d = d' ∧ f = f' := by
  cases h with
  | device hdev hm =>
    cases h' with
    | device hdev' => exact ⟨by rw [hdev.unique hdev'], rfl⟩
    | function hdev' => exact absurd (hdev.unique hdev') hm.ne
  | function hdev hfunc =>
    cases h' with
    | device hdev' hm => exact absurd (hdev'.unique hdev) hm.ne
    | function _ hfunc' => exact ⟨rfl, by rw [hfunc.unique hfunc']⟩

theorem Behind.spec (h : Behind table segment bus d f) : 0 < d ∧ d < 32 ∧ f < 8 ∧
    ∀ q ∈ table, OnBus segment bus q →
      pcieExtractBdfDev q < d ∨ pcieExtractBdfDev q = d ∧ pcieExtractBdfFunc q < f := by
  cases h with
  | device hdev hm =>
    refine ⟨by omega, by omega, by decide, fun q hq hon => .inl ?_⟩
    exact Nat.lt_succ_of_le (hdev.1 q hq hon)
  | function hdev hfunc hn =>
    refine ⟨by decide, by decide, by omega, fun q hq hon => ?_⟩
    rcases (hdev.1 q hq hon).lt_or_eq with hlt | heq
    · exact .inl hlt
    · exact .inr ⟨heq, Nat.lt_succ_of_le (hfunc.1 q hq ⟨hon, heq⟩)⟩

theorem getNfBdf_cases (htable : ∀ q ∈ table, pcieExtractBdfDev q < 32 ∧ pcieExtractBdfFunc q < 8)
    (segment bus : Nat) :
    (∃ d f, Behind table segment bus d f ∧
      getNfBdf table segment bus = pcieCreateBdf segment bus d f) ∨
    getNfBdf table segment bus = 0 ∧ ∃ q ∈ table, OnBus segment bus q ∧
      pcieExtractBdfDev q = 31 ∧ pcieExtractBdfFunc q = 7 := by
  unfold getNfBdf
  generalize hfold : table.foldl _ 0 = maxDev
  dsimp only
  obtain ⟨-, hdev⟩ := foldl_max (p := OnBus segment bus) (f := pcieExtractBdfDev) hfold
    (fun m x => by simp [OnBus, and_assoc, eq_comm])
  have hlt : maxDev < 32 := by
    rcases hdev.2 with rfl | ⟨q, hq, -, rfl⟩
    · decide
    · exact (htable q hq).1
  by_cases hmax : maxDev = pcieMaxDev - 1
  · rw [if_pos hmax]
    obtain rfl : maxDev = 31 := hmax
    generalize hfold' : table.foldl _ 0 = maxFunc
    obtain ⟨-, hfunc⟩ := foldl_max
      (p := fun q => OnBus segment bus q ∧ pcieExtractBdfDev q = 31)
      (f := pcieExtractBdfFunc) hfold' fun m x => by simp [OnBus, and_assoc, eq_comm]
    have hlt' : maxFunc < 8 := by
      rcases hfunc.2 with rfl | ⟨q, hq, -, rfl⟩
      · decide
      · exact (htable q hq).2
    by_cases hlast : maxFunc = pcieMaxFunc - 1
    · have hlast' : maxFunc = 7 := hlast
      rw [if_neg (not_not.mpr hlast)]
      obtain ⟨q, hq, ⟨hon, hqdev⟩, hqfunc⟩ := hfunc.2.resolve_left (by omega)
      exact .inr ⟨rfl, q, hq, hon, hqdev, hqfunc.trans hlast'⟩
    · have hlast' : maxFunc ≠ 7 := hlast
      rw [if_pos hlast]
      exact .inl ⟨31, maxFunc + 1, .function hdev hfunc (by omega), rfl⟩
  · have hmax' : maxDev ≠ 31 := hmax
    rw [if_neg hmax, if_pos hmax]
    exact .inl ⟨maxDev + 1, 0, .device hdev (by omega), rfl⟩

end

section

variable {σ : Type} {hw : CfgHw σ} {blocks : List PcieInfoBlock} {s0 s' : σ} {valid : Nat → Nat}
  {fuel : Nat} {table : List Nat}

theorem mem_loopBdfs_of_mapped {segment bus d f : Nat} (hseg : segment < 256) (hbus : bus < 256)
    (hd : d < 32) (hf : f < 8) (hmap : Mapped (some blocks) (pcieCreateBdf segment bus d f)) :
    pcieCreateBdf segment bus d f ∈ loopBdfs (some blocks) := by
  obtain ⟨h1, h2, h3, h4⟩ := pcieCreateBdf_fields hseg hbus (show d < 256 by omega)
    (show f < 256 by omega)
  obtain ⟨b, hb, hbseg, hs, he, -⟩ := findEcamBase_eq_of_ne_zero hmap.2.2
  rw [h1] at hbseg
  rw [h2] at hs he
  rw [loopBdfs_eq, List.mem_map]
  exact ⟨⟨b, bus, d, f⟩, mem_slots.mpr ⟨hb, hs, he, hd, hf⟩, by rw [Slot.bdf, hbseg]⟩

/-- For a table that was built, the choice is right on every bus exactly when the function
behind the listed ones is none that the table leaves out. -/
theorem getNfBdf_right_iff (ht : InfoTable blocks) (hu : Undisturbed hw (some blocks) s0)
    (hbuild : valPcieCreateDeviceBdfTable hw (some blocks) fuel valid true none s0 =
      some (pcieSuccess, some table, s')) :
    (∀ segment < 256, ∀ bus < 256, NfRight (some blocks) (hw.read s') table segment bus) ↔
      ∀ segment < 256, ∀ bus < 256, ∀ d f, Behind table segment bus d f →
        ¬ Omitted (some blocks) (hw.read s') valid (pcieCreateBdf segment bus d f) := by
  obtain ⟨hend, htab, hs'⟩ := of_build_success hu hbuild
  have htable : ∀ q ∈ table, pcieExtractBdfDev q < 32 ∧ pcieExtractBdfFunc q < 8 := by
    intro q hq
    rw [htab, loopBdfs_eq] at hq
    obtain ⟨x, hx, rfl⟩ := List.mem_map.mp (List.mem_filter.mp hq).1
    have hdec := decodeBdf_bdf ht hx
    simp only [decodeBdf, Prod.mk.injEq] at hdec
    rw [hdec.2.2.1, hdec.2.2.2]
    exact (mem_slots.mp hx).2.2.2
  refine forall₂_congr fun segment hseg => forall₂_congr fun bus hbus => ?_
  rcases getNfBdf_cases htable segment bus with ⟨d, f, hbehind, hnf⟩ | ⟨hnf, q, hq, hon, hqd, hqf⟩
  · obtain ⟨hpos, hd, hf, hall⟩ := hbehind.spec
    obtain ⟨h1, h2, h3, h4⟩ := pcieCreateBdf_fields hseg hbus (show d < 256 by omega)
      (show f < 256 by omega)
    have hne : pcieCreateBdf segment bus d f ≠ 0 := by
      intro h0
      rw [h0] at h3
      have hzero : pcieExtractBdfDev 0 = 0 := rfl
      omega
    -- behind the last listed function nothing is listed, so what answers there was left out
    have homit : RespondsAt (some blocks) (hw.read s') (pcieCreateBdf segment bus d f) →
        Omitted (some blocks) (hw.read s') valid (pcieCreateBdf segment bus d f) := by
      intro hresp
      refine ⟨hresp, ?_⟩
      by_contra hnot
      push Not at hnot
      obtain ⟨hhb, hcap, hvalid⟩ := hnot
      have hloop := mem_loopBdfs_of_mapped hseg hbus hd hf hresp.1
      have hlisted := hall _ (htab ▸ List.mem_filter.mpr ⟨hloop,
        (takes_iff rfl hu hresp.1 (hend _ hloop)).mpr
          ⟨by rw [← hs']; simp [candidate, hresp.2, hhb], hs' ▸ hcap, hvalid⟩⟩) ⟨h1, h2⟩
      omega
    constructor
    · intro h d' f' hbehind' homitted
      obtain ⟨rfl, rfl⟩ := hbehind.unique hbehind'
      exact h.silent (hnf ▸ hne) (hnf ▸ homitted.1)
    · intro h
      refine ⟨fun _ => ?_, fun _ => ?_, fun h0 => absurd (hnf ▸ h0) hne⟩
      · rw [hnf]
        exact ⟨h1, h2⟩
      · rw [hnf]
        exact fun hresp => h d f hbehind (homit hresp)
  · refine iff_of_true ⟨fun h => absurd hnf h, fun h => absurd hnf h, fun _ d hd f hf => ?_⟩
      (fun d f hbehind => ?_)
    · have hd' : d < 32 := hd
      have hf' : f < 8 := hf
      exact ⟨q, hq, hon, by omega⟩
    · have hplace := hbehind.spec.2.2.2 q hq hon
      have hrange := hbehind.spec
      omega

end

/-! ## The function 0:0.0 alone and with a host bridge -/

def withHostBridge : MmioRead := fun width a =>
  if a = 0x30008000 then 0x00011234 else if a = 0x30008008 then 0x06000000 else oneFunction width a

theorem getNfBdf_right_oneFunction :
    valPcieCreateDeviceBdfTable oneFunctionHw (some [⟨0x30000000, 0, 0, 0⟩]) 2 (fun _ => 0)
      true none () =
        some (pcieSuccess, some [0], ()) ∧
      ∀ segment < 256, ∀ bus < 256, NfRight (some [⟨0x30000000, 0, 0, 0⟩])
        oneFunction [0] segment bus := by
  have hbuild : valPcieCreateDeviceBdfTable oneFunctionHw (some [⟨0x30000000, 0, 0, 0⟩]) 2
      (fun _ => 0) true none () = some (pcieSuccess, some [0], ()) := by
    decide +kernel
  have ht : InfoTable [⟨0x30000000, 0, 0, 0⟩] := ⟨by decide, by decide, List.pairwise_singleton _ _⟩
  refine ⟨hbuild, (getNfBdf_right_iff ht (undisturbed_oneFunctionHw _) hbuild).mpr ?_⟩
  intro segment hseg bus hbus d f hbehind homit
  have hone : Behind [0] segment bus 1 0 :=
    .device ⟨by simp [pcieExtractBdfDev], .inl rfl⟩ (by decide)
  obtain ⟨rfl, rfl⟩ := hbehind.unique hone
  obtain ⟨h1, h2, -⟩ :=
    pcieCreateBdf_fields hseg hbus (show 1 < 256 by decide) (show 0 < 256 by decide)
  obtain ⟨b, hb, hbseg, hs, he, -⟩ := findEcamBase_eq_of_ne_zero homit.1.1.2.2
  rw [List.mem_singleton.mp hb] at hbseg hs he
  obtain rfl : segment = 0 := h1.symm.trans hbseg.symm
  obtain rfl : bus = 0 := h2.symm.trans (Nat.le_zero.mp he)
  exact homit.1.2 (by decide)

/-- The host bridge is not listed, and answers at the place that is chosen. -/
theorem getNfBdf_hostBridge :
    valPcieCreateDeviceBdfTable (⟨fun _ => withHostBridge, fun s _ _ => s⟩ : CfgHw Unit)
        (some [⟨0x30000000, 0, 0, 0⟩]) 2 (fun _ => 0) true none () =
          some (pcieSuccess, some [0], ()) ∧
      getNfBdf [0] 0 0 = 0x100 ∧
      ¬ NfRight (some [⟨0x30000000, 0, 0, 0⟩]) withHostBridge [0] 0 0 := by
  refine ⟨by decide +kernel, by decide, fun h => h.silent (by decide) ?_⟩
  exact ⟨by decide, by decide⟩

end ServerSoc.Tests.RootPorts.P005
