/-
Test p002: the ECAM windows are contiguous inside a segment, apart between segments, and aligned
(test_os_p002.c).

The gather loop counts `num_ecam` down to zero, and the sort and the checks behind it run over
that counter.
-/
import Mathlib.Data.List.Sort
import Mathlib.Data.Prod.Lex
import ServerSoc.Pcie.Cfg
import ServerSoc.Val.Status

namespace ServerSoc.Tests.P002

open Pcie Val List Function

def testNum : Nat := 800 + 2

structure EcamSpace where
  base : Nat
  size : Nat
  segment : Nat
  startBus : Nat
  endBus : Nat
  deriving DecidableEq, Repr

def sortStep (data : Nat → EcamSpace) (j : Nat) : Nat → EcamSpace :=
  if (data (j + 1)).segment < (data j).segment ∨
      ((data j).segment = (data (j + 1)).segment ∧
        (data (j + 1)).startBus < (data j).startBus) then
    Function.update (Function.update data j (data (j + 1))) (j + 1) (data j)
  else data

/-- The 8-bit loop indices do not wrap for the counts of up to 20 it is written for. -/
def sortEcamData (numEcam : Nat) (data : Nat → EcamSpace) : Nat → EcamSpace :=
  (List.range (numEcam - 1)).foldl (fun data i =>
    (List.range (numEcam - 1 - i)).foldl sortStep data) data

/-- The gather loop.  It returns `num_ecam` and `ecam_data` as the loop leaves them,
or nothing when a base is zero. -/
def gatherEcamData (t : Option (List PcieInfoBlock)) :
    Nat → (Nat → EcamSpace) → Option (Nat × (Nat → EcamSpace))
  | 0, data => some (0, data)
  | numEcam + 1, data =>
    let ecamBase := valPcieGetInfo t .ecam numEcam
    if ecamBase = 0 then none
    else
      let segment := valPcieGetInfo t .segment numEcam
      let bus := valPcieGetInfo t .startBus numEcam
      let endBus := valPcieGetInfo t .endBus numEcam
      let ecamSize := (endBus + 2 ^ 32 - bus + 1) * 256 * 4096 % 2 ^ 32
      gatherEcamData t numEcam
        (Function.update data numEcam ⟨ecamBase, ecamSize, segment, bus, endBus⟩)

/-- The status with which the check of window `ecamIndex` ends the payload, if it does. -/
def checkEcam (data : Nat → EcamSpace) (numEcam ecamIndex : Nat) : Option Nat :=
  let current := data ecamIndex
  let next := data (ecamIndex + 1)
  if ecamIndex + 1 < numEcam ∧ current.segment = next.segment ∧
      (current.endBus + 1) % 2 ^ 32 ≠ next.startBus then some (resultFail testNum 1)
  else if ecamIndex + 1 < numEcam ∧ current.segment = next.segment ∧
      (current.base + current.size) % 2 ^ 64 ≠ next.base then some (resultFail testNum 1)
  else if ecamIndex + 1 < numEcam ∧ current.segment ≠ next.segment ∧
      next.base ≤ (current.base + current.size) % 2 ^ 64 ∧
      current.base ≤ (next.base + next.size) % 2 ^ 64 then some (resultFail testNum 1)
  else if current.base % current.size ≠ 0 then some (resultFail testNum 1)
  else none

/-- The status word after the payload.  `esrStatus` is the joined result of installing
the exception handlers, and no exception comes in between. -/
def payload (esrStatus : Nat) (t : Option (List PcieInfoBlock)) (ecamData : Nat → EcamSpace) :
    Nat :=
  if esrStatus ≠ 0 then resultFail testNum 1
  else
    let numEcam := valPcieGetInfo t .numEcam 0
    if numEcam = 0 then resultSkip testNum 1
    else
      match gatherEcamData t numEcam ecamData with
      | none => resultSkip testNum 1
      | some (numEcam, data) =>
        let data := if 1 < numEcam then sortEcamData numEcam data else data
        ((List.range numEcam).findSome? (checkEcam data numEcam)).getD (resultPass testNum 1)

/-! ## The layout rules -/

def windowSize (b : PcieInfoBlock) : Nat := (b.endBusNum + 1 - b.startBusNum) * 2 ^ 20

def BySegmentAndBus (a b : PcieInfoBlock) : Prop :=
  a.segmentNum < b.segmentNum ∨ (a.segmentNum = b.segmentNum ∧ a.startBusNum ≤ b.startBusNum)

instance : DecidableRel BySegmentAndBus := fun _ _ => inferInstanceAs (Decidable (_ ∨ _))

/-- Two neighbours of one segment leave a gap in the buses or in the addresses. -/
def Discontiguous (blocks : List PcieInfoBlock) : Prop :=
  ∃ i a b, (blocks.insertionSort BySegmentAndBus)[i]? = some a ∧
    (blocks.insertionSort BySegmentAndBus)[i + 1]? = some b ∧ a.segmentNum = b.segmentNum ∧
    (a.endBusNum + 1 ≠ b.startBusNum ∨ a.ecamBase + windowSize a ≠ b.ecamBase)

def Overlapping (blocks : List PcieInfoBlock) : Prop :=
  ∃ a ∈ blocks, ∃ b ∈ blocks, a.segmentNum ≠ b.segmentNum ∧
    a.ecamBase < b.ecamBase + windowSize b ∧ b.ecamBase < a.ecamBase + windowSize a

def Misaligned (blocks : List PcieInfoBlock) : Prop := ∃ a ∈ blocks, ¬ windowSize a ∣ a.ecamBase

def Violating (blocks : List PcieInfoBlock) : Prop :=
  Discontiguous blocks ∨ Overlapping blocks ∨ Misaligned blocks

structure SoundComplete (blocks : List PcieInfoBlock) (status : Nat) : Prop where
  fail : isTestFail status = true ↔ Violating blocks
  pass : isTestPass status = true ↔ ¬ Violating blocks

/-! ## What the payload reports -/

variable {blocks : List PcieInfoBlock}

theorem gatherEcamData_eq (hbase : ∀ b ∈ blocks, b.ecamBase ≠ 0) {n : Nat}
    (hn : n ≤ blocks.length) (data : Nat → EcamSpace) :
    ∃ data', gatherEcamData (some blocks) n data = some (0, data') := by
  induction n generalizing data with
  | zero => exact ⟨data, rfl⟩
  | succ n ih =>
    have hne : valPcieGetInfo (some blocks) .ecam n ≠ 0 := by
      rw [valPcieGetInfo, getElem?_eq_getElem hn]
      exact hbase _ (getElem_mem hn)
    rw [gatherEcamData]
    simp only [if_neg hne]
    exact ih (Nat.le_of_succ_le hn) _

theorem payload_eq (hne : blocks ≠ []) (hbase : ∀ b ∈ blocks, b.ecamBase ≠ 0)
    (ecamData : Nat → EcamSpace) : payload 0 (some blocks) ecamData = resultPass testNum 1 := by
  have hnum : valPcieGetInfo (some blocks) .numEcam 0 ≠ 0 := by
    rw [valPcieGetInfo_numEcam]
    exact Nat.ne_of_gt (length_pos_iff.mpr hne)
  obtain ⟨data', hgather⟩ := gatherEcamData_eq hbase
    (valPcieGetInfo_numEcam blocks).le ecamData
  simp only [payload, if_neg hnum, hgather]
  rfl

/-- The verdict is right on a compliant layout, and, when the exception handlers
cannot be installed, on a violating one. -/
theorem payload_soundComplete_iff_compliant {blocks : List PcieInfoBlock}
    (hlen : 1 ≤ blocks.length ∧ blocks.length ≤ 20) (hbase : ∀ b ∈ blocks, b.ecamBase ≠ 0)
    (esrStatus : Nat) (ecamData : Nat → EcamSpace) :
    SoundComplete blocks (payload esrStatus (some blocks) ecamData) ↔
      (esrStatus = 0 ∧ ¬ Violating blocks) ∨ (esrStatus ≠ 0 ∧ Violating blocks) := by
  by_cases hesr : esrStatus = 0
  · subst hesr
    rw [payload_eq (ne_nil_of_length_pos hlen.1) hbase]
    constructor
    · intro h
      exact .inl ⟨rfl, h.pass.mp (by decide)⟩
    · rintro (⟨-, hno⟩ | ⟨hne, -⟩)
      · exact ⟨⟨fun h => absurd h (by decide), fun h => absurd h hno⟩,
          ⟨fun _ => hno, fun _ => by decide⟩⟩
      · exact absurd rfl hne
  · rw [payload, if_pos hesr]
    constructor
    · intro h
      exact .inr ⟨hesr, h.fail.mp (by decide)⟩
    · rintro (⟨h0, -⟩ | ⟨-, hv⟩)
      · exact absurd h0 hesr
      · exact ⟨⟨fun _ => hv, fun _ => by decide⟩,
          ⟨fun h => absurd h (by decide), fun h => absurd hv h⟩⟩

/-! ## Two windows, without and with a gap -/

def emptyEcamData : Nat → EcamSpace := fun _ => ⟨0, 0, 0, 0, 0⟩

def twoWindows : List PcieInfoBlock := [⟨0x30000000, 0, 0, 127⟩, ⟨0x38000000, 0, 128, 255⟩]

theorem payload_twoWindows :
    SoundComplete twoWindows (payload 0 (some twoWindows) emptyEcamData) := by
  refine (payload_soundComplete_iff_compliant ⟨by decide, by decide⟩ (by decide) 0
    emptyEcamData).mpr (.inl ⟨rfl, ?_⟩)
  rintro (⟨i, a, b, ha, hb, hgap⟩ | ⟨a, ha, b, hb, hseg, -⟩ | ⟨a, ha, hno⟩)
  · have hi : i + 1 < 2 := (List.getElem?_eq_some_iff.mp hb).1
    obtain rfl : i = 0 := by omega
    cases ha
    cases hb
    revert hgap
    decide
  · revert a b
    decide
  · revert a
    decide

def gapWindows : List PcieInfoBlock := [⟨0x30000000, 0, 0, 127⟩, ⟨0x40000000, 0, 144, 255⟩]

theorem payload_gapWindows :
    Violating gapWindows ∧
      payload 0 (some gapWindows) emptyEcamData = resultPass testNum 1 ∧
      ¬ SoundComplete gapWindows (payload 0 (some gapWindows) emptyEcamData) := by
  have hv : Violating gapWindows :=
    .inl ⟨0, ⟨0x30000000, 0, 0, 127⟩, ⟨0x40000000, 0, 144, 255⟩, by decide, by decide, rfl,
      .inl (by decide)⟩
  have hrun : payload 0 (some gapWindows) emptyEcamData = resultPass testNum 1 := by decide
  refine ⟨hv, hrun, fun h => ?_⟩
  exact h.pass.mp (by decide) hv

/-! ## The sort -/

def key (e : EcamSpace) : Nat ×ₗ Nat := toLex (e.segment, e.startBus)

/-- The entries of `data` at other places, with those of one key in their order. -/
structure Arranged (numEcam : Nat) (data data' : Nat → EcamSpace) (place : Equiv.Perm Nat) :
    Prop where
  moved : ∀ i, data' i = data (place i)
  fixed : ∀ i, numEcam ≤ i → place i = i
  stable : ∀ i k, i < k → k < numEcam → key (data' i) = key (data' k) → place i < place k

section

variable {numEcam : Nat} {data data' : Nat → EcamSpace} {t j : Nat}

theorem sortStep_eq (data : Nat → EcamSpace) (j : Nat) :
    sortStep data j =
      if key (data (j + 1)) < key (data j) then data ∘ Equiv.swap j (j + 1) else data := by
  have hcond : key (data (j + 1)) < key (data j) ↔ (data (j + 1)).segment < (data j).segment ∨
      (data j).segment = (data (j + 1)).segment ∧ (data (j + 1)).startBus < (data j).startBus := by
    rw [key, key, Prod.Lex.toLex_lt_toLex, eq_comm]
  rw [sortStep]
  simp only [← hcond]
  split_ifs
  · funext i
    grind
  · rfl

theorem Arranged.step {place : Equiv.Perm Nat} (h : Arranged numEcam data data' place)
    (hj : j + 1 < numEcam) : ∃ place, Arranged numEcam data (sortStep data' j) place := by
  rw [sortStep_eq]
  split_ifs with hlt
  · refine ⟨(Equiv.swap j (j + 1)).trans place, fun i => h.moved _, fun i hi => ?_, ?_⟩
    · rw [Equiv.trans_apply, Equiv.swap_apply_of_ne_of_ne (by omega) (by omega), h.fixed i hi]
    · intro i k hik hk heq
      -- only the two neighbours change their order, and their keys differ
      by_cases hpair : i = j ∧ k = j + 1
      · obtain ⟨rfl, rfl⟩ := hpair
        simp only [comp_apply, Equiv.swap_apply_left, Equiv.swap_apply_right] at heq
        exact absurd heq hlt.ne
      · refine h.stable _ _ ?_ ?_ heq
        all_goals
          simp only [Equiv.swap_apply_def]
          split_ifs <;> omega
  · exact ⟨place, h⟩

/-- The loops with `t` entries left to sort, of which entry `j` has the largest key so far. -/
structure Sweeping (numEcam : Nat) (data : Nat → EcamSpace) (t j : Nat)
    (data' : Nat → EcamSpace) : Prop where
  arranged : ∃ place, Arranged numEcam data data' place
  done : ∀ q, t ≤ q → q < numEcam → ∀ p ≤ q, key (data' p) ≤ key (data' q)
  top : ∀ p ≤ j, key (data' p) ≤ key (data' j)

theorem Sweeping.step (h : Sweeping numEcam data t j data') (hj : j + 1 < t) (ht : t ≤ numEcam) :
    Sweeping numEcam data t (j + 1) (sortStep data' j) := by
  obtain ⟨place, hplace⟩ := h.arranged
  refine ⟨hplace.step (by omega), fun q hq hlt p hp => ?_, fun p hp => ?_⟩
  · rw [sortStep_eq]
    split_ifs
    · rw [comp_apply, comp_apply, Equiv.swap_apply_of_ne_of_ne (x := q) (by omega)
        (by omega)]
      refine h.done q hq hlt _ ?_
      rw [Equiv.swap_apply_def]
      split_ifs <;> omega
    · exact h.done q hq hlt p hp
  · rw [sortStep_eq]
    split_ifs with hkey
    · rw [comp_apply, comp_apply, Equiv.swap_apply_right]
      rw [Equiv.swap_apply_def]
      split_ifs with h1 h2
      · exact hkey.le
      · exact le_rfl
      · exact h.top p (by omega)
    · rcases Nat.lt_or_ge j p with hlt | hle
      · rw [show p = j + 1 by omega]
      · exact (h.top p hle).trans (not_lt.mp hkey)

theorem Sweeping.pass (h : Sweeping numEcam data t 0 data') (ht : t ≤ numEcam) {m : Nat}
    (hm : m < t) : Sweeping numEcam data t m ((range m).foldl sortStep data') := by
  induction m with
  | zero => exact h
  | succ m ih =>
    rw [range_succ, foldl_append]
    exact (ih (by omega)).step hm ht

end

theorem sortEcamData_sorted (numEcam : Nat) (data : Nat → EcamSpace) :
    (∃ place, Arranged numEcam data (sortEcamData numEcam data) place) ∧
      ∀ i k, i ≤ k → k < numEcam →
        key (sortEcamData numEcam data i) ≤ key (sortEcamData numEcam data k) := by
  -- after `i` rounds of the outer loop
  have hrounds : ∀ i ≤ numEcam - 1, Sweeping numEcam data (numEcam - i) 0
      ((List.range i).foldl (fun data i => (List.range (numEcam - 1 - i)).foldl sortStep data)
        data) := by
    intro i hi
    induction i with
    | zero =>
      refine ⟨⟨.refl _, fun _ => rfl, fun _ _ => rfl, fun _ _ hik _ _ => hik⟩,
        fun q _ _ => by omega, ?_⟩
      simp
    | succ i ih =>
      rw [range_succ, foldl_append]
      have hpass := (ih (by omega)).pass (by omega) (m := numEcam - 1 - i) (by omega)
      refine ⟨hpass.arranged, fun q hq hlt p hp => ?_, by simp⟩
      by_cases heq : q = numEcam - 1 - i
      · rw [heq] at hp ⊢
        exact hpass.top p hp
      · exact hpass.done q (by omega) hlt p hp
  have hend := hrounds (numEcam - 1) le_rfl
  refine ⟨hend.arranged, fun i k hik hk => ?_⟩
  by_cases hzero : k = 0
  · rw [show i = k by omega]
  · exact hend.done k (by omega) hk i hik

end ServerSoc.Tests.P002
