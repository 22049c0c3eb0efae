/-
Which status wins when the harts of a test disagree (acs_test_infra.c).

`val_check_for_error` stops at the first hart that failed or skipped.  So a skip in front of a
failure hides it, and when no hart failed or skipped the last hart speaks for all of them.
-/
import Mathlib.Logic.Equiv.Basic
import ServerSoc.Infra.Accounting

namespace ServerSoc.Infra

open Val List

def Reorders (numHart : Nat) (σ : Equiv.Perm Nat) : Prop := ∀ i, σ i < numHart ↔ i < numHart

def reorder (s : RunState) (σ : Equiv.Perm Nat) : RunState :=
  { s with status := fun i => s.status (σ i) }

structure Aggregates (myIndex numHart : Nat) (s : RunState) : Prop where
  fail : (∃ i < numHart, isTestFail (s.status i) = true) →
    (valCheckForError myIndex numHart s).1 = .fail ∧
      (valCheckForError myIndex numHart s).2.testsFail = s.testsFail + 1
  skip : (valCheckForError myIndex numHart s).1 = .skip →
    (∀ i < numHart, isTestFail (s.status i) = false) ∧
      ∃ i < numHart, isTestSkip (s.status i) = true
  pass : (valCheckForError myIndex numHart s).1 = .pass →
    ∀ i < numHart, isTestPass (s.status i) = true

def FailDominates (myIndex numHart : Nat) (s : RunState) : Prop :=
  ∀ σ, Reorders numHart σ → Aggregates myIndex numHart (reorder s σ)

/-- No failure stands beside a skip, and harts without either agree on a pass. -/
structure Unmixed (numHart : Nat) (word : Nat → Nat) : Prop where
  failSkip : (∃ i < numHart, isTestFail (word i) = true) →
    ∀ i < numHart, isTestSkip (word i) = false
  pass : (∀ i < numHart, isTestFailSkip (word i) = false) →
    (∃ i < numHart, isTestPass (word i) = true) → ∀ i < numHart, isTestPass (word i) = true

/-! ## States of a word -/

section

variable {w : Nat}

theorem isTestFailSkip_eq_true :
    isTestFailSkip w = true ↔ isTestFail w = true ∨ isTestSkip w = true := by
  rw [isTestFailSkip, Bool.or_eq_true]

theorem not_isTestSkip_of_isTestPass (h : isTestPass w = true) : isTestSkip w = false := by
  simp only [isTestPass, isTestSkip, decide_eq_true_eq] at h ⊢
  rw [h]
  decide

end

/-! ## The word the check ends with -/

section

variable {numHart myIndex j i : Nat} {s : RunState}

theorem scanStatus_cases (word : Nat → Nat) (l : List Nat) (status : Nat) :
    (∃ i ∈ l, isTestFailSkip (word i) = true ∧ scanStatus word l status = word i) ∨
      ((∀ i ∈ l, isTestFailSkip (word i) = false) ∧
        scanStatus word l status = (l.getLast?.map word).getD status) := by
  induction l generalizing status with
  | nil => simp [scanStatus]
  | cons j l ih =>
    rw [scanStatus]
    by_cases hj : isTestFailSkip (word j) = true
    · left
      exact ⟨j, mem_cons_self, hj, if_pos hj⟩
    · rw [if_neg hj]
      rcases ih (word j) with ⟨i, hi, hfs, hscan⟩ | ⟨hnone, hscan⟩
      · exact .inl ⟨i, mem_cons_of_mem j hi, hfs, hscan⟩
      · right
        refine ⟨?_, ?_⟩
        · intro i hi
          rcases mem_cons.mp hi with rfl | hi
          · simpa using hj
          · exact hnone i hi
        · rw [hscan, getLast?_cons]
          cases l.getLast? <;> rfl

theorem checkedStatus_cases (hn : 1 < numHart) (myIndex : Nat) (word : Nat → Nat) :
    (∃ i < numHart, isTestFailSkip (word i) = true ∧
        checkedStatus myIndex numHart word = word i) ∨
      ((∀ i < numHart, isTestFailSkip (word i) = false) ∧
        checkedStatus myIndex numHart word = word (numHart - 1)) := by
  have hlast : (range numHart).getLast? = some (numHart - 1) := by
    rw [getLast?_range, if_neg (by omega)]
  have hscan := scanStatus_cases word (range numHart) 0
  simpa [checkedStatus, show numHart ≠ 1 by omega, hlast] using hscan

theorem checkedStatus_first (hn : 1 < numHart) (myIndex : Nat) (word : Nat → Nat)
    (h : isTestFailSkip (word 0) = true) : checkedStatus myIndex numHart word = word 0 := by
  obtain ⟨n, rfl⟩ : ∃ n, numHart = n + 1 := ⟨numHart - 1, by omega⟩
  rw [checkedStatus, if_neg (by omega), range_succ_eq_map, scanStatus, if_pos h]

theorem valCheckForError_fst :
    (valCheckForError myIndex numHart s).1 = verdict (checkedStatus myIndex numHart s.status) := by
  simp only [valCheckForError, verdict]
  split
  · rfl
  · split <;> rfl

theorem verdict_eq_skip {w : Nat} : verdict w = .skip ↔ isTestSkip w = true := by
  by_cases hp : isTestPass w = true
  · simp [verdict, hp, not_isTestSkip_of_isTestPass hp]
  · simp [verdict, hp]

theorem testsFail_of_fail (h : (valCheckForError myIndex numHart s).1 = .fail) :
    (valCheckForError myIndex numHart s).2.testsFail = s.testsFail + 1 := by
  rcases valCheckForError_cases myIndex numHart s with hc | hc | hc
  · rw [hc] at h
    cases h
  · rw [hc] at h
    cases h
  · rw [hc]

theorem aggregates_of_unmixed (hn : 1 < numHart) (h : Unmixed numHart s.status) :
    Aggregates myIndex numHart s := by
  rcases checkedStatus_cases hn myIndex s.status with ⟨k, hk, hfs, hword⟩ | ⟨hnone, hword⟩
  · -- the check stopped at hart `k`
    have hnp := (only_isTestFailSkip hfs).1
    refine ⟨?_, ?_, ?_⟩
    · intro hfail
      have hret : (valCheckForError myIndex numHart s).1 = .fail := by
        rw [valCheckForError_fst, hword]
        simp [verdict, hnp, h.failSkip hfail k hk]
      exact ⟨hret, testsFail_of_fail hret⟩
    · intro hskip
      rw [valCheckForError_fst, hword, verdict_eq_skip] at hskip
      refine ⟨?_, k, hk, hskip⟩
      intro i hi
      by_contra hfail
      have hns := h.failSkip ⟨i, hi, by simpa using hfail⟩ k hk
      rw [hskip] at hns
      cases hns
    · intro hpass
      rw [valCheckForError_fst, hword, verdict_eq_pass, hnp] at hpass
      cases hpass
  · -- no hart failed or skipped, and the last one was read
    have hlast : numHart - 1 < numHart := by omega
    refine ⟨?_, ?_, ?_⟩
    · rintro ⟨i, hi, hfail⟩
      have hno := hnone i hi
      rw [isTestFailSkip_eq_true.mpr (.inl hfail)] at hno
      cases hno
    · intro hskip
      rw [valCheckForError_fst, hword, verdict_eq_skip] at hskip
      have hno := hnone _ hlast
      rw [isTestFailSkip_eq_true.mpr (.inr hskip)] at hno
      cases hno
    · intro hpass
      rw [valCheckForError_fst, hword, verdict_eq_pass] at hpass
      exact h.pass hnone ⟨_, hlast, hpass⟩

theorem Unmixed.reorder (h : Unmixed numHart s.status) {σ : Equiv.Perm Nat}
    (hσ : Reorders numHart σ) : Unmixed numHart (Infra.reorder s σ).status where
  failSkip := by
    rintro ⟨i, hi, hfail⟩ j hj
    exact h.failSkip ⟨σ i, (hσ i).mpr hi, hfail⟩ (σ j) ((hσ j).mpr hj)
  pass := by
    rintro hnone ⟨i, hi, hpass⟩ j hj
    refine h.pass (fun k hk => ?_) ⟨σ i, (hσ i).mpr hi, hpass⟩ (σ j) ((hσ j).mpr hj)
    have hk' : σ (σ.symm k) < numHart := by simpa using hk
    simpa [Infra.reorder] using hnone (σ.symm k) ((hσ _).mp hk')

theorem reorders_swap (hi : i < numHart) (hj : j < numHart) :
    Reorders numHart (Equiv.swap i j) := by
  intro k
  by_cases hki : k = i
  · rw [hki, Equiv.swap_apply_left]
    exact iff_of_true hj hi
  · by_cases hkj : k = j
    · rw [hkj, Equiv.swap_apply_right]
      exact iff_of_true hi hj
    · rw [Equiv.swap_apply_of_ne_of_ne hki hkj]

section

variable (hn : 1 < numHart) (h : FailDominates myIndex numHart s)
include hn h

/-- With a skip as the first hart a failure behind it is not seen. -/
theorem FailDominates.failSkip
    (hi : i < numHart) (hfail : isTestFail (s.status i) = true) (hj : j < numHart) :
    isTestSkip (s.status j) = false := by
  by_contra hskip
  rw [Bool.not_eq_false] at hskip
  have hσ := reorders_swap (show 0 < numHart by omega) hj
  have hfirst : (reorder s (Equiv.swap 0 j)).status 0 = s.status j := by
    simp [Infra.reorder]
  have hword := checkedStatus_first hn myIndex (reorder s (Equiv.swap 0 j)).status
    (by rw [hfirst]; exact isTestFailSkip_eq_true.mpr (.inr hskip))
  have hret := (h _ hσ).fail ⟨Equiv.swap 0 j i, (hσ i).mpr hi, by
    simpa [Infra.reorder] using hfail⟩
  rw [valCheckForError_fst, hword, hfirst, verdict_eq_skip.mpr hskip] at hret
  cases hret.1

theorem FailDominates.pass
    (hnone : ∀ i < numHart, isTestFailSkip (s.status i) = false) (hi : i < numHart)
    (hpass : isTestPass (s.status i) = true) (hj : j < numHart) :
    isTestPass (s.status j) = true := by
  have hσ := reorders_swap (show numHart - 1 < numHart by omega) hi
  have hlast : (reorder s (Equiv.swap (numHart - 1) i)).status (numHart - 1) = s.status i := by
    simp [Infra.reorder]
  have hret : (valCheckForError myIndex numHart (reorder s (Equiv.swap (numHart - 1) i))).1 =
      .pass := by
    rcases checkedStatus_cases hn myIndex (reorder s (Equiv.swap (numHart - 1) i)).status with
      ⟨k, hk, hfs, -⟩ | ⟨-, hword⟩
    · rw [Infra.reorder, hnone _ ((hσ k).mpr hk)] at hfs
      cases hfs
    · rw [valCheckForError_fst, hword, hlast, verdict_eq_pass.mpr hpass]
  have hall := (h _ hσ).pass hret (Equiv.swap (numHart - 1) i j) ((hσ j).mpr hj)
  simpa [Infra.reorder] using hall

end

end

/-- A failure decides in every order of the harts exactly when no failure stands beside a
skip, and when harts that neither failed nor skipped do not disagree about a pass. -/
theorem valCheckForError_failDominates_iff {numHart : Nat} (hn : 1 < numHart) (myIndex : Nat)
    (s : RunState) : FailDominates myIndex numHart s ↔ Unmixed numHart s.status := by
  constructor
  · intro h
    refine ⟨?_, ?_⟩
    · rintro ⟨i, hi, hfail⟩ j hj
      exact h.failSkip hn hi hfail hj
    · rintro hnone ⟨i, hi, hpass⟩ j hj
      exact h.pass hn hnone hi hpass hj
  · intro h σ hσ
    exact aggregates_of_unmixed hn (h.reorder hσ)

def reports (words : List Nat) : RunState := ⟨⟨fun i => words.getD i 0, 0, 0⟩, 0, 0⟩

theorem valCheckForError_failDominates_pass :
    (valCheckForError 0 2 (reports [resultPass 1 1, resultFail 1 1])).1 = .fail ∧
      FailDominates 0 2 (reports [resultPass 1 1, resultFail 1 1]) :=
  ⟨by decide, (valCheckForError_failDominates_iff (by decide) 0 _).mpr
    ⟨fun _ => by decide, fun hnone => absurd (hnone 1 (by decide)) (by decide)⟩⟩

/-- Hart 0 skips, hart 1 fails: the test counts as skipped. -/
theorem valCheckForError_skip_hides_fail :
    (∀ i < 2, isResultPending ((reports [resultSkip 1 1, resultFail 1 1]).status i) = false) ∧
      isTestFail ((reports [resultSkip 1 1, resultFail 1 1]).status 1) = true ∧
      (valCheckForError 0 2 (reports [resultSkip 1 1, resultFail 1 1])).1 = .skip ∧
      ¬FailDominates 0 2 (reports [resultSkip 1 1, resultFail 1 1]) := by
  refine ⟨by decide, by decide, by decide, fun h => ?_⟩
  have hret := (h (Equiv.refl Nat) (fun _ => Iff.rfl)).fail ⟨1, by decide, by decide⟩
  cases hret.1

end ServerSoc.Infra
