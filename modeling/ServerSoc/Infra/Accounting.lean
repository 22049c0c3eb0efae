/-
The verdict and the counters over a sequence of tests (acs_test_infra.c).

The status words stay in shared memory between tests.  `val_initialize_test` sets the first
`num_hart` words to pending and puts a skip into the word of the main hart, which
`val_check_for_error` reads when `num_hart` is one or the main hart is among the first ones.  All
callers pass one or the number of harts.
-/
import ServerSoc.Infra.Selection
import ServerSoc.Infra.Verdict

namespace ServerSoc.Infra

open Val Function List Nat

/-! ## The model -/

/-- The globals of a run of tests, with `g_bsa_tests_pass` and `g_bsa_tests_fail`. -/
structure RunState extends InitState where
  testsPass : UInt32
  testsFail : UInt32

/-- `numHart` is the argument of the three calls.  `effect` is what the payload and the
harts it is started on do to the status words until they are checked. -/
structure TestCase where
  num : UInt32
  numHart : Nat
  effect : (Nat → Nat) → Nat → Nat

/-- The loop of `val_check_for_error`, which leaves the last word read in `status`. -/
def scanStatus (word : Nat → Nat) : List Nat → Nat → Nat
  | [], status => status
  | i :: is, _ => if isTestFailSkip (word i) then word i else scanStatus word is (word i)

def checkedStatus (myIndex numHart : Nat) (word : Nat → Nat) : Nat :=
  if numHart = 1 then word myIndex else scanStatus word (range numHart) 0

def valCheckForError (myIndex numHart : Nat) (s : RunState) : AcsStatus × RunState :=
  let status := checkedStatus myIndex numHart s.status
  if isTestPass status then (.pass, { s with testsPass := s.testsPass + 1 })
  else if isTestSkip status then (.skip, s)
  else (.fail, { s with testsFail := s.testsFail + 1 })

def runTest (o : Options) (index : Nat) (t : TestCase) (s : RunState) : AcsStatus × RunState :=
  let (status, init) := valInitializeTest o index t.numHart t.num s.toInitState
  let s := { s with toInitState := init }
  let s := if status ≠ .skip then { s with status := t.effect s.status } else s
  valCheckForError index t.numHart s

/-- The tests one after the other.  The number counts the tests that ran and were
checked as skipped. -/
def runTests (o : Options) (index : Nat) : List TestCase → RunState × Nat → RunState × Nat
  | [], p => p
  | t :: ts, p =>
    let r := runTest o index t p.1
    runTests o index ts (r.2, if Runs o t.num ∧ r.1 = .skip then p.2 + 1 else p.2)

/-! ## One test -/

theorem valCheckForError_cases (myIndex numHart : Nat) (s : RunState) :
    valCheckForError myIndex numHart s = (.pass, { s with testsPass := s.testsPass + 1 }) ∨
      valCheckForError myIndex numHart s = (.skip, s) ∨
      valCheckForError myIndex numHart s = (.fail, { s with testsFail := s.testsFail + 1 }) := by
  simp only [valCheckForError]
  split
  · exact .inl rfl
  · split
    · exact .inr (.inl rfl)
    · exact .inr (.inr rfl)

theorem runTest_spec (o : Options) (index : Nat) (t : TestCase) (s : RunState) :
    let pending := fun i => if i < t.numHart then resultPending t.num.toNat else s.status i
    ∃ s1 : RunState, runTest o index t s = valCheckForError index t.numHart s1 ∧
      s1.testsTotal = (if Runs o t.num then s.testsTotal + 1 else s.testsTotal) ∧
      s1.testsPass = s.testsPass ∧ s1.testsFail = s.testsFail ∧
      s1.status = if Runs o t.num then t.effect pending
        else update pending index (resultSkip t.num.toNat 0) := by
  rw [runTest, valInitializeTest_eq]
  split_ifs with h <;> exact ⟨_, rfl, rfl, rfl, rfl, rfl⟩

/-- A pending word is pending whatever bits of the test number reach the state. -/
theorem stateOf_resultPending (n : Nat) : (stateOf (resultPending n)).testBit 1 = true := by
  rw [stateOf, testBit_and, testBit_shiftRight, resultPending, result,
    testBit_mod_two_pow, testBit_or, testBit_or, testBit_shiftLeft]
  simp only [stateBit, TestState.val]
  rw [show testBit 0xF 1 = true by decide, show testBit 0xA (28 + 1 - 28) = true by decide]
  simp

theorem resultPending_quiet (n : Nat) :
    isTestPass (resultPending n) = false ∧ isTestFailSkip (resultPending n) = false := by
  have hbit := stateOf_resultPending n
  simp only [isTestPass, isTestFailSkip, isTestFail, isTestSkip, Bool.or_eq_false_iff,
    decide_eq_false_iff_not]
  refine ⟨fun h => ?_, fun h => ?_, fun h => ?_⟩
  all_goals
    rw [h] at hbit
    exact absurd hbit (by decide)

theorem valCheckForError_pass_iff {myIndex numHart : Nat} {s : RunState} :
    ((valCheckForError myIndex numHart s).1 ≠ .pass ∧
      (valCheckForError myIndex numHart s).2.testsPass = s.testsPass) ↔
    isTestPass (checkedStatus myIndex numHart s.status) = false := by
  simp only [valCheckForError]
  by_cases hp : isTestPass (checkedStatus myIndex numHart s.status) = true
  · simp [hp]
  · by_cases hs : isTestSkip (checkedStatus myIndex numHart s.status) = true <;> simp [hp, hs]

/-- A test on one hart whose payload leaves the word of the main hart alone is no pass,
exactly when the main hart is the first of the table or its word was no pass before. -/
theorem valCheckForError_no_stale_pass_iff (o : Options) (index : Nat) (prior : List TestCase)
    (s0 : RunState × Nat) (t : TestCase) (hone : t.numHart = 1) (hruns : Runs o t.num)
    (hquiet : ∀ word, t.effect word index = word index) :
    ((runTest o index t (runTests o index prior s0).1).1 ≠ .pass ∧
      (runTest o index t (runTests o index prior s0).1).2.testsPass =
        (runTests o index prior s0).1.testsPass) ↔
    index = 0 ∨ isTestPass ((runTests o index prior s0).1.status index) = false := by
  obtain ⟨s1, hrun, -, hpass, -, hstatus⟩ := runTest_spec o index t (runTests o index prior s0).1
  rw [if_pos hruns] at hstatus
  have hword : checkedStatus index t.numHart s1.status =
      if index < 1 then resultPending t.num.toNat
        else (runTests o index prior s0).1.status index := by
    rw [checkedStatus, if_pos hone, hstatus, hquiet, hone]
  rw [hrun, ← hpass, valCheckForError_pass_iff, hword]
  by_cases h0 : index = 0
  · simp [h0, (resultPending_quiet _).1]
  · simp [h0]

def noOptions : Options := ⟨[], [], [], by decide, by decide, by decide⟩

def freshState : RunState × Nat := (⟨⟨fun _ => 0, 0, 0⟩, 0, 0⟩, 0)

def passOn (num : UInt32) (i : Nat) : TestCase :=
  ⟨num, 1, fun word => update word i (resultPass num.toNat 1)⟩

theorem no_stale_pass_first_hart :
    (runTest noOptions 0 (passOn 202 1) (runTests noOptions 0 [passOn 201 0] freshState).1).1 ≠
      .pass :=
  ((valCheckForError_no_stale_pass_iff noOptions 0 [passOn 201 0] freshState (passOn 202 1) rfl
    (by decide) (fun _ => rfl)).mpr (.inl rfl)).1

/-- The main hart is the second of the table and passed test 201.  The payload of test 202
reports its pass for hart 0, as the one of `test_os_i002.c` does. -/
theorem stale_pass_second_hart :
    Runs noOptions 202 ∧ (∀ word, (passOn 202 0).effect word 1 = word 1) ∧
      (runTest noOptions 1 (passOn 202 0) (runTests noOptions 1 [passOn 201 1] freshState).1).1 =
        .pass ∧
      (runTests noOptions 1 [passOn 201 1] freshState).1.testsPass = 1 ∧
      (runTest noOptions 1 (passOn 202 0)
        (runTests noOptions 1 [passOn 201 1] freshState).1).2.testsPass = 2 :=
  ⟨by decide, fun _ => rfl, by decide, by decide, by decide⟩

/-! ## The counters -/

def Balanced (p : RunState × Nat) : Prop :=
  p.1.testsTotal = p.1.testsPass + p.1.testsFail + UInt32.ofNat p.2

def SameCounters (s s' : RunState) : Prop :=
  s'.testsTotal = s.testsTotal ∧ s'.testsPass = s.testsPass ∧ s'.testsFail = s.testsFail

/-- Between any two tests the counters are balanced, and a test that is filtered out
changes none of them. -/
def Accounted (o : Options) (index : Nat) (tests : List TestCase) (p : RunState × Nat) : Prop :=
  ∀ done rest, tests = done ++ rest →
    Balanced (runTests o index done p) ∧
      ∀ t rest', rest = t :: rest' → ¬ Runs o t.num →
        SameCounters (runTests o index done p).1 (runTest o index t (runTests o index done p).1).2

/-- How the suite calls a test: on the main hart alone, or on all harts of the table. -/
def CalledFor (index : Nat) (t : TestCase) : Prop :=
  t.num.toNat < 2 ^ 16 ∧ (t.numHart = 1 ∨ index < t.numHart)

section

variable {o : Options} {index : Nat} {t : TestCase} {word : Nat → Nat} {p : RunState × Nat}
  {s : RunState}

theorem balanced_runTest (h : Balanced p)
    (hsame : ¬ Runs o t.num → SameCounters p.1 (runTest o index t p.1).2) :
    Balanced ((runTest o index t p.1).2,
      if Runs o t.num ∧ (runTest o index t p.1).1 = .skip then p.2 + 1 else p.2) := by
  rw [Balanced] at h ⊢
  by_cases hruns : Runs o t.num
  · obtain ⟨s1, hrun, htotal, hpass, hfail, -⟩ := runTest_spec o index t p.1
    rw [hrun]
    rcases valCheckForError_cases index t.numHart s1 with hc | hc | hc
    · grind
    · simp only [hc, hruns, true_and, if_true, UInt32.ofNat_add]
      grind
    · grind
  · obtain ⟨htotal, hpass, hfail⟩ := hsame hruns
    simp [hruns, htotal, hpass, hfail, h]

theorem scanStatus_found {i : Nat} (hi : isTestFailSkip (word i) = true) {l : List Nat}
    (hmem : i ∈ l) (hl : ∀ j ∈ l, j ≠ i → isTestFailSkip (word j) = false) (status : Nat) :
    scanStatus word l status = word i := by
  induction l generalizing status with
  | nil => cases hmem
  | cons j l ih =>
    rw [scanStatus]
    by_cases hji : j = i
    · rw [hji, if_pos hi]
    · have hmem : i ∈ l := by simpa [Ne.symm hji] using hmem
      rw [hl j mem_cons_self hji, if_neg Bool.false_ne_true]
      exact ih hmem (fun k hk => hl k (mem_cons_of_mem j hk)) _

theorem checkedStatus_filtered (hcall : t.numHart = 1 ∨ index < t.numHart)
    (hskip : isTestSkip (word index) = true)
    (hother : ∀ i < t.numHart, i ≠ index → word i = resultPending t.num.toNat) :
    checkedStatus index t.numHart word = word index := by
  rw [checkedStatus]
  split_ifs with hone
  · rfl
  · refine scanStatus_found ?_ (mem_range.mpr (hcall.resolve_left hone)) (fun i hi hne => ?_) 0
    · rw [isTestFailSkip, hskip, Bool.or_true]
    · rw [hother i (mem_range.mp hi) hne, (resultPending_quiet _).2]

theorem sameCounters_filtered (hcall : CalledFor index t) (h : ¬ Runs o t.num) :
    SameCounters s (runTest o index t s).2 := by
  obtain ⟨s1, hrun, htotal, hpass, hfail, hstatus⟩ := runTest_spec o index t s
  rw [if_neg h] at htotal hstatus
  have hindex : stateOf (s1.status index) = TestState.skip.val := by
    rw [hstatus, update_self]
    exact stateOf_result .skip hcall.1 (by decide)
  have hskip : isTestSkip (s1.status index) = true := decide_eq_true hindex
  have hword := checkedStatus_filtered hcall.2 hskip fun i hi hne => by simp [hstatus, hi, hne]
  rw [hrun, valCheckForError, hword, isTestPass, hindex, hskip]
  exact ⟨htotal, hpass, hfail⟩

theorem balanced_runTests {tests : List TestCase} (h : Balanced p)
    (hcalls : ∀ t ∈ tests, CalledFor index t) : Balanced (runTests o index tests p) := by
  induction tests generalizing p with
  | nil => exact h
  | cons t tests ih =>
    refine ih (balanced_runTest h ?_) fun u hu => hcalls u (mem_cons_of_mem t hu)
    exact sameCounters_filtered (hcalls t mem_cons_self)

end

/-- From zeroed counters, every sequence of tests is accounted for. -/
theorem tests_accounted (o : Options) (index : Nat) (tests : List TestCase)
    (status : Nat → Nat) (overrideSkip : UInt32) (hcalls : ∀ t ∈ tests, CalledFor index t) :
    Accounted o index tests (⟨⟨status, overrideSkip, 0⟩, 0, 0⟩, 0) := by
  rintro done rest rfl
  refine ⟨balanced_runTests rfl (fun t ht => hcalls t (mem_append_left rest ht)), ?_⟩
  rintro t rest' rfl hno
  exact sameCounters_filtered (hcalls t (by simp)) hno

def skip201 : Options := ⟨[201], [], [], by decide, by decide, by decide⟩

/-- A filtered test, a pass, a failure on the third of four harts and a skip. -/
def fourTests : List TestCase :=
  [⟨201, 4, id⟩, passOn 202 1, ⟨203, 4, fun word => update word 2 (resultFail 203 1)⟩,
    ⟨204, 1, fun word => update word 1 (resultSkip 204 1)⟩]

theorem tests_accounted_four : Accounted skip201 1 fourTests freshState ∧
    (runTests skip201 1 fourTests freshState).1.testsTotal = 3 :=
  ⟨tests_accounted skip201 1 fourTests _ 0 (by unfold CalledFor; decide), by decide⟩

end ServerSoc.Infra
