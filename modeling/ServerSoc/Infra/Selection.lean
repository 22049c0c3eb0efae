/-
Which tests run (acs_test_infra.c).

A test is selected in `val_initialize_test`, and a module without selected tests is passed over by
`val_check_skip_module`.  Both count matches and take differences in 32 bits.
-/
import ServerSoc.Base.Fold
import ServerSoc.Infra.MultiHart

namespace ServerSoc.Infra

open Val List

/-- The option lists.  `g_num_skip`, `g_num_tests` and `g_num_modules` are their lengths,
which are 32-bit numbers. -/
structure Options where
  skip : List UInt32
  tests : List UInt32
  modules : List UInt32
  skip_lt : skip.length < 2 ^ 32
  tests_lt : tests.length < 2 ^ 32
  modules_lt : modules.length < 2 ^ 32

structure InitState where
  status : Nat → Nat
  overrideSkip : UInt32
  testsTotal : UInt32

def InitState.setStatus (s : InitState) (i w : Nat) : InitState :=
  { s with status := Function.update s.status i w }

def countFrom (p : UInt32 → Bool) (l : List UInt32) (n : UInt32) : UInt32 :=
  l.foldl (fun n x => if p x then n + 1 else n) n

def valCheckSkipModule (o : Options) (moduleBase : UInt32) : AcsStatus :=
  let skipModule := countFrom (fun m => m == moduleBase) o.modules 0
  let skipModule := countFrom (fun t => t - moduleBase < 100) o.tests skipModule
  if skipModule = 0 ∧ (o.tests.length ≠ 0 ∨ o.modules.length ≠ 0) then .skip else .pass

def valInitializeTest (o : Options) (index numHart : Nat) (testNum : UInt32) (s : InitState) :
    AcsStatus × InitState :=
  let s := { s with overrideSkip := 0 }
  let s := (range numHart).foldl (fun s i => s.setStatus i (resultPending testNum.toNat)) s
  if o.skip.any (fun t => t == testNum) then
    (.skip, s.setStatus index (resultSkip testNum.toNat 0))
  else
    let n := countFrom (fun t => testNum == t) o.tests s.overrideSkip
    let n := countFrom (fun m => testNum - m > 0 ∧ testNum - m < 100) o.modules n
    if n = 0 ∧ (o.tests.length ≠ 0 ∨ o.modules.length ≠ 0) then
      (.skip, { s with overrideSkip := n }.setStatus index (resultSkip testNum.toNat 0))
    else
      (.pass, { s with overrideSkip := 1, testsTotal := s.testsTotal + 1 })

/-! ## What the options select -/

def Covers (m t : UInt32) : Prop := 1 ≤ (t - m).toNat ∧ (t - m).toNat ≤ 99

instance (m t : UInt32) : Decidable (Covers m t) := inferInstanceAs (Decidable (_ ∧ _))

def Selected (o : Options) (t : UInt32) : Prop :=
  t ∉ o.skip ∧ (o.tests = [] ∧ o.modules = [] ∨ t ∈ o.tests ∨ ∃ m ∈ o.modules, Covers m t)

def selecting (o : Options) (t : UInt32) : Nat :=
  o.tests.countP (fun x => x = t) + o.modules.countP fun m => Covers m t

/-- The entries of `-m` and `-t` that keep the module from being passed over. -/
def keeping (o : Options) (b : UInt32) : Nat :=
  o.modules.countP (fun m => m = b) + o.tests.countP fun x => (x - b).toNat < 100

def FiltersAgree (o : Options) (b t : UInt32) : Prop :=
  t ∈ o.skip ∨ selecting o t = 0 ∨
    (selecting o t ≠ 2 ^ 32 ∧ keeping o b ≠ 0 ∧ keeping o b ≠ 2 ^ 32)

theorem countFrom_eq (p : UInt32 → Bool) (l : List UInt32) (n : UInt32) :
    countFrom p l n = n + UInt32.ofNat (l.countP p) := by
  induction l generalizing n with
  | nil => simp [countFrom]
  | cons x l ih =>
    have hcons : countFrom p (x :: l) n = countFrom p l (if p x then n + 1 else n) := rfl
    rw [hcons, ih, countP_cons]
    split_ifs with hx
    · rw [UInt32.ofNat_add, UInt32.add_assoc, UInt32.add_comm 1]
      rfl
    · rw [add_zero]

theorem countFrom_eq_zero {p q : UInt32 → Bool} {l l' : List UInt32} :
    countFrom q l' (countFrom p l 0) = 0 ↔ (l.countP p + l'.countP q) % 2 ^ 32 = 0 := by
  rw [countFrom_eq, countFrom_eq, UInt32.zero_add, ← UInt32.ofNat_add, ← UInt32.toNat_inj]
  rfl

/-! ## The filters -/

section

variable {o : Options} {b t : UInt32}

theorem covers_iff {m : UInt32} : (t - m > 0 ∧ t - m < 100) ↔ Covers m t := by
  rw [Covers]
  show 0 < (t - m).toNat ∧ (t - m).toNat < 100 ↔ _
  omega

theorem countFrom_selecting :
    countFrom (fun m => t - m > 0 ∧ t - m < 100) o.modules
      (countFrom (fun x => t == x) o.tests 0) = 0 ↔ selecting o t % 2 ^ 32 = 0 := by
  have htests : o.tests.countP (fun x => t == x) = o.tests.countP (fun x => x = t) := by
    refine countP_congr fun x _ => ?_
    rw [beq_iff_eq, decide_eq_true_eq, eq_comm]
  have hmodules : o.modules.countP (fun m => decide (t - m > 0 ∧ t - m < 100)) =
      o.modules.countP (fun m => Covers m t) := by
    refine countP_congr fun m _ => ?_
    rw [decide_eq_true_eq, decide_eq_true_eq]
    exact covers_iff
  rw [countFrom_eq_zero, htests, hmodules, selecting]

theorem countFrom_keeping :
    countFrom (fun x => x - b < 100) o.tests (countFrom (fun m => m == b) o.modules 0) = 0 ↔
      keeping o b % 2 ^ 32 = 0 := by
  have hmodules : o.modules.countP (fun m => m == b) = o.modules.countP (fun m => m = b) := by
    refine countP_congr fun m _ => ?_
    simp
  have htests : o.tests.countP (fun x => decide (x - b < 100)) =
      o.tests.countP (fun x => (x - b).toNat < 100) := by
    refine countP_congr fun x _ => ?_
    exact Iff.rfl
  rw [countFrom_eq_zero, htests, hmodules, keeping]

theorem selecting_eq_zero : selecting o t = 0 ↔ t ∉ o.tests ∧ ∀ m ∈ o.modules, ¬ Covers m t := by
  rw [selecting, Nat.add_eq_zero_iff, countP_eq_zero, countP_eq_zero]
  simp only [decide_eq_true_eq]
  constructor
  · rintro ⟨h1, h2⟩
    exact ⟨fun ht => h1 t ht rfl, h2⟩
  · rintro ⟨h1, h2⟩
    exact ⟨fun x hx hxt => h1 (hxt ▸ hx), h2⟩

theorem selecting_lt (o : Options) (t : UInt32) : selecting o t < 2 ^ 33 := by
  have h1 := (countP_le_length (p := fun x => decide (x = t))).trans
    o.tests_lt.le
  have h2 := countP_le_length (l := o.modules) (p := fun m => decide (Covers m t))
  have h3 := o.modules_lt
  rw [selecting]
  omega

theorem keeping_lt (o : Options) (b : UInt32) : keeping o b < 2 ^ 33 := by
  have h1 := (countP_le_length (p := fun m => decide (m = b))).trans
    o.modules_lt.le
  have h2 := countP_le_length (l := o.tests) (p := fun x => decide ((x - b).toNat < 100))
  have h3 := o.tests_lt
  rw [keeping]
  omega

def Given (o : Options) : Prop := o.tests.length ≠ 0 ∨ o.modules.length ≠ 0

instance (o : Options) : Decidable (Given o) := inferInstanceAs (Decidable (_ ∨ _))

theorem given_of_selecting (h : selecting o t ≠ 0) : Given o := by
  by_contra hnot
  simp only [Given, not_or, not_not, length_eq_zero_iff] at hnot
  exact h (by rw [selecting, hnot.1, hnot.2]; rfl)

def Runs (o : Options) (t : UInt32) : Prop := t ∉ o.skip ∧ ¬ (selecting o t % 2 ^ 32 = 0 ∧ Given o)

instance (o : Options) (t : UInt32) : Decidable (Runs o t) := inferInstanceAs (Decidable (_ ∧ _))

theorem setStatus_foldl (w : Nat) (l : List Nat) (s : InitState) :
    l.foldl (fun s i => InitState.setStatus s i w) s =
      { s with status := fun i => if i ∈ l then w else s.status i } := by
  induction l generalizing s with
  | nil => simp
  | cons j l ih =>
    rw [foldl_cons, ih, InitState.setStatus]
    congr 1
    funext i
    by_cases hij : i = j <;> simp [hij]

theorem valInitializeTest_eq (o : Options) (index numHart : Nat) (t : UInt32) (s : InitState) :
    let pending := fun i => if i < numHart then resultPending t.toNat else s.status i
    valInitializeTest o index numHart t s =
      if Runs o t then (.pass, ⟨pending, 1, s.testsTotal + 1⟩)
      else (.skip, ⟨Function.update pending index (resultSkip t.toNat 0), 0, s.testsTotal⟩) := by
  simp only [valInitializeTest, setStatus_foldl, mem_range]
  simp only [InitState.setStatus]
  by_cases hskip : t ∈ o.skip
  · rw [if_pos (by simpa using hskip), if_neg (fun h : Runs o t => h.1 hskip)]
  · rw [if_neg (by simpa using hskip)]
    split
    · rename_i hn
      rw [if_neg (fun h : Runs o t => h.2 ⟨countFrom_selecting.mp hn.1, hn.2⟩), hn.1]
    · rename_i hn
      rw [if_pos (⟨hskip, fun h => hn ⟨countFrom_selecting.mpr h.1, h.2⟩⟩)]

theorem valCheckSkipModule_eq_skip :
    valCheckSkipModule o b = .skip ↔ keeping o b % 2 ^ 32 = 0 ∧ Given o := by
  simp only [valCheckSkipModule, countFrom_keeping]
  split_ifs with h
  · exact ⟨fun _ => h, fun _ => rfl⟩
  · exact ⟨nofun, fun hc => absurd hc h⟩

theorem selected_iff (o : Options) (t : UInt32) :
    Selected o t ↔ t ∉ o.skip ∧ (¬ Given o ∨ selecting o t ≠ 0) := by
  have hnil : (o.tests = [] ∧ o.modules = []) ↔ ¬ Given o := by
    rw [Given, not_or, not_not, not_not, length_eq_zero_iff, length_eq_zero_iff]
  have hsel : selecting o t ≠ 0 ↔ t ∈ o.tests ∨ ∃ m ∈ o.modules, Covers m t := by
    rw [Ne, selecting_eq_zero]
    by_cases ht : t ∈ o.tests <;> simp [ht]
  rw [Selected, hnil, hsel]

/-- A test runs when the options select it, and its module is then not passed over,
exactly when nothing selects the test or the options also name its module. -/
theorem valInitializeTest_selects (o : Options) (index numHart : Nat) (s : InitState)
    (b t : UInt32) : (((valInitializeTest o index numHart t s).1 = .pass ↔ Selected o t) ∧
      ((valInitializeTest o index numHart t s).1 = .pass → valCheckSkipModule o b ≠ .skip)) ↔
    FiltersAgree o b t := by
  have hlt := selecting_lt o t
  have hlt' := keeping_lt o b
  have hpass : (valInitializeTest o index numHart t s).1 = .pass ↔ Runs o t := by
    rw [valInitializeTest_eq]
    split <;> simp [*]
  simp only [hpass, Runs, selected_iff, ne_eq, valCheckSkipModule_eq_skip, FiltersAgree]
  by_cases hmem : t ∈ o.skip
  · simp [hmem]
  · by_cases h0 : selecting o t = 0
    · by_cases hg : Given o <;> simp [h0, hg]
    · have hg := given_of_selecting h0
      simp only [hmem, h0, hg, not_false_eq_true, true_and, and_true, false_or, or_true,
        iff_true]
      omega

/-- The module 801 selects the test 802, and the module 800 of the test is passed over. -/
theorem valCheckSkipModule_odd_base :
    let o : Options := ⟨[], [], [801], by decide, by decide, by decide⟩
    (valInitializeTest o 0 1 802 ⟨fun _ => 0, 0, 0⟩).1 = .pass ∧
      valCheckSkipModule o 800 = .skip := by
  decide

end

end ServerSoc.Infra
