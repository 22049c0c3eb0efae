/-
When the verdict on a test over several harts can be trusted.

`val_check_for_error` looks at no test number and passes over a pending status, and the wait marks
one hart when it times out.  `Orderly` rules the three ways out, and
`valCheckForError_no_false_pass` says that nothing else goes wrong in any interleaving.
-/
import ServerSoc.Infra.MultiHart

namespace ServerSoc.Infra

open Base Val Function Nat Bool

/-! ## Words -/

theorem stateOf_word (r : Report) (m : TestNum) (c : Checkpoint) :
    stateOf (r.word m c) = r.state.val := by
  have hm : (m : Nat) < 2 ^ 16 := m.isLt.trans (by decide)
  have hc : (c : Nat) < 2 ^ 28 := c.isLt.trans (by decide)
  cases r with
  | pass => exact stateOf_result .pass hm hc
  | fail => exact stateOf_result .fail hm hc
  | skip => exact stateOf_result .skip hm hc
  | pending => exact stateOf_result .pending hm (by decide)

variable {c : Checkpoint} {m : TestNum} {r : Report} {w : Nat}

theorem isResultPending_word : isResultPending (r.word m c) = true ↔ r = .pending := by
  rw [isResultPending, stateOf_word]
  cases r <;> decide

theorem isTestPass_word : isTestPass (r.word m c) = true ↔ r = .pass := by
  rw [isTestPass, stateOf_word]
  cases r <;> decide

def Known (w : Nat) : Prop :=
  isTestPass w = true ∨ isTestFailSkip w = true ∨ isResultPending w = true

theorem known_word (r : Report) (m : TestNum) (c : Checkpoint) : Known (r.word m c) := by
  rw [Known, isTestPass, isTestFailSkip, isTestFail, isTestSkip, isResultPending, stateOf_word]
  cases r <;> decide

theorem isTestFailSkip_resultFail {m c : Nat} (hm : m < 2 ^ 16) (hc : c < 2 ^ 28) :
    isTestFailSkip (resultFail m c) = true := by
  rw [isTestFailSkip, isTestFail, resultFail, stateOf_result .fail hm hc]
  rfl

theorem only_isTestFailSkip (h : isTestFailSkip w = true) :
    isTestPass w = false ∧ isResultPending w = false := by
  simp only [isTestFailSkip, isTestFail, isTestSkip, isTestPass, isResultPending, or_eq_true,
    decide_eq_true_eq] at h ⊢
  rcases h with h | h
  · rw [h]
    decide
  · rw [h]
    decide

theorem verdict_eq_pass : verdict w = .pass ↔ isTestPass w = true := by
  rw [verdict]
  by_cases hp : isTestPass w = true
  · simp [hp]
  · by_cases hs : isTestSkip w = true <;> simp [hs]

/-! ## Orderly runs -/

/-- The status of hart `i` counts: it was set to pending for this test, and the verdict
is not out yet. -/
def Main.counts (i : Nat) : Main → Bool
  | .init j => i < j
  | .done _ => false
  | _ => true

def Watched (s : State) (i : Nat) : Prop := s.main.counts i = true

instance (s : State) (i : Nat) : Decidable (Watched s i) :=
  inferInstanceAs (Decidable (s.main.counts i = true))

def Settled (numHart : Nat) (s : State) : Prop :=
  ∀ j < numHart, isResultPending (s.status j) = false

instance (numHart : Nat) (s : State) : Decidable (Settled numHart s) :=
  inferInstanceAs (Decidable (∀ j < numHart, isResultPending (s.status j) = false))

def Main.unchecked : Main → Bool
  | .check i _ => i = 0
  | _ => false

def Recovered (numHart : Nat) (s : State) : Prop := s.main.unchecked = true ∧ Settled numHart s

instance (numHart : Nat) (s : State) : Decidable (Recovered numHart s) :=
  inferInstanceAs (Decidable (s.main.unchecked = true ∧ Settled numHart s))

def MayReport (numHart : Nat) (testNum : TestNum) (s : State) (i : Nat) : Report → Prop
  | .pass => s.hart i = .running testNum ∧ (s.givenUp = some i → Recovered numHart s)
  | .pending => isResultPending (s.status i) = true
  | .fail => True
  | .skip => True

instance (numHart : Nat) (testNum : TestNum) (s : State) (i : Nat) (r : Report) :
    Decidable (MayReport numHart testNum s i r) :=
  match r with
  | .pass => inferInstanceAs (Decidable (_ ∧ (_ → _)))
  | .pending => inferInstanceAs (Decidable (_ = true))
  | .fail => inferInstanceAs (Decidable True)
  | .skip => inferInstanceAs (Decidable True)

/-- No hart of the test reports a pass for another test, nor a pass after the wait gave
up on it, nor sets a status back to pending. -/
def Orderly (numHart : Nat) (testNum : TestNum) (s : State) : Action → Prop
  | .report i r _ => i < numHart → Watched s i → MayReport numHart testNum s i r
  | _ => True

instance (numHart : Nat) (testNum : TestNum) (s : State) (a : Action) :
    Decidable (Orderly numHart testNum s a) :=
  match a with
  | .report i r _ =>
    inferInstanceAs (Decidable (i < numHart → Watched s i → MayReport numHart testNum s i r))
  | .main | .payloadReport _ _ | .payloadReturn | .psci _ | .boot _ | .stop _ =>
    inferInstanceAs (Decidable True)

structure Start (myIndex : Nat) (s : State) : Prop where
  main : s.main = .init 0
  givenUp : s.givenUp = none
  hart : s.hart myIndex = .off

def NoFalsePass (numHart : Nat) (s : State) : Prop :=
  s.main = .done .pass → ∀ i < numHart, s.reported i = true

/-! ## The invariant -/

/-- The check has read the statuses below `i` and found no failure: all harts there
passed and nothing is pending, or the hart the wait gave up on is still to be read. -/
def Checking (numHart : Nat) (s : State) (i : Nat) : Prop :=
  (Settled numHart s ∧ ∀ j < i, j < numHart → s.reported j = true) ∨
    ∃ k, s.givenUp = some k ∧ i ≤ k ∧ k < numHart ∧ isTestFailSkip (s.status k) = true

def Progress (numHart : Nat) (s : State) : Prop :=
  match s.main with
  | .wait timeout j => 0 < timeout ∧ (timeout = 1 → 0 < j) ∧ j ≤ numHart
  | .scan timeout i j => 0 < timeout ∧ j ≤ i ∧ i ≤ numHart ∧
      ∀ i', j ≤ i' → i' < i → isResultPending (s.status i') = false
  | .check i _ => Checking numHart s i
  | .done ret => ret = .pass → ∀ i < numHart, s.reported i = true
  | _ => True

structure Inv (numHart : Nat) (s : State) : Prop where
  status : ∀ i < numHart, Watched s i →
    Known (s.status i) ∧ (isTestPass (s.status i) = true → s.reported i = true)
  progress : Progress numHart s

section

variable {numHart myIndex i j : Nat} {testNum : TestNum} {s s' : State} {pc : Main}

theorem Inv.move (h : Inv numHart s) (hw : ∀ i, Watched s i)
    (hp : Progress numHart { s with main := pc }) : Inv numHart { s with main := pc } :=
  ⟨fun i hi _ => h.status i hi (hw i), hp⟩

theorem Inv.fail (h : Inv numHart s) {g : Option Nat} (k : Nat) (hfail : isTestFailSkip w = true)
    (hw : ∀ i, Watched s i) (hp : Progress numHart { s with
      main := pc, status := update s.status k w, givenUp := g }) :
    Inv numHart { s with main := pc, status := update s.status k w, givenUp := g } := by
  refine ⟨fun i hi _ => ?_, hp⟩
  show Known (update s.status k w i) ∧
    (isTestPass (update s.status k w i) = true → s.reported i = true)
  by_cases hik : i = k
  · rw [hik, update_self, (only_isTestFailSkip hfail).1]
    exact ⟨.inr (.inl hfail), fun hf => absurd hf false_ne_true⟩
  · rw [update_of_ne hik]
    exact h.status i hi (hw i)

theorem inv_mainStep (hn : numHart ≠ 1) (h : Inv numHart s)
    (hs : mainStep numHart myIndex testNum s = some s') : Inv numHart s' := by
  have hprog := h.progress
  rw [mainStep] at hs
  cases hm : s.main with
  | init i =>
    have hwatch : ∀ j, Watched s j ↔ j < i := fun j => by rw [Watched, hm]; exact decide_eq_true_iff
    rw [hm] at hs
    simp only at hs
    split_ifs at hs with hi
    · cases hs
      refine ⟨fun j hj hw => ?_, trivial⟩
      show Known (update s.status i (Report.pending.word testNum 0) j) ∧
        (isTestPass (update s.status i (Report.pending.word testNum 0) j) = true →
          update s.reported i false j = true)
      by_cases hji : j = i
      · rw [hji, update_self, isTestPass_word]
        exact ⟨known_word .pending testNum 0, nofun⟩
      · rw [update_of_ne hji, update_of_ne hji]
        exact h.status j hj ((hwatch j).mpr (by have hw : j < i + 1 := of_decide_eq_true hw; omega))
    · cases hs
      exact ⟨fun j hj _ => h.status j hj ((hwatch j).mpr (by omega)), trivial⟩
  | exec i =>
    have hwatch : ∀ j, Watched s j := fun j => by rw [Watched, hm]; rfl
    rw [hm] at hs
    simp only at hs
    split at hs
    · split at hs <;> cases hs <;> exact h.move hwatch trivial
    · cases hs
      refine h.move hwatch ⟨by decide, ?_, Nat.zero_le _⟩
      intro h1
      exact absurd h1 (by decide)
  | setData i timeout =>
    have hwatch : ∀ j, Watched s j := fun j => by rw [Watched, hm]; rfl
    rw [hm] at hs
    cases hs
    exact ⟨fun j hj _ => h.status j hj (hwatch j), trivial⟩
  | wait timeout j =>
    have hwatch : ∀ j, Watched s j := fun j => by rw [Watched, hm]; rfl
    rw [Progress, hm] at hprog
    obtain ⟨hpos, hlast, hj⟩ := hprog
    rw [hm] at hs
    simp only at hs
    split_ifs at hs with ht
    · cases hs
      have hfail : isTestFailSkip (resultFail testNum 0xF) = true :=
        isTestFailSkip_resultFail (testNum.isLt.trans (by decide)) (by decide)
      refine h.fail (j - 1) hfail hwatch (.inr ⟨j - 1, rfl, Nat.zero_le _, by omega, ?_⟩)
      show isTestFailSkip (update s.status (j - 1) (resultFail testNum 0xF) (j - 1)) = true
      rw [update_self]
      exact hfail
    · cases hs
      exact h.move hwatch ⟨by omega, Nat.le_refl 0, Nat.zero_le _,
        fun i' _ hi' => absurd hi' (Nat.not_lt_zero i')⟩
  | scan timeout i j =>
    have hwatch : ∀ j, Watched s j := fun j => by rw [Watched, hm]; rfl
    rw [Progress, hm] at hprog
    obtain ⟨hpos, hji, hi, hquiet⟩ := hprog
    rw [hm] at hs
    simp only at hs
    split at hs
    · rename_i hlt
      cases hs
      split_ifs with hpend
      · refine h.move hwatch ⟨hpos, le_rfl, hlt, fun i' h1 h2 => ?_⟩
        exact absurd h2 (not_lt.mpr h1)
      · refine h.move hwatch ⟨hpos, le_succ_of_le hji, hlt, fun i' h1 h2 => ?_⟩
        rcases Nat.lt_or_eq_of_le (le_of_lt_succ h2) with h2 | rfl
        · exact hquiet i' h1 h2
        · simpa using hpend
    · split_ifs at hs with hj0
      · cases hs
        -- a scan without a pending status
        refine h.move hwatch (.inl ⟨fun k hk => ?_, fun k hk => absurd hk (Nat.not_lt_zero k)⟩)
        exact hquiet k (by omega) (by omega)
      · cases hs
        exact h.move hwatch ⟨hpos, fun _ => Nat.pos_of_ne_zero hj0, by omega⟩
  | check i status =>
    have hwatch : ∀ j, Watched s j := fun j => by rw [Watched, hm]; rfl
    rw [Progress, hm] at hprog
    rw [hm] at hs
    simp only [if_neg hn] at hs
    split_ifs at hs with hlt hfail
    · cases hs
      refine h.move hwatch fun hret => ?_
      rw [verdict_eq_pass, (only_isTestFailSkip hfail).1] at hret
      cases hret
    · cases hs
      refine h.move hwatch ?_
      rcases hprog with ⟨hsettled, hrep⟩ | ⟨k, hg, hik, hk, hkfail⟩
      · -- neither pending nor a failure, so a pass of the hart's own payload
        refine .inl ⟨hsettled, fun j hj hjn => ?_⟩
        rcases Nat.lt_or_eq_of_le (le_of_lt_succ hj) with hj | rfl
        · exact hrep j hj hjn
        · obtain ⟨hp | hf | hp, hpassed⟩ := h.status j hjn (hwatch j)
          · exact hpassed hp
          · exact absurd hf hfail
          · rw [hsettled j hjn] at hp
            cases hp
      · have hne : i ≠ k := by
          intro hik'
          rw [hik'] at hfail
          exact hfail hkfail
        exact .inr ⟨k, hg, by omega, hk, hkfail⟩
    · cases hs
      refine h.move hwatch fun _ j hj => ?_
      rcases hprog with ⟨-, hrep⟩ | ⟨k, -, hik, hk, -⟩
      · exact hrep j (by omega) hj
      · omega
  | payload | smc i timeout | done ret =>
    rw [hm] at hs
    cases hs

/-- A pass that is reported while the status counts comes from this test's payload. -/
theorem Inv.writeReport (h : Inv numHart s)
    (hpass : i < numHart → Watched s i → r = .pass → m = testNum)
    (hp : Progress numHart (writeReport testNum s i m r c)) :
    Inv numHart (writeReport testNum s i m r c) := by
  refine ⟨fun j hj hw => ?_, hp⟩
  show Known (update s.status i (r.word m c) j) ∧
    (isTestPass (update s.status i (r.word m c) j) = true →
      update s.reported i (s.reported i || decide (m = testNum ∧ r = .pass)) j = true)
  by_cases hji : j = i
  · rw [hji, update_self, isTestPass_word]
    rw [hji] at hj hw
    exact ⟨known_word r m c, fun hr => by simp [hpass hj hw hr, hr]⟩
  · rw [update_of_ne hji, update_of_ne hji]
    exact h.status j hj hw

theorem reported_writeReport (m : TestNum) (r : Report) (c : Checkpoint) (h : s.reported j = true) :
    (writeReport testNum s i m r c).reported j = true := by
  show update s.reported i _ j = true
  by_cases hji : j = i
  · rw [hji] at h
    rw [hji, update_self, h, Bool.true_or]
  · rwa [update_of_ne hji]

theorem settled_writeReport (m : TestNum) (c : Checkpoint)
    (hpend : i = j → r = .pending → isResultPending (s.status i) = true)
    (h : isResultPending (s.status j) = false) :
    isResultPending (update s.status i (r.word m c) j) = false := by
  by_cases hji : j = i
  · rw [hji, update_self, eq_false_iff, ne_eq, isResultPending_word]
    intro hr
    have hold := hpend hji.symm hr
    rw [← hji, h] at hold
    cases hold
  · rwa [update_of_ne hji]

theorem checking_writeReport (hprog : ∀ i st, s.main = .check i st → Checking numHart s i)
    {i0 st : Nat} (hm : s.main = .check i0 st)
    (hmay : i < numHart → MayReport numHart testNum s i r) :
    Checking numHart (writeReport testNum s i m r c) i0 := by
  have hkeep : Settled numHart s → Settled numHart (writeReport testNum s i m r c) := by
    intro hs j hj
    refine settled_writeReport m c (fun hij hr => ?_) (hs j hj)
    have hmay := hmay (hij ▸ hj)
    rwa [hr] at hmay
  rcases hprog i0 st hm with ⟨hsettled, hrep⟩ | ⟨k, hg, hik, hk, hfail⟩
  · exact .inl ⟨hkeep hsettled, fun j hj hjn => reported_writeReport m r c (hrep j hj hjn)⟩
  · by_cases hki : k = i
    · rw [hki] at hg hk
      cases r with
      | pass =>
        obtain ⟨hunread, hsettled⟩ := (hmay hk).2 hg
        rw [hm] at hunread
        refine .inl ⟨hkeep hsettled, fun j hj => ?_⟩
        rw [of_decide_eq_true hunread] at hj
        exact absurd hj (not_lt_zero j)
      | pending =>
        have hold : isResultPending (s.status i) = true := hmay hk
        rw [← hki, (only_isTestFailSkip hfail).2] at hold
        cases hold
      | fail | skip =>
        refine .inr ⟨i, hg, hki ▸ hik, hk, ?_⟩
        show isTestFailSkip (update s.status i _ i) = true
        rw [update_self, isTestFailSkip, isTestFail, isTestSkip, stateOf_word]
        rfl
    · refine .inr ⟨k, hg, hik, hk, ?_⟩
      show isTestFailSkip (update s.status i _ k) = true
      rwa [update_of_ne hki]

theorem inv_report (h : Inv numHart s) (hrun : s.hart i = .running m)
    (hok : i < numHart → Watched s i → MayReport numHart testNum s i r) :
    Inv numHart (writeReport testNum s i m r c) := by
  have hprog := h.progress
  refine h.writeReport (fun hi hw hr => ?_) ?_
  · have hmay := hok hi hw
    rw [hr] at hmay
    have hsame := hmay.1
    rw [hrun, HartState.running.injEq] at hsame
    exact hsame
  · show Progress numHart { (writeReport testNum s i m r c) with main := s.main }
    cases hm : s.main with
    | wait timeout j =>
      rw [Progress, hm] at hprog
      exact hprog
    | scan timeout i0 j =>
      rw [Progress, hm] at hprog
      obtain ⟨hpos, hji, hi0, hquiet⟩ := hprog
      refine ⟨hpos, hji, hi0, fun i' h1 h2 => ?_⟩
      refine settled_writeReport m c (fun hij hr => ?_) (hquiet i' h1 h2)
      have hmay := hok (hij ▸ h2.trans_le hi0) (by rw [Watched, hm]; rfl)
      rwa [hr] at hmay
    | check i0 st =>
      refine checking_writeReport (fun i1 st1 hm1 => ?_) hm
        (fun hi => hok hi (by rw [Watched, hm]; rfl))
      rw [Progress, hm1] at hprog
      exact hprog
    | done ret =>
      rw [Progress, hm] at hprog
      exact fun hret j hj => reported_writeReport m r c (hprog hret j hj)
    | _ => trivial

theorem inv_psciStep (h : Inv numHart s) {ret : PsciRet} (hs : psciStep s ret = some s') :
    Inv numHart s' := by
  rw [psciStep] at hs
  cases hm : s.main with
  | smc i timeout =>
    have hwatch : ∀ j, Watched s j := fun j => by rw [Watched, hm]; rfl
    have hfail : Inv numHart (failStart s i ret) := by
      refine h.fail i ?_ hwatch trivial
      cases ret <;> decide
    rw [hm] at hs
    cases ret with
    | success =>
      simp only at hs
      split at hs
      · cases hs
        exact ⟨fun j hj _ => h.status j hj (hwatch j), trivial⟩
      · cases hs
    | alreadyOn =>
      simp only at hs
      split at hs
      · cases hs
        exact h.move hwatch trivial
      · cases hs
        exact hfail
    | _ =>
      cases hs
      exact hfail
  | _ =>
    rw [hm] at hs
    cases hs

theorem inv_step (hn : 1 < numHart) {a : Action} (h : Inv numHart s)
    (hok : Orderly numHart testNum s a) (hs : step numHart myIndex testNum s a = some s') :
    Inv numHart s' := by
  have hn' := ne_of_gt hn
  cases a with
  | main => exact inv_mainStep hn' h hs
  | payloadReport r c =>
    rw [step] at hs
    split at hs
    · rename_i hm
      cases hs
      refine h.writeReport (fun _ _ _ => rfl) ?_
      show Progress numHart { (writeReport testNum s myIndex testNum r c) with main := s.main }
      rw [hm]
      trivial
    · cases hs
  | payloadReturn =>
    rw [step] at hs
    split at hs
    · rename_i hm
      rw [if_neg hn'] at hs
      cases hs
      exact h.move (fun j => by rw [Watched, hm]; rfl) trivial
    · cases hs
  | psci ret => exact inv_psciStep h hs
  | boot i | stop i =>
    rw [step] at hs
    split at hs
    · cases hs
      exact ⟨h.status, h.progress⟩
    · cases hs
  | report i r c =>
    rw [step] at hs
    split at hs
    · rename_i m hrun
      cases hs
      exact inv_report h hrun hok
    · cases hs

theorem Start.inv (h : Start myIndex s) : Inv numHart s := by
  have hwatch : ∀ i, ¬ Watched s i := fun i => by
    rw [Watched, h.main]
    exact fun hlt => not_lt_zero i (of_decide_eq_true hlt)
  refine ⟨fun i _ hw => absurd hw (hwatch i), ?_⟩
  rw [Progress, h.main]
  trivial

end

/-- In an orderly run over more than one hart, the check returns a pass only when the
payload of every hart reported a pass for this test. -/
theorem valCheckForError_no_false_pass {numHart myIndex : Nat} {testNum : TestNum} {s0 s : State}
    (hn : 1 < numHart) (hstart : Start myIndex s0)
    (hrun : Reaches (step numHart myIndex testNum) (Orderly numHart testNum) s0 s) :
    NoFalsePass numHart s := by
  have hinv : Inv numHart s :=
    hrun.invariant hstart.inv fun _ _ _ h hok hs => inv_step hn h hok hs
  intro hdone
  have hprog := hinv.progress
  rw [Progress, hdone] at hprog
  exact hprog rfl

/-! ## Two harts -/

def twoHarts (hart : HartState) : State where
  main := .init 0
  status := fun _ => 0
  data := fun _ => 0
  hart := fun i => if i = 1 then hart else .off
  reported := fun _ => false
  givenUp := none

theorem start_twoHarts (hart : HartState) : Start 0 (twoHarts hart) := ⟨rfl, rfl, rfl⟩

def promptRun : List Action :=
  [.main, .main, .main, .payloadReport .pass 1, .payloadReturn, .main, .main, .main,
    .psci .success, .boot 1, .report 1 .pass 1, .main, .main, .main, .main, .main, .main, .main,
    .main]

theorem valCheckForError_promptRun :
    ∃ s, Reaches (step 2 0 2) (Orderly 2 2) (twoHarts .off) s ∧ s.main = .done .pass ∧
      ∀ i < 2, s.reported i = true := by
  have hend : (runList (step 2 0 2) (Orderly 2 2) (twoHarts .off) promptRun).map State.main =
      some (.done .pass) := by
    decide
  obtain ⟨s, hs, hdone⟩ := Option.map_eq_some_iff.mp hend
  have hrun := reaches_of_runList hs
  exact ⟨s, hrun, hdone,
    valCheckForError_no_false_pass (by decide) (start_twoHarts .off) hrun hdone⟩

/-- Hart 1 is busy with test 1, reports its pass after the statuses were set to pending,
switches off, and is started for test 2, of which it reports nothing. -/
def staleRun : List Action :=
  [.main, .main, .report 1 .pass 1, .stop 1, .main, .payloadReport .pass 1, .payloadReturn, .main,
    .main, .main, .psci .success, .boot 1, .main, .main, .main, .main, .main, .main, .main, .main]

theorem valCheckForError_staleRun :
    ∃ s, Reaches (step 2 0 2) (fun _ _ => True) (twoHarts (.running 1)) s ∧
      ¬ NoFalsePass 2 s := by
  have hend : (runList (step 2 0 2) (fun _ _ => True) (twoHarts (.running 1)) staleRun).map
      (fun s => (s.main, s.reported 1)) = some (.done .pass, false) := by
    decide
  obtain ⟨s, hs, hdone⟩ := Option.map_eq_some_iff.mp hend
  rw [Prod.mk.injEq] at hdone
  refine ⟨s, reaches_of_runList hs, fun h => ?_⟩
  have hrep := h hdone.1 1 (by decide)
  rw [hdone.2] at hrep
  cases hrep

end ServerSoc.Infra
