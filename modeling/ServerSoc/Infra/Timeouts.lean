/-
What the wait for the other harts leaves behind (acs_test_infra.c).

`val_wait_for_test_completion` marks only the last hart that was pending in its last scan when the
time is up, so that one silent hart is recorded and two are not.  `Prompt` names the hart that may
stay silent and says what has to go right besides, and `valRunTestPayload_timeouts_recorded` that
nothing else is needed in any interleaving.
-/
import ServerSoc.Infra.Verdict

namespace ServerSoc.Infra

open Base Val Function

/-- A state, and which harts have reported for this test since their status was set to
pending. -/
structure Watch where
  state : State
  answered : Nat → Bool

section

variable (numHart myIndex : Nat) (testNum : TestNum)

def answeredAfter (w : Watch) : Action → Nat → Bool
  | .main =>
    match w.state.main with
    | .init i => if i < numHart then update w.answered i false else w.answered
    | _ => w.answered
  | .payloadReport _ _ => update w.answered myIndex true
  | .report i _ _ =>
    if w.state.hart i = .running testNum then update w.answered i true else w.answered
  | _ => w.answered

def watchStep (w : Watch) (a : Action) : Option Watch :=
  (step numHart myIndex testNum w.state a).map fun s =>
    ⟨s, answeredAfter numHart myIndex testNum w a⟩

/-- The status of hart `i` was set to pending and `val_run_test_payload` has not returned. -/
def Main.awaits (i : Nat) : Main → Bool
  | .init j => i < j
  | .check _ _ => false
  | .done _ => false
  | _ => true

/-- The next step of the main hart begins the last scan. -/
def Main.beforeLast : Main → Bool
  | .wait timeout _ => timeout = 2
  | _ => false

def Main.lastTry : Main → Bool
  | .smc _ timeout => timeout = 0
  | _ => false

/-- No hart reports for another test or goes back to pending, every hart can be started, and
when the last scan begins all harts but `silent` have reported. -/
def Prompt (silent : Nat) (w : Watch) : Action → Prop
  | .main => w.state.main.beforeLast = true →
      ∀ i < numHart, i ≠ silent → isResultPending (w.state.status i) = false
  | .report i r _ => i < numHart → w.state.main.awaits i = true →
      w.state.hart i = .running testNum ∧
        (r = .pending → isResultPending (w.state.status i) = true)
  | .psci ret => ret = .success ∨ (ret = .alreadyOn ∧ w.state.main.lastTry = false)
  | _ => True

instance (silent : Nat) (w : Watch) (a : Action) : Decidable (Prompt numHart testNum silent w a) :=
  match a with
  | .main => inferInstanceAs (Decidable (w.state.main.beforeLast = true →
      ∀ i < numHart, i ≠ silent → isResultPending (w.state.status i) = false))
  | .report i r _ => inferInstanceAs (Decidable (i < numHart → w.state.main.awaits i = true →
      w.state.hart i = .running testNum ∧
        (r = .pending → isResultPending (w.state.status i) = true)))
  | .psci _ => inferInstanceAs (Decidable (_ ∨ _))
  | .payloadReport _ _ | .payloadReturn | .boot _ | .stop _ => inferInstanceAs (Decidable True)

def Returns (w w' : Watch) : Prop :=
  (∃ timeout j, w.state.main = .wait timeout j ∨ ∃ i, w.state.main = .scan timeout i j) ∧
    w'.state.main = .check 0 0

def Recorded (w' : Watch) : Prop :=
  ∀ i < numHart, isResultPending (w'.state.status i) = false ∧
    (w'.answered i = false → ∃ c, w'.state.status i = resultFail testNum c)

/-- A silent hart is pending, and a scan without a finding has passed settled harts only. -/
structure Waiting (w : Watch) : Prop where
  pending : ∀ i < numHart, w.state.main.awaits i = true → w.answered i = false →
    w.state.status i = resultPending testNum
  scanned : ∀ timeout i, w.state.main = .scan timeout i 0 →
    ∀ k < i, k < numHart → isResultPending (w.state.status k) = false

/-- In the last scan and behind it: the next hart of the scan and its finding. -/
def Main.lastScan : Main → Option (Nat × Nat)
  | .scan timeout i j => if timeout ≤ 1 then some (i, j) else none
  | .wait timeout j => if timeout ≤ 1 then some (numHart, j) else none
  | _ => none

/-- All harts but one are settled then, and that one is the finding if the scan saw it pending. -/
def OneSilent (silent : Nat) (s : State) : Prop :=
  ∀ i j, s.main.lastScan numHart = some (i, j) →
    (∀ k < numHart, k ≠ silent → isResultPending (s.status k) = false) ∧
      (silent < numHart → silent < i → isResultPending (s.status silent) = true → j = silent + 1)

end

section

variable {numHart myIndex silent : Nat} {testNum : TestNum} {w w' : Watch}

theorem isResultPending_resultPending : isResultPending (resultPending testNum) = true := by
  show isResultPending (Report.pending.word testNum 0) = true
  rw [isResultPending_word]

section

variable (h : Waiting numHart testNum w)
include h

/-- A step that keeps the statuses and the answers, and does not come from or go to a
loop over the statuses, keeps the invariant. -/
theorem Waiting.move {s : State} (hstatus : s.status = w.state.status)
    (haw : ∀ i < numHart, s.main.awaits i = true → w.state.main.awaits i = true)
    (hscan : ∀ timeout i, s.main = .scan timeout i 0 → i = 0) :
    Waiting numHart testNum ⟨s, w.answered⟩ where
  pending := by
    intro i hi hw ha
    rw [hstatus]
    exact h.pending i hi (haw i hi hw) ha
  scanned := by
    intro timeout i hm k hk
    rw [hscan timeout i hm] at hk
    exact absurd hk (Nat.not_lt_zero k)

theorem Waiting.answered_of_settled {i : Nat} (hi : i < numHart)
    (haw : w.state.main.awaits i = true) (hp : isResultPending (w.state.status i) = false) :
    w.answered i ≠ false := by
  intro ha
  rw [h.pending i hi haw ha, isResultPending_resultPending] at hp
  cases hp

variable {s' : State}

theorem waiting_mainStep (hs : mainStep numHart myIndex testNum w.state = some s') :
    Waiting numHart testNum ⟨s', answeredAfter numHart myIndex testNum w .main⟩ := by
  rw [mainStep] at hs
  rw [answeredAfter]
  cases hm : w.state.main with
  | init i =>
    rw [hm] at hs
    simp only at hs ⊢
    split_ifs at hs ⊢ with hi
    · cases hs
      refine ⟨?_, fun timeout k hk => by cases hk⟩
      intro k hk haw ha
      have hki : k < i + 1 := of_decide_eq_true haw
      show update w.state.status i (resultPending testNum) k = resultPending testNum
      by_cases hne : k = i
      · rw [hne, update_self]
      · rw [update_of_ne hne]
        apply h.pending k hk
        · rw [hm]
          exact decide_eq_true (by omega)
        · simpa [update_of_ne hne] using ha
    · cases hs
      refine h.move rfl (fun k hk _ => ?_) fun timeout k hk => by cases hk
      rw [hm]
      exact decide_eq_true (by omega)
  | exec i =>
    rw [hm] at hs
    simp only at hs
    have hmove : ∀ pc : Main, (∀ timeout k, pc ≠ .scan timeout k 0) →
        Waiting numHart testNum ⟨{ w.state with main := pc }, w.answered⟩ := by
      intro pc hpc
      exact h.move rfl (fun k _ _ => by rw [hm]; rfl) fun timeout k hk => absurd hk (hpc timeout k)
    split_ifs at hs <;> cases hs <;> exact hmove _ (by simp)
  | setData i timeout =>
    rw [hm] at hs
    cases hs
    exact h.move rfl (fun k _ _ => by rw [hm]; rfl) fun timeout k hk => by cases hk
  | wait timeout j =>
    rw [hm] at hs
    simp only at hs
    split at hs
    · cases hs
      exact ⟨fun k _ haw => (by cases haw), fun timeout k hk => (by cases hk)⟩
    · cases hs
      exact h.move rfl (fun k _ _ => by rw [hm]; rfl) fun timeout k hk => by cases hk; rfl
  | scan timeout i j =>
    rw [hm] at hs
    simp only at hs
    split at hs
    · cases hs
      refine ⟨fun k hk haw ha => h.pending k hk (by rw [hm]; rfl) ha, ?_⟩
      -- the scan goes on without a finding: this status is settled, and there was none before
      intro t i' hmain k hk hkn
      simp only [Main.scan.injEq] at hmain
      obtain ⟨-, rfl, hj⟩ := hmain
      by_cases hp : isResultPending (w.state.status i) = true
      · rw [if_pos hp] at hj
        cases hj
      · rw [if_neg hp] at hj
        by_cases hki : k = i
        · rw [hki]
          simpa using hp
        · exact h.scanned timeout i (by rw [hm, hj]) k (by omega) hkn
    · split at hs
      · cases hs
        exact ⟨fun k _ haw => (by cases haw), fun timeout k hk => (by cases hk)⟩
      · cases hs
        exact h.move rfl (fun k _ _ => by rw [hm]; rfl) fun timeout k hk => by cases hk
  | check i status =>
    rw [hm] at hs
    simp only at hs
    have hmove : ∀ pc : Main, (∀ k, pc.awaits k = false) → (∀ timeout k, pc ≠ .scan timeout k 0) →
        Waiting numHart testNum ⟨{ w.state with main := pc }, w.answered⟩ := by
      intro pc haw hpc
      refine h.move rfl (fun k _ hk => ?_) fun timeout k hk => absurd hk (hpc timeout k)
      exact absurd hk (by rw [haw k]; exact Bool.false_ne_true)
    split_ifs at hs <;> cases hs <;> exact hmove _ (fun _ => rfl) (by simp)
  | payload | smc i timeout | done ret =>
    rw [hm] at hs
    cases hs

theorem waiting_report {i : Nat} {m : TestNum} {r : Report} {c : Checkpoint} {answered : Nat → Bool}
    (hother : ∀ k, k ≠ i → answered k = w.answered k)
    (hthis : i < numHart → w.state.main.awaits i = true → answered i = true ∧
      (r = .pending → isResultPending (w.state.status i) = true)) :
    Waiting numHart testNum ⟨writeReport testNum w.state i m r c, answered⟩ where
  pending := by
    intro k hk haw ha
    by_cases hki : k = i
    · subst hki
      have ha : answered k = false := ha
      rw [(hthis hk haw).1] at ha
      cases ha
    · show update w.state.status i (r.word m c) k = resultPending testNum
      rw [update_of_ne hki]
      exact h.pending k hk haw ((hother k hki).symm.trans ha)
  scanned := by
    intro timeout i' hm k hk hkn
    have hbefore := h.scanned timeout i' hm k hk hkn
    show isResultPending (update w.state.status i (r.word m c) k) = false
    by_cases hki : k = i
    · subst hki
      by_contra hp
      have hr : r = .pending := isResultPending_word.mp (by simpa using hp)
      have haw : w.state.main.awaits k = true := by
        rw [show w.state.main = .scan timeout i' 0 from hm]
        rfl
      rw [(hthis hkn haw).2 hr] at hbefore
      cases hbefore
    · rw [update_of_ne hki]
      exact hbefore

theorem waiting_psciStep {ret : PsciRet} (hok : Prompt numHart testNum silent w (.psci ret))
    (hs : psciStep w.state ret = some s') : Waiting numHart testNum ⟨s', w.answered⟩ := by
  rw [psciStep] at hs
  rw [Prompt] at hok
  cases hm : w.state.main with
  | smc i timeout =>
    rw [hm] at hs hok
    rcases hok with rfl | ⟨rfl, htry⟩
    · simp only at hs
      split at hs
      · cases hs
        exact h.move rfl (fun k _ _ => by rw [hm]; rfl) fun timeout k hk => by cases hk
      · cases hs
    · simp only at hs
      have ht : timeout ≠ 0 := of_decide_eq_false htry
      rw [if_pos ht] at hs
      cases hs
      exact h.move rfl (fun k _ _ => by rw [hm]; rfl) fun timeout k hk => by cases hk
  | _ =>
    rw [hm] at hs
    cases hs

theorem waiting_step {a : Action} (hok : Prompt numHart testNum silent w a)
    (hs : watchStep numHart myIndex testNum w a = some w') : Waiting numHart testNum w' := by
  obtain ⟨s', hs', rfl⟩ := Option.map_eq_some_iff.mp hs
  cases a with
  | main => exact waiting_mainStep h hs'
  | payloadReport r c =>
    rw [step] at hs'
    split at hs'
    · rename_i hm
      cases hs'
      refine ⟨?_, fun timeout k hk => ?_⟩
      · intro k hk _ ha
        have hne : k ≠ myIndex := by
          rintro rfl
          simp [answeredAfter] at ha
        show update w.state.status myIndex (r.word testNum c) k = resultPending testNum
        rw [update_of_ne hne]
        apply h.pending k hk
        · rw [hm]
          rfl
        · simpa [answeredAfter, update_of_ne hne] using ha
      · rw [show (writeReport testNum w.state myIndex testNum r c).main = w.state.main from rfl,
          hm] at hk
        cases hk
    · cases hs'
  | payloadReturn =>
    rw [step] at hs'
    split at hs'
    · rename_i hm
      cases hs'
      refine h.move rfl (fun k _ _ => by rw [hm]; rfl) fun timeout k hk => ?_
      split at hk
      · cases hk
      · cases hk
    · cases hs'
  | psci ret => exact waiting_psciStep h hok hs'
  | boot i | stop i =>
    rw [step] at hs'
    split at hs'
    · cases hs'
      exact ⟨h.pending, h.scanned⟩
    · cases hs'
  | report i r c =>
    rw [step] at hs'
    split at hs'
    · cases hs'
      refine waiting_report h (fun k hk => ?_) fun hi haw => ?_
      · simp only [answeredAfter]
        split
        · rw [update_of_ne hk]
        · rfl
      · refine ⟨?_, (hok hi haw).2⟩
        rw [answeredAfter, if_pos (hok hi haw).1, update_self]
    · cases hs'

end

theorem Start.waiting (h : Start myIndex w.state) : Waiting numHart testNum w := by
  refine ⟨fun i _ haw => ?_, fun timeout i hm => ?_⟩
  · rw [h.main] at haw
    have hlt : i < 0 := of_decide_eq_true haw
    exact absurd hlt (Nat.not_lt_zero i)
  · rw [h.main] at hm
    cases hm

theorem oneSilent_mainStep {s s' : State} (h : OneSilent numHart silent s)
    (hlast : s.main.beforeLast = true →
      ∀ i < numHart, i ≠ silent → isResultPending (s.status i) = false)
    (hs : mainStep numHart myIndex testNum s = some s') : OneSilent numHart silent s' := by
  obtain ⟨main, status, data, hart, reported, givenUp⟩ := s
  rw [mainStep] at hs
  intro i j hm
  cases main with
  | wait timeout j' =>
    simp only at hs
    split_ifs at hs with ht
    · cases hs
      cases hm
    · cases hs
      obtain ⟨hle, hm⟩ := Option.ite_none_right_eq_some.mp hm
      cases hm
      refine ⟨hlast (decide_eq_true (by omega)), fun _ hlt => absurd hlt (Nat.not_lt_zero _)⟩
  | scan timeout i' j' =>
    simp only at hs
    split at hs
    · rename_i hi
      cases hs
      obtain ⟨hle, hm⟩ := Option.ite_none_right_eq_some.mp hm
      obtain ⟨hothers, hfound⟩ := h i' j' (if_pos hle)
      cases hm
      refine ⟨hothers, fun hsilent hlt hp => ?_⟩
      by_cases heq : silent = i'
      · rw [← heq]
        exact if_pos hp
      · rw [show isResultPending (status i') = false from hothers i' hi (Ne.symm heq)]
        exact hfound hsilent (by omega) hp
    · split_ifs at hs with hj
      · cases hs
        cases hm
      · cases hs
        obtain ⟨hle, hm⟩ := Option.ite_none_right_eq_some.mp hm
        obtain ⟨hothers, hfound⟩ := h i' j' (if_pos hle)
        cases hm
        exact ⟨hothers, fun hsilent hlt => hfound hsilent (by omega)⟩
  | exec | init | check =>
    simp only at hs
    split_ifs at hs <;> cases hs <;> cases hm
  | setData i' timeout =>
    cases hs
    cases hm
  | payload | smc i' timeout | done ret => cases hs

/-- The other actions go on with a scan only if they leave the main hart where it is. -/
theorem oneSilent_step {a : Action} (h : OneSilent numHart silent w.state)
    (hok : Prompt numHart testNum silent w a)
    (hs : watchStep numHart myIndex testNum w a = some w') : OneSilent numHart silent w'.state := by
  obtain ⟨s', hs', rfl⟩ := Option.map_eq_some_iff.mp hs
  cases a with
  | main => exact oneSilent_mainStep h hok hs'
  | payloadReport | payloadReturn =>
    rw [step] at hs'
    split at hs'
    · rename_i hm
      cases hs'
      intro i j hlast
      simp only [writeReport, hm] at hlast
      first | cases hlast | (split at hlast <;> cases hlast)
    · cases hs'
  | psci =>
    rw [step, psciStep] at hs'
    intro i j hlast
    split at hs'
    · split at hs' <;> (try split at hs') <;> cases hs' <;> cases hlast
    · cases hs'
  | boot | stop =>
    rw [step] at hs'
    split at hs'
    · cases hs'
      exact h
    · cases hs'
  | report i r c =>
    rw [step] at hs'
    split at hs'
    · rename_i m hm
      cases hs'
      intro i' j hlast
      have haw (k : Nat) : w.state.main.awaits k = true := by
        revert hlast
        show w.state.main.lastScan numHart = _ → _
        cases w.state.main <;> simp [Main.lastScan, Main.awaits]
      obtain ⟨hothers, hfound⟩ := h i' j hlast
      -- a status that is pending now was pending before
      have hback {k : Nat} (hk : k < numHart)
          (hp : isResultPending (update w.state.status i (r.word m c) k) = true) :
          isResultPending (w.state.status k) = true := by
        by_cases hki : k = i
        · rw [hki, update_self, isResultPending_word] at hp
          rw [hki] at hk ⊢
          exact (hok hk (haw i)).2 hp
        · rwa [update_of_ne hki] at hp
      refine ⟨fun k hk hne => ?_, fun hsilent hlt hp => hfound hsilent hlt (hback hsilent hp)⟩
      by_contra hp
      have hnow := hback hk (Bool.eq_true_of_not_eq_false hp)
      rw [hothers k hk hne] at hnow
      cases hnow
    · cases hs'

theorem recorded_of_waiting (h : Waiting numHart testNum w)
    (hone : OneSilent numHart silent w.state)
    (hs : watchStep numHart myIndex testNum w .main = some w') (hret : Returns w w') :
    Recorded numHart testNum w' := by
  obtain ⟨s', hs', rfl⟩ := Option.map_eq_some_iff.mp hs
  have hans : answeredAfter numHart myIndex testNum w .main = w.answered := by
    obtain ⟨⟨timeout, j, hm | ⟨i, hm⟩⟩, -⟩ := hret <;> rw [answeredAfter, hm]
  rw [hans] at hret ⊢
  obtain ⟨⟨timeout, j, hm | ⟨i, hm⟩⟩, hcheck⟩ := hret
  · -- the time is up
    rw [step, mainStep, hm] at hs'
    simp only at hs'
    split_ifs at hs' with htime
    · cases hs'
      obtain ⟨hothers, hfound⟩ := hone numHart j (by rw [hm]; exact if_pos (by omega))
      intro k hk
      show isResultPending (update w.state.status (j - 1) (resultFail testNum 0xF) k) =
        false ∧ (w.answered k = false → ∃ c,
          update w.state.status (j - 1) (resultFail testNum 0xF) k = resultFail testNum c)
      by_cases hkj : k = j - 1
      · rw [hkj, update_self]
        refine ⟨?_, fun _ => ⟨0xF, rfl⟩⟩
        refine (only_isTestFailSkip ?_).2
        exact isTestFailSkip_resultFail (testNum.isLt.trans (by decide)) (by decide)
      · rw [update_of_ne hkj]
        have hsettled : isResultPending (w.state.status k) = false := by
          by_cases hks : k = silent
          · by_contra hp
            subst hks
            have hj := hfound hk hk (by simpa using hp)
            omega
          · exact hothers k hk hks
        exact ⟨hsettled, (absurd · (h.answered_of_settled hk (by rw [hm]; rfl) hsettled))⟩
    · cases hs'
      cases hcheck
  · -- a scan found every status settled
    rw [step, mainStep, hm] at hs'
    simp only at hs'
    split at hs'
    · cases hs'
      cases hcheck
    · split_ifs at hs' with hj
      · cases hs'
        intro k hk
        have hsettled := h.scanned timeout i (by rw [hm, hj]) k (by omega) hk
        exact ⟨hsettled, (absurd · (h.answered_of_settled hk (by rw [hm]; rfl) hsettled))⟩
      · cases hs'
        cases hcheck

theorem Start.oneSilent {s : State} (h : Start myIndex s) : OneSilent numHart silent s := by
  intro i j hlast
  rw [h.main] at hlast
  cases hlast

end

/-- In every run whose steps are prompt, no hart is pending when `val_run_test_payload` returns,
and a hart without a report has failed the test. -/
theorem valRunTestPayload_timeouts_recorded {numHart myIndex silent : Nat} {testNum : TestNum}
    {w0 w w' : Watch} (hstart : Start myIndex w0.state)
    (hrun : Reaches (watchStep numHart myIndex testNum) (Prompt numHart testNum silent) w0 w)
    (hs : watchStep numHart myIndex testNum w .main = some w') (hret : Returns w w') :
    Recorded numHart testNum w' := by
  have hwait : Waiting numHart testNum w :=
    hrun.invariant hstart.waiting fun _ _ _ h hok hs => waiting_step h hok hs
  have hone : OneSilent numHart silent w.state :=
    hrun.invariant hstart.oneSilent fun _ _ _ h hok hs => oneSilent_step h hok hs
  exact recorded_of_waiting hwait hone hs hret

/-! ## Three harts of which one or two are silent -/

def allOff : Watch where
  state := twoHarts .off
  answered := fun _ => false

def startedRun : List Action :=
  .main :: promptRun.take 9 ++ [.main, .main, .psci .success, .main]

/-- With hart 2 pending the wait goes through one scan after the other. -/
theorem reaches_wait (t j : Nat) (w : Watch) (hm : w.state.main = .wait (t + 1) j)
    (h2 : isResultPending (w.state.status 2) = true) (hj : t = 0 → j = 3) :
    Reaches (watchStep 3 0 2) (fun w' a => a = .main ∧ w'.state.status = w.state.status) w
      ⟨{ w.state with main := .wait 1 3 }, w.answered⟩ := by
  classical
  induction t generalizing j w with
  | zero =>
    obtain ⟨⟨main, status, data, hart, reported, givenUp⟩, answered⟩ := w
    obtain rfl : main = .wait 1 3 := by rw [← hj rfl]; exact hm
    exact .start
  | succ t ih =>
    have hscan : runList (watchStep 3 0 2) (fun w' a => a = .main ∧
          w'.state.status = w.state.status) w [.main, .main, .main, .main, .main] =
        some ⟨{ w.state with main := .wait (t + 1) 3 }, w.answered⟩ := by
      obtain ⟨⟨main, status, data, hart, reported, givenUp⟩, answered⟩ := w
      obtain rfl : main = .wait (t + 1 + 1) j := hm
      simp [runList, watchStep, step, mainStep, answeredAfter, h2]
    refine (reaches_of_runList hscan).trans ?_
    exact ih 3 ⟨{ w.state with main := .wait (t + 1) 3 }, w.answered⟩ rfl h2 fun _ => rfl

/-- Hart 1 reports and hart 2 does not.  The time is up, and hart 2 has failed. -/
theorem valRunTestPayload_oneSilent :
    ∃ w w', Reaches (watchStep 3 0 2) (Prompt 3 2 2) allOff w ∧
      watchStep 3 0 2 w .main = some w' ∧ Returns w w' ∧ w.answered 2 = false ∧
      w'.state.status 2 = resultFail 2 0xF ∧ Recorded 3 2 w' := by
  have hend : (runList (watchStep 3 0 2) (Prompt 3 2 2) allOff
      (startedRun ++ [.boot 1, .report 1 .pass 1])).map
      (fun w => (w.state.main, w.answered 2, w.state.status 0, w.state.status 1,
        w.state.status 2)) =
        some (.wait timeoutLarge 0, false, resultPass 2 1, resultPass 2 1, resultPending 2) := by
    decide
  obtain ⟨w, hw, hfacts⟩ := Option.map_eq_some_iff.mp hend
  simp only [Prod.mk.injEq] at hfacts
  obtain ⟨hm, hans, h0, h1, h2⟩ := hfacts
  have hp2 : isResultPending (w.state.status 2) = true := by rw [h2]; decide
  have hwait := reaches_wait (timeoutLarge - 1) 0 w hm hp2 fun h => absurd h (by decide)
  have hprompt : Reaches (watchStep 3 0 2) (Prompt 3 2 2) allOff _ :=
    (reaches_of_runList hw).trans (hwait.mono ?_)
  · refine ⟨_, _, hprompt, rfl, ⟨⟨_, _, .inl rfl⟩, rfl⟩, hans, rfl, ?_⟩
    exact valRunTestPayload_timeouts_recorded (start_twoHarts .off) hprompt rfl
      ⟨⟨_, _, .inl rfl⟩, rfl⟩
  · rintro w' a ⟨rfl, hstatus⟩ - i hi hne
    rw [hstatus]
    obtain rfl | rfl : i = 0 ∨ i = 1 := by omega
    · rw [h0]
      decide
    · rw [h1]
      decide

theorem valRunTestPayload_silent_pending :
    ∃ w w', Reaches (watchStep 3 0 2) (fun _ _ => True) allOff w ∧
      watchStep 3 0 2 w .main = some w' ∧ Returns w w' ∧
      isResultPending (w'.state.status 1) = true ∧ ¬Recorded 3 2 w' := by
  have hend : (runList (watchStep 3 0 2) (fun _ _ => True) allOff startedRun).map
      (fun w => (w.state.main, w.state.status 1, w.state.status 2)) =
        some (.wait timeoutLarge 0, resultPending 2, resultPending 2) := by
    decide
  obtain ⟨w, hw, hfacts⟩ := Option.map_eq_some_iff.mp hend
  simp only [Prod.mk.injEq] at hfacts
  obtain ⟨hm, h1, h2⟩ := hfacts
  have hp1 : isResultPending (w.state.status 1) = true := by rw [h1]; decide
  have hp2 : isResultPending (w.state.status 2) = true := by rw [h2]; decide
  have hwait := reaches_wait (timeoutLarge - 1) 0 w hm hp2 fun h => absurd h (by decide)
  refine ⟨_, _, (reaches_of_runList hw).trans (hwait.mono fun _ _ _ => trivial), rfl,
    ⟨⟨_, _, .inl rfl⟩, rfl⟩, hp1, fun h => ?_⟩
  have hsettled := (h 1 (by decide)).1
  exact Bool.noConfusion (hp1.symm.trans hsettled)

end ServerSoc.Infra
