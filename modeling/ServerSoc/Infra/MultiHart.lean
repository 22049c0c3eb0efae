/-
Running one test on several harts (acs_test_infra.c, acs_hart_infra.c).

The main hart sets every status to pending, starts the payload on each hart, waits for the
statuses and adds them up.  An action of `step` is one access of the main hart to shared memory,
one firmware call, or one thing another hart does, so a run is an interleaving of the harts.
-/
import Mathlib.Logic.Function.Basic
import ServerSoc.Base.Run
import ServerSoc.Val.Status

namespace ServerSoc.Infra

open Val Function

/-- Test numbers fit under `TEST_NUM_MASK`. -/
abbrev TestNum := Fin 4096

/-- Checkpoint numbers fit under `STATUS_MASK`. -/
abbrev Checkpoint := Fin 4096

def timeoutLarge : Nat := 0x1000000

inductive Report where
  | pass | fail | skip | pending
  deriving DecidableEq, Repr

def Report.state : Report → TestState
  | .pass => .pass
  | .fail => .fail
  | .skip => .skip
  | .pending => .pending

def Report.word (r : Report) (testNum : TestNum) (c : Checkpoint) : Nat :=
  match r with
  | .pass => resultPass testNum c
  | .fail => resultFail testNum c
  | .skip => resultSkip testNum c
  | .pending => resultPending testNum

inductive PsciRet where
  | success | notSupported | invalidParams | denied | alreadyOn | onPending | internFail
  | notPresent | disabled
  deriving DecidableEq, Repr

/-- The number below zero, `0` to `-8`. -/
def PsciRet.code : PsciRet → Nat
  | .success => 0
  | .notSupported => 1
  | .invalidParams => 2
  | .denied => 3
  | .alreadyOn => 4
  | .onPending => 5
  | .internFail => 6
  | .notPresent => 7
  | .disabled => 8

inductive HartState where
  | off
  | booting
  | running (testNum : TestNum)
  deriving DecidableEq, Repr

inductive AcsStatus where
  | pass | fail | skip
  deriving DecidableEq, Repr

inductive Main where
  /-- the loop of `val_initialize_test` -/
  | init (i : Nat)
  /-- in the payload -/
  | payload
  /-- the loop of `val_run_test_payload` over the other harts -/
  | exec (i : Nat)
  /-- the loop of `val_execute_on_pe` -/
  | setData (i timeout : Nat)
  | smc (i timeout : Nat)
  /-- the two loops of `val_wait_for_test_completion` -/
  | wait (timeout j : Nat)
  | scan (timeout i j : Nat)
  /-- the loop of `val_check_for_error` -/
  | check (i status : Nat)
  | done (ret : AcsStatus)
  deriving DecidableEq, Repr

/-- `status` and `data` are the shared memory, with the test whose payload the address
in `data0` is.  The last two fields record what happened: the harts whose payload of
this test reported a pass, and the hart the wait gave up on. -/
structure State where
  main : Main
  status : Nat → Nat
  data : Nat → TestNum
  hart : Nat → HartState
  reported : Nat → Bool
  givenUp : Option Nat

inductive Action where
  /-- the main hart goes on -/
  | main
  /-- its payload reports, or returns -/
  | payloadReport (r : Report) (c : Checkpoint)
  | payloadReturn
  /-- the firmware answers the main hart -/
  | psci (ret : PsciRet)
  /-- another hart enters `val_test_entry`, reports, or switches itself off -/
  | boot (i : Nat)
  | report (i : Nat) (r : Report) (c : Checkpoint)
  | stop (i : Nat)
  deriving DecidableEq, Repr

/-- The return value of `val_check_for_error` for the last status read. -/
def verdict (status : Nat) : AcsStatus :=
  if isTestPass status then .pass
  else if isTestSkip status then .skip
  else .fail

section

variable (numHart myIndex : Nat) (testNum : TestNum)

def mainStep (s : State) : Option State :=
  match s.main with
  | .init i =>
    if i < numHart then
      some { s with
        main := .init (i + 1)
        status := update s.status i (resultPending testNum)
        reported := update s.reported i false }
    else some { s with main := .payload }
  | .exec i =>
    if i < numHart then
      if i ≠ myIndex then some { s with main := .setData i timeoutLarge }
      else some { s with main := .exec (i + 1) }
    else some { s with main := .wait timeoutLarge 0 }
  | .setData i timeout =>
    some { s with main := .smc i timeout, data := update s.data i testNum }
  | .wait timeout j =>
    if timeout - 1 = 0 then
      some { s with
        main := .check 0 0
        status := update s.status (j - 1) (resultFail testNum 0xF)
        givenUp := some (j - 1) }
    else some { s with main := .scan (timeout - 1) 0 0 }
  | .scan timeout i j =>
    if i < numHart then
      some { s with
        main := .scan timeout (i + 1) (if isResultPending (s.status i) then i + 1 else j) }
    else if j = 0 then some { s with main := .check 0 0 }
    else some { s with main := .wait timeout j }
  | .check i status =>
    if numHart = 1 then some { s with main := .done (verdict (s.status myIndex)) }
    else if i < numHart then
      if isTestFailSkip (s.status i) then some { s with main := .done (verdict (s.status i)) }
      else some { s with main := .check (i + 1) (s.status i) }
    else some { s with main := .done (verdict status) }
  | .payload => none
  | .smc _ _ => none
  | .done _ => none

def writeReport (s : State) (i : Nat) (m : TestNum) (r : Report) (c : Checkpoint) : State :=
  { s with
    status := update s.status i (r.word m c)
    reported := update s.reported i
      (s.reported i || decide (m = testNum ∧ r = .pass)) }

def failStart (s : State) (i : Nat) (ret : PsciRet) : State :=
  { s with
    main := .exec (i + 1)
    status := update s.status i (resultFail 0 (0x120 + ret.code)) }

/-- The firmware starts a hart only when it is off, and may refuse for any reason. -/
def psciStep (s : State) (ret : PsciRet) : Option State :=
  match s.main with
  | .smc i timeout =>
    match ret with
    | .success =>
      if s.hart i = .off then
        some { s with main := .exec (i + 1), hart := update s.hart i .booting }
      else none
    | .alreadyOn =>
      if timeout ≠ 0 then some { s with main := .setData i (timeout - 1) }
      else some (failStart s i .alreadyOn)
    | ret => some (failStart s i ret)
  | _ => none

def step (s : State) : Action → Option State
  | .main => mainStep numHart myIndex testNum s
  | .payloadReport r c =>
    match s.main with
    | .payload => some (writeReport testNum s myIndex testNum r c)
    | _ => none
  | .payloadReturn =>
    match s.main with
    | .payload => some { s with main := if numHart = 1 then .check 0 0 else .exec 0 }
    | _ => none
  | .psci ret => psciStep s ret
  | .boot i =>
    match s.hart i with
    | .booting => some { s with hart := update s.hart i (.running (s.data i)) }
    | _ => none
  | .report i r c =>
    match s.hart i with
    | .running m => some (writeReport testNum s i m r c)
    | _ => none
  | .stop i =>
    match s.hart i with
    | .running _ => some { s with hart := update s.hart i .off }
    | _ => none

end

end ServerSoc.Infra
