/-
Test status words (val/include/bsa_acs_common.h, acs_status.c).

A status is one 32-bit word: four bits of state on top, the test number from bit 12 on, and a
checkpoint number below.
-/
import ServerSoc.Base.Bits

namespace ServerSoc.Val

open Base

def stateBit : Nat := 28
def testNumBit : Nat := 12

inductive TestState where
  | start | finish | pass | fail | skip | pending
  deriving DecidableEq, Repr

/-- `TEST_START_VAL` to `TEST_PENDING_VAL`. -/
def TestState.val : TestState → Nat
  | .start => 0x1
  | .finish => 0x2
  | .pass => 0x4
  | .fail => 0x8
  | .skip => 0x9
  | .pending => 0xA

theorem TestState.val_lt (s : TestState) : s.val < 16 := by
  cases s <;> decide

def result (s : TestState) (testNum status : Nat) : Nat :=
  (s.val <<< stateBit ||| testNum <<< testNumBit ||| status) % 2 ^ 32

def resultPass (testNum status : Nat) : Nat := result .pass testNum status
def resultFail (testNum status : Nat) : Nat := result .fail testNum status
def resultSkip (testNum status : Nat) : Nat := result .skip testNum status
def resultPending (testNum : Nat) : Nat := result .pending testNum 0

def stateOf (value : Nat) : Nat := (value >>> stateBit) &&& 0xF

def isResultPending (value : Nat) : Bool := stateOf value = TestState.pending.val
def isTestPass (value : Nat) : Bool := stateOf value = TestState.pass.val
def isTestFail (value : Nat) : Bool := stateOf value = TestState.fail.val
def isTestSkip (value : Nat) : Bool := stateOf value = TestState.skip.val
def isTestFailSkip (value : Nat) : Bool := isTestFail value || isTestSkip value

theorem stateOf_result (s : TestState) {testNum status : Nat} (hn : testNum < 2 ^ 16)
    (hs : status < 2 ^ 28) : stateOf (result s testNum status) = s.val := by
  have hlow : testNum <<< 12 ||| status < 2 ^ 28 := by
    refine Nat.or_lt_two_pow ?_ hs
    omega
  have hval := s.val_lt
  have hword : result s testNum status = s.val * 2 ^ 28 + (testNum <<< 12 ||| status) := by
    show (s.val <<< 28 ||| testNum <<< 12 ||| status) % 2 ^ 32 = _
    rw [Nat.or_assoc, shiftLeft_or hlow, Nat.mod_eq_of_lt (by omega)]
  have hstate : stateOf (result s testNum status) = result s testNum status / 2 ^ 28 % 2 ^ 4 :=
    shiftRight_and _ 4 28
  omega

end ServerSoc.Val
