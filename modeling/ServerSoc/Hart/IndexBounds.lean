/-
The index checks of the functions that take a hart index (acs_hart.c, acs_hart_infra.c,
acs_test_infra.c).

Each compares the index with the number of harts before it uses it on the hart table or on the
shared memory, which has one slot for each hart.  All of them let the number itself through.
-/
import ServerSoc.Hart.Create
import ServerSoc.Infra.MultiHart

namespace ServerSoc.Hart

open Memory Infra

/-- What a call does: an access to a hart entry or a slot, counted from the first, and an error
that is printed or reported. -/
inductive Access where
  | entry (i : Int)
  | slot (i : Int)
  | error
  deriving DecidableEq, Repr

/-- The functions that take an index; a start has the answers of the firmware. -/
inductive IndexCall where
  | setTestData | getTestData | executeOnPe (answers : Nat → PsciRet)
  | hartGetMpidIndex | hartGetIsaString | hartGetImsicBase | hartGetMmuType

def checkIndex (t : Mem) (index : BitVec 32) (l : List Access) : List Access :=
  if index.toNat > numOfHart t then [.error] else l

def valSetTestData (t : Mem) (index : BitVec 32) : List Access :=
  checkIndex t index [.slot index.toNat]

def valHartGetMpidIndex (t : Mem) (index : BitVec 32) : List Access :=
  checkIndex t index [.entry index.toNat]

/-- The rounds of `val_execute_on_pe` and the status it sets when the start fails. -/
def startRounds (t : Mem) (index : BitVec 32) (answers : Nat → PsciRet) : Nat → Nat → List Access
  | timeout, k =>
    valHartGetMpidIndex t index ++ valSetTestData t index ++
      if answers k = .success then []
      else match timeout with
        | 0 => [.slot index.toNat]
        | timeout + 1 =>
          if answers k = .alreadyOn then startRounds t index answers timeout (k + 1)
          else [.slot index.toNat]

/-- What a call does behind its check.  The entry of `val_hart_get_imsic_base` is chosen with a
signed index, which the check compares without sign. -/
def IndexCall.body (t : Mem) (index : BitVec 32) : IndexCall → List Access
  | .setTestData | .getTestData => [.slot index.toNat]
  | .executeOnPe answers => startRounds t index answers timeoutLarge 0
  | .hartGetMpidIndex | .hartGetIsaString | .hartGetMmuType => [.entry index.toNat]
  | .hartGetImsicBase => [.entry index.toInt]

def IndexCall.accesses (t : Mem) (index : BitVec 32) (call : IndexCall) : List Access :=
  checkIndex t index (call.body t index)

/-- Entries and slots are those of a hart and used for an index of one, and another index is
answered with an error. -/
structure InBounds (num : Nat) (index : BitVec 32) (l : List Access) : Prop where
  access : ∀ i : Int, .entry i ∈ l ∨ .slot i ∈ l → index.toNat < num ∧ 0 ≤ i ∧ i < num
  error : num ≤ index.toNat → .error ∈ l

section

variable {t : Mem} {index : BitVec 32}

theorem inBounds_checkIndex_iff (i : Int) {l : List Access}
    (hl : index.toNat ≤ numOfHart t →
      (.entry i ∈ l ∨ .slot i ∈ l) ∧ ∀ a ∈ l, a = .entry i ∨ a = .slot i) :
    InBounds (numOfHart t) index (checkIndex t index l) ↔
      index.toNat ≠ numOfHart t ∧ (index.toNat < numOfHart t → 0 ≤ i ∧ i < numOfHart t) := by
  rw [checkIndex]
  by_cases hindex : index.toNat > numOfHart t
  · rw [if_pos hindex]
    have herror : InBounds (numOfHart t) index [.error] := ⟨by simp, by simp⟩
    simp [herror, hindex.ne', hindex.le]
  rw [if_neg hindex]
  have hall := hl (not_lt.mp hindex)
  constructor
  · intro h
    have hi := h.access i hall.1
    exact ⟨hi.1.ne, fun _ => hi.2⟩
  · intro h
    have hlt := lt_of_le_of_ne (not_lt.mp hindex) h.1
    refine ⟨fun j hj => ⟨hlt, ?_⟩, fun hle => absurd hle hlt.not_ge⟩
    have hji : j = i := hj.elim (fun hj => by simpa using hall.2 _ hj) fun hj => by
      simpa using hall.2 _ hj
    exact hji ▸ h.2 hlt

theorem startRounds_spec (h : index.toNat ≤ numOfHart t) (answers : Nat → PsciRet)
    (timeout k : Nat) : .entry index.toNat ∈ startRounds t index answers timeout k ∧
      ∀ a ∈ startRounds t index answers timeout k,
        a = .entry index.toNat ∨ a = .slot index.toNat := by
  have hround (l : List Access) : valHartGetMpidIndex t index ++ valSetTestData t index ++ l =
      .entry index.toNat :: .slot index.toNat :: l := by
    simp [valHartGetMpidIndex, valSetTestData, checkIndex, h.not_gt]
  induction timeout generalizing k with
  | zero =>
    rw [startRounds, hround]
    split <;> simp
  | succ timeout ih =>
    rw [startRounds, hround]
    split
    · simp
    · split
      · simpa using (ih (k + 1)).2
      · simp

end

/-- A call is in bounds unless the index is the number of harts, and for the IMSIC also unless
an index of a hart is negative as an `int32_t`. -/
theorem indexCall_inBounds_iff (t : Mem) (index : BitVec 32) (call : IndexCall) :
    InBounds (numOfHart t) index (call.accesses t index) ↔
      index.toNat ≠ numOfHart t ∧
        (call = .hartGetImsicBase → index.toNat < numOfHart t → index.toNat < 2 ^ 31) := by
  rw [IndexCall.accesses]
  cases call with
  | executeOnPe answers =>
    have hrounds (h : index.toNat ≤ numOfHart t) := startRounds_spec h answers timeoutLarge 0
    rw [IndexCall.body, inBounds_checkIndex_iff _ fun h => (hrounds h).imp_left .inl]
    simp
  | hartGetImsicBase =>
    have hsign : 0 ≤ index.toInt ∧ index.toInt < numOfHart t ↔
        index.toNat < 2 ^ 31 ∧ index.toNat < numOfHart t := by
      rw [BitVec.toInt_eq_toNat_cond]
      split <;> omega
    rw [IndexCall.body, inBounds_checkIndex_iff index.toInt (by simp)]
    grind
  | _ =>
    rw [IndexCall.body, inBounds_checkIndex_iff index.toNat (by simp)]
    simp

def oneHart : Mem := store (fun _ => 0) 0 4 1

theorem setTestData_behind_last :
    numOfHart oneHart = 1 ∧ IndexCall.setTestData.accesses oneHart 1 = [.slot 1] ∧
      ¬ InBounds (numOfHart oneHart) 1 (IndexCall.setTestData.accesses oneHart 1) := by
  have hnum : numOfHart oneHart = 1 := by decide
  have hslot : IndexCall.setTestData.accesses oneHart 1 = [.slot 1] := by decide
  refine ⟨hnum, hslot, fun h => ?_⟩
  have hlt := (h.access 1 (.inr (by rw [hslot]; simp))).1
  exact absurd (hnum ▸ hlt) (by decide)

end ServerSoc.Hart
