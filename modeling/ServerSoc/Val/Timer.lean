/-
The platform timers in the timer table (acs_timer.c).

The instances count through the timers of the blocks.  Both comparisons of the search let one
instance too many pass: the one behind the last timer of a block stays in the block.
-/
import Mathlib.Data.Nat.ModEq

namespace ServerSoc.Val.Timer

open List

/-- The `timer_count` of each block, and `num_platform_timer`. -/
structure TimerInfoTable where
  timerCount : List Nat
  numPlatformTimer : Nat
  sum_eq : timerCount.sum = numPlatformTimer

/-- The block and the index that the loop ends with. -/
def findBlock : List Nat → Nat → Nat × Nat
  | [], inst => (0, inst)
  | count :: rest, inst =>
    if count < inst then (findBlock rest (inst - count)).map (· + 1) id else (0, inst)

/-- Without a result the block is set to 0xFFFF. -/
def valPlatformTimerGetEntryIndex (t : TimerInfoTable) (inst : Nat) : Option (Nat × Nat) :=
  if t.numPlatformTimer < inst then none else some (findBlock t.timerCount inst)

def timersBefore (counts : List Nat) (block : Nat) : Nat := (counts.take block).sum

/-- `inst` is the number of the timer, block by block. -/
def IsTimer (counts : List Nat) (inst : Nat) (r : Nat × Nat) : Prop :=
  r.2 < counts.getD r.1 0 ∧ inst = timersBefore counts r.1 + r.2

def IndexedAt (t : TimerInfoTable) (inst : Nat) : Prop :=
  if inst < t.numPlatformTimer then
    ∃ r, valPlatformTimerGetEntryIndex t inst = some r ∧ IsTimer t.timerCount inst r
  else valPlatformTimerGetEntryIndex t inst = none

theorem timersBefore_cons (count : Nat) (rest : List Nat) (block : Nat) :
    timersBefore (count :: rest) (block + 1) = count + timersBefore rest block := sum_cons

theorem isTimer_findBlock_iff {counts : List Nat} {inst : Nat} (h : inst ≤ counts.sum) :
    IsTimer counts inst (findBlock counts inst) ↔
      ∀ block, inst ≠ timersBefore counts (block + 1) := by
  induction counts generalizing inst with
  | nil =>
    refine iff_of_false (fun h => absurd h.1 (Nat.not_lt_zero _)) fun hno => hno 0 ?_
    simpa [timersBefore] using h
  | cons count rest ih =>
    simp only [timersBefore_cons, findBlock]
    split_ifs with hlt
    · -- the first block is passed
      rw [sum_cons] at h
      have hshift : IsTimer (count :: rest) inst ((findBlock rest (inst - count)).map (· + 1) id) ↔
          IsTimer rest (inst - count) (findBlock rest (inst - count)) := by
        refine and_congr Iff.rfl ?_
        show inst = timersBefore (count :: rest) (_ + 1) + (findBlock rest (inst - count)).2 ↔ _
        rw [timersBefore_cons]
        omega
      rw [hshift, ih (by omega)]
      constructor
      · rintro hno (_ | block) heq
        · exact Nat.ne_of_gt hlt heq
        · exact hno block (by omega)
      · intro hno block heq
        exact hno (block + 1) (by omega)
    · constructor
      · rintro ⟨hin, -⟩ block heq
        have : inst < count := hin
        omega
      · intro hno
        have hne : inst ≠ count := hno 0
        exact ⟨show inst < count by omega, (Nat.zero_add inst).symm⟩

/-- An instance is wrong exactly when it is the number of the timers in the first blocks, be it one
block or all of them. -/
theorem valPlatformTimerGetEntryIndex_iff (t : TimerInfoTable) (inst : Nat) :
    IndexedAt t inst ↔ ∀ block, inst ≠ timersBefore t.timerCount (block + 1) := by
  have hall : timersBefore t.timerCount (t.timerCount.length + 1) = t.numPlatformTimer := by
    rw [timersBefore, take_of_length_le (Nat.le_succ _), t.sum_eq]
  have hle : ∀ block, timersBefore t.timerCount block ≤ t.numPlatformTimer := fun block => by
    have hsum := congrArg List.sum (take_append_drop block t.timerCount)
    rw [sum_append, t.sum_eq] at hsum
    exact Nat.le.intro hsum
  rw [IndexedAt, valPlatformTimerGetEntryIndex]
  split_ifs with hlt hover hover
  · omega
  · rw [← isTimer_findBlock_iff (by rw [t.sum_eq]; omega)]
    simp
  · exact iff_of_true rfl fun block heq => by have := hle (block + 1); omega
  · exact iff_of_false nofun fun hno => hno t.timerCount.length (by omega)

/-- The first timer of the second block is not found, and there is a sixth of five timers. -/
theorem valPlatformTimerGetEntryIndex_twoBlocks :
    ¬ IndexedAt ⟨[2, 3], 5, rfl⟩ 2 ∧ ¬ IndexedAt ⟨[2, 3], 5, rfl⟩ 5 ∧
      valPlatformTimerGetEntryIndex ⟨[2, 3], 5, rfl⟩ 2 = some (0, 2) ∧
      valPlatformTimerGetEntryIndex ⟨[2, 3], 5, rfl⟩ 5 = some (1, 3) := by
  refine ⟨?_, nofun, rfl, rfl⟩
  rintro ⟨r, heq, hlt, -⟩
  cases heq
  exact absurd hlt (by decide)

end ServerSoc.Val.Timer
