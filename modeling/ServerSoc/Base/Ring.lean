/-
Ring buffers with a wrap bit.

A ring has `m` slots.  The producer has written `b` entries and the consumer has taken
`a` of them, and each side shows its count modulo `2 * m`: the slot, and above it one bit
that changes at every turn.  While at most `m` entries are in the ring, the two shown
counts tell how many there are.
-/
import Mathlib.Data.Nat.ModEq

namespace ServerSoc.Base.Ring

open Nat

variable {m a b : Nat}

theorem slot_inj {j k : Nat} (hj : a ≤ j) (hj' : j < a + m) (hk : a ≤ k) (hk' : k < a + m)
    (h : j % m = k % m) : j = k := by
  have hmod : j - a ≡ k - a [MOD m] := by
    refine Nat.ModEq.add_left_cancel' a ?_
    rw [Nat.ModEq, Nat.add_sub_cancel' hj, Nat.add_sub_cancel' hk, h]
  rw [Nat.ModEq, mod_eq_of_lt (by omega), mod_eq_of_lt (by omega)] at hmod
  omega

theorem shown_slot (m b : Nat) : b % (2 * m) % m = b % m := mod_mul_left_mod b 2 m

theorem shown_turn (m b : Nat) : b % (2 * m) / m % 2 = b / m % 2 := by
  rw [mul_comm, mod_mul_right_div_self, mod_mod]

theorem empty_iff (hm : 0 < m) (h1 : a ≤ b) (h2 : b ≤ a + m) :
    b % (2 * m) = a % (2 * m) ↔ b = a := by
  constructor
  · intro h
    exact slot_inj h1 (by omega) le_rfl (by omega) h
  · rintro rfl
    rfl

theorem full_iff (hm : 0 < m) (h1 : a ≤ b) (h2 : b ≤ a + m) :
    b % m = a % m ∧ b / m % 2 ≠ a / m % 2 ↔ b = a + m := by
  constructor
  · rintro ⟨hslot, hturn⟩
    by_contra hne
    have hba := slot_inj h1 (by omega) le_rfl (by omega) hslot
    exact hturn (by rw [hba])
  · rintro rfl
    rw [add_mod_right, add_div_right a hm]
    exact ⟨rfl, by omega⟩

end ServerSoc.Base.Ring
