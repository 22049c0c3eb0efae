/-
Values that take several bytes of a memory.

Each value is kept at its first byte together with its length.  A store destroys every value
that it overlaps, so a value can be loaded again as long as all later stores are apart from it.
-/
import Mathlib.Logic.Function.Basic

namespace ServerSoc.Memory

open Option

/-- The value that starts at an address, with its length. -/
abbrev Spans (α : Type) := Nat → Option (Nat × α)

def Apart (a n b k : Nat) : Prop := a + n ≤ b ∨ b + k ≤ a

instance (a n b k : Nat) : Decidable (Apart a n b k) := inferInstanceAs (Decidable (_ ∨ _))

theorem Apart.ne {a n b k : Nat} (h : Apart a n b k) (hn : 0 < n) (hk : 0 < k) : b ≠ a := by
  rcases h with h | h <;> omega

theorem Apart.inside {a n b k a' n' b' k' : Nat} (h : Apart a n b k)
    (ha : a ≤ a' ∧ a' + n' ≤ a + n) (hb : b ≤ b' ∧ b' + k' ≤ b + k) : Apart a' n' b' k' := by
  rcases h with h | h
  · left
    omega
  · right
    omega

theorem apart_items {base n i j : Nat} (h : i ≠ j) : Apart (base + i * n) n (base + j * n) n := by
  have hstep : ∀ {x y : Nat}, x < y → x * n + n ≤ y * n := by
    intro x y hxy
    rw [← Nat.succ_mul]
    exact Nat.mul_le_mul_right n hxy
  rw [Apart]
  rcases Nat.lt_or_gt_of_ne h with hlt | hlt
  · have := hstep hlt
    omega
  · have := hstep hlt
    omega

namespace Spans

variable {α : Type}

def empty : Spans α := fun _ => none

def load (a n : Nat) (m : Spans α) : Option α :=
  (m a).bind fun c => if c.1 = n then some c.2 else none

/-- Destroys what overlaps the `n` bytes from `a` on. -/
def clear (a n : Nat) (m : Spans α) : Spans α :=
  fun b => (m b).filter fun c => decide (Apart a n b c.1)

def store (a n : Nat) (v : α) (m : Spans α) : Spans α :=
  Function.update (clear a n m) a (some (n, v))

@[simp]
theorem load_store_self (a n : Nat) (v : α) (m : Spans α) : load a n (store a n v m) = some v := by
  simp [load, store]

theorem load_clear_of_apart {a n b k : Nat} (h : Apart a n b k) (m : Spans α) :
    load b k (clear a n m) = load b k m := by
  rw [load, load, clear]
  cases hb : m b with
  | none => rfl
  | some c =>
    by_cases hk : c.1 = k
    · have hkeep : Apart a n b c.1 := hk ▸ h
      simp [Option.filter, hkeep]
    · rw [bind_some, if_neg hk, bind_eq_none_iff]
      intro c' hc'
      obtain rfl : c = c' := some.inj (eq_some_of_filter_eq_some hc')
      exact if_neg hk

theorem load_store_of_apart {a n b k : Nat} (h : Apart a n b k) (hn : 0 < n) (hk : 0 < k) (v : α)
    (m : Spans α) : load b k (store a n v m) = load b k m := by
  rw [← load_clear_of_apart h m, load, load, store, Function.update_of_ne (h.ne hn hk)]

end Spans

end ServerSoc.Memory
