/-
Radix trees for maps from numbers to numbers.

An entry at height `n` is for a block of `m ^ n` numbers, which it maps to consecutive numbers
(`leaf`) or through a table of `m` entries at height `n - 1` (`node`).  `sweep` fills a table in a
loop over consecutive digits, with a state that each entry may change, and `overlay` puts what it
filled into a tree that was there before.
-/
import Mathlib.Algebra.BigOperators.Group.Finset.Basic
import Mathlib.Data.Nat.ModEq
import Mathlib.Logic.Function.Basic

namespace ServerSoc.Base

open Finset Function Nat

inductive Radix where
  | empty
  | leaf (out : Nat)
  | node (table : Nat → Radix)

namespace Radix

def find (m x : Nat) : Nat → Radix → Option Nat
  | _, .empty => none
  | n, .leaf out => some (out + x % m ^ n)
  | n, .node table => find m x (n - 1) (table (x / m ^ (n - 1) % m))

def lookup (m n : Nat) (table : Nat → Radix) (x : Nat) : Option Nat :=
  find m x n (table (x / m ^ n % m))

def leafAt (m x : Nat) : Nat → Radix → Option (Nat × Nat)
  | _, .empty => none
  | n, .leaf out => some (out, n)
  | n, .node table => leafAt m x (n - 1) (table (x / m ^ (n - 1) % m))

theorem find_eq (m x n : Nat) (r : Radix) :
    find m x n r = (leafAt m x n r).map (fun l => l.1 + x % m ^ l.2) := by
  induction r generalizing n with
  | empty => rfl
  | leaf out => rfl
  | node table ih => exact ih _ (n - 1)

variable {S : Type} {m n N k : Nat} {cell : Nat → S → Radix × S} {i0 : Nat} {s : S}

def sweep (m : Nat) (cell : Nat → S → Radix × S) (i0 : Nat) : Nat → S → (Nat → Radix) × S
  | 0, s => (fun _ => .empty, s)
  | k + 1, s =>
    let r := sweep m cell i0 k s
    let c := cell k r.2
    (update r.1 ((i0 + k) % m) c.1, c.2)

theorem sweep_succ_table (k : Nat) :
    (sweep m cell i0 (k + 1) s).1 = update (sweep m cell i0 k s).1 ((i0 + k) % m)
      (cell k (sweep m cell i0 k s).2).1 := rfl

theorem add_mod_inj {j : Nat} (hj : j < m) (hk : k < m) (h : (i0 + j) % m = (i0 + k) % m) :
    j = k := by
  have hmod := Nat.ModEq.add_left_cancel' i0 h
  rwa [Nat.ModEq, mod_eq_of_lt hj, mod_eq_of_lt hk] at hmod

theorem sweep_hit (hN : N ≤ m) (hk : k < N) :
    (sweep m cell i0 N s).1 ((i0 + k) % m) = (cell k (sweep m cell i0 k s).2).1 := by
  induction N with
  | zero => exact absurd hk (Nat.not_lt_zero k)
  | succ N ih =>
    rw [sweep_succ_table]
    rcases Nat.lt_or_eq_of_le (le_of_lt_succ hk) with hlt | rfl
    · have hne : (i0 + k) % m ≠ (i0 + N) % m := by
        intro h
        have hkn := add_mod_inj (by omega) (by omega) h
        omega
      rw [update_of_ne hne]
      exact ih (by omega) hlt
    · rw [update_self]

theorem sweep_miss {i : Nat} (h : ∀ k < N, (i0 + k) % m ≠ i) :
    (sweep m cell i0 N s).1 i = .empty := by
  induction N with
  | zero => rfl
  | succ N ih =>
    rw [sweep_succ_table, update_of_ne (h N (lt_succ_self N)).symm]
    exact ih fun k hk => h k (lt_succ_of_lt hk)

theorem sweep_cases (N i : Nat) : (sweep m cell i0 N s).1 i = .empty ∨
    ∃ k < N, i = (i0 + k) % m ∧ (sweep m cell i0 N s).1 i = (cell k (sweep m cell i0 k s).2).1 := by
  induction N with
  | zero => exact .inl rfl
  | succ N ih =>
    rw [sweep_succ_table]
    by_cases hi : i = (i0 + N) % m
    · refine .inr ⟨N, lt_succ_self N, hi, ?_⟩
      rw [hi, update_self]
    · rw [update_of_ne hi]
      rcases ih with hempty | ⟨k, hk, hik, heq⟩
      · exact .inl hempty
      · exact .inr ⟨k, lt_succ_of_lt hk, hik, heq⟩

theorem sweep_invariant {P : Nat → S → Prop} (h0 : P 0 s)
    (hstep : ∀ k < N, ∀ s, P k s → P (k + 1) (cell k s).2) : P N (sweep m cell i0 N s).2 := by
  induction N with
  | zero => exact h0
  | succ N ih =>
    exact hstep N (lt_succ_self N) _ (ih (fun k hk => hstep k (lt_succ_of_lt hk)))

theorem sweep_congr {f : Nat → Radix} (h : ∀ k < N, ∀ s, (cell k s).1 = f k) (s s' : S) :
    (sweep m cell i0 N s).1 = (sweep m cell i0 N s').1 := by
  induction N with
  | zero => rfl
  | succ N ih =>
    rw [sweep_succ_table, sweep_succ_table, h N (lt_succ_self N), h N (lt_succ_self N),
      ih (fun k hk => h k (lt_succ_of_lt hk))]

/-- The entry on the way of `x`, in a table that a loop filled without passing its end. -/
theorem sweep_at {x : Nat} (hm : 0 < m) (hfit : ∀ k < N, (i0 + k) / m = i0 / m)
    (hx : x / m ^ n / m = i0 / m) :
    (sweep m cell i0 N s).1 (x / m ^ n % m) =
      if i0 ≤ x / m ^ n ∧ x / m ^ n < i0 + N then
        (cell (x / m ^ n - i0) (sweep m cell i0 (x / m ^ n - i0) s).2).1
      else .empty := by
  have hN : N ≤ m := by
    by_contra hlt
    have hwrap := hfit m (by omega)
    rw [add_div_right _ hm] at hwrap
    omega
  by_cases hin : i0 ≤ x / m ^ n ∧ x / m ^ n < i0 + N
  · have hdigit : x / m ^ n % m = (i0 + (x / m ^ n - i0)) % m := by rw [Nat.add_sub_cancel' hin.1]
    rw [if_pos hin, hdigit, sweep_hit hN (by omega)]
  · rw [if_neg hin, sweep_miss]
    intro k hk hdigit
    have h1 := div_add_mod (i0 + k) m
    have h2 := div_add_mod (x / m ^ n) m
    rw [hfit k hk] at h1
    rw [hx] at h2
    omega

/-! ## Trees that are filled again -/

def entry : Radix → Nat → Radix
  | .node table, i => table i
  | _, _ => .empty

/-- A tree after `new` was put into it.  A leaf `out` of height `n` becomes the leaf
`f n out`, and a table in place of a leaf starts empty. -/
def overlay (f : Nat → Nat → Nat) : Nat → Radix → Radix → Radix
  | _, old, .empty => old
  | n, _, .leaf out => .leaf (f n out)
  | n, old, .node table => .node fun i => overlay f (n - 1) (old.entry i) (table i)

/-- On the way of `x` there is a leaf in the first tree and a table in the second. -/
def Splits (m x : Nat) : Nat → Radix → Radix → Prop
  | _, .leaf _, .node _ => True
  | n, .node old, .node table =>
    Splits m x (n - 1) (old (x / m ^ (n - 1) % m)) (table (x / m ^ (n - 1) % m))
  | _, _, _ => False

/-- What the tree has on the way of `x` is for numbers in `R`: a leaf only for `x` itself, and
a table only if its block has such a number. -/
def Within (m x : Nat) (R : Nat → Prop) : Nat → Radix → Prop
  | _, .empty => True
  | _, .leaf _ => R x
  | n, .node table =>
    (∃ y, R y ∧ y / m ^ n = x / m ^ n) ∧ Within m x R (n - 1) (table (x / m ^ (n - 1) % m))

variable {f : Nat → Nat → Nat} {old new : Radix}

section

variable {x : Nat} {l : Nat × Nat}

theorem leafAt_overlay_some (h : leafAt m x n new = some l) (f : Nat → Nat → Nat)
    (old : Radix) : leafAt m x n (overlay f n old new) = some (f l.2 l.1, l.2) := by
  induction new generalizing n old with
  | empty => exact absurd h (by nofun)
  | leaf out =>
    obtain rfl := Option.some.inj h
    rfl
  | node table ih => exact ih _ h (old.entry _)

/-- Where nothing was put in, the tree is as before unless a leaf was split. -/
theorem leafAt_overlay_none (h : leafAt m x n new = none) (hsplit : ¬ Splits m x n old new)
    (f : Nat → Nat → Nat) : leafAt m x n (overlay f n old new) = leafAt m x n old := by
  induction new generalizing n old with
  | empty => rfl
  | leaf out => exact absurd h (by nofun)
  | node table ih =>
    cases old with
    | empty =>
      have hnone : ¬ Splits m x (n - 1) .empty (table (x / m ^ (n - 1) % m)) := by
        intro hs
        cases htable : table (x / m ^ (n - 1) % m) <;> rw [htable] at hs <;> exact hs
      exact (ih _ h hnone).trans rfl
    | leaf out => exact absurd trivial hsplit
    | node table' => exact ih _ h hsplit

theorem leafAt_overlay_cases (h : leafAt m x n (overlay f n old new) = some l) :
    (∃ l', leafAt m x n new = some l' ∧ l = (f l'.2 l'.1, l'.2)) ∨ leafAt m x n old = some l := by
  induction new generalizing n old with
  | empty => exact .inr h
  | leaf out =>
    cases h
    exact .inl ⟨(out, n), rfl, rfl⟩
  | node table ih =>
    refine (ih _ h).imp id fun hold => ?_
    cases old with
    | empty => exact hold
    | leaf out => cases hold
    | node table' => exact hold

theorem leafAt_overlay_empty (m x n : Nat) (f : Nat → Nat → Nat) (new : Radix) :
    leafAt m x n (overlay f n .empty new) = (leafAt m x n new).map fun l => (f l.2 l.1, l.2) := by
  cases h : leafAt m x n new with
  | some l => exact leafAt_overlay_some h f .empty
  | none =>
    have hsplit : ¬ Splits m x n .empty new := by
      intro hs
      cases new <;> exact hs
    rw [leafAt_overlay_none h hsplit f]
    rfl

theorem leafAt_height_le (h : leafAt m x n new = some l) : l.2 ≤ n := by
  induction new generalizing n with
  | empty => cases h
  | leaf out =>
    cases h
    exact le_rfl
  | node table ih => exact (ih _ h).trans (sub_le n 1)

variable {R R' : Nat → Prop}

section

variable (h : Within m x R n new)
include h

theorem Within.mono (hR : ∀ y, R y → R' y) : Within m x R' n new := by
  induction new generalizing n with
  | empty => trivial
  | leaf out => exact hR x h
  | node table ih =>
    obtain ⟨⟨y, hy, hdiv⟩, hbelow⟩ := h
    exact ⟨⟨y, hR y hy, hdiv⟩, ih _ hbelow⟩

theorem Within.leafAt_none (hx : ¬ R x) : leafAt m x n new = none := by
  induction new generalizing n with
  | empty => rfl
  | leaf out => exact absurd h hx
  | node table ih =>
    have hbelow := ih _ h.2
    exact hbelow

theorem Within.of_splits (hs : Splits m x n old new) :
    ∃ l, leafAt m x n old = some l ∧ ∃ y, R y ∧ y / m ^ l.2 = x / m ^ l.2 := by
  induction new generalizing n old with
  | empty => cases old <;> exact hs.elim
  | leaf out => cases old <;> exact hs.elim
  | node table ih =>
    cases old with
    | empty => exact hs.elim
    | leaf out => exact ⟨(out, n), rfl, h.1⟩
    | node table' =>
      have hbelow := ih _ h.2 hs
      exact hbelow

/-- Outside `R` and the leaves that it meets, the tree is as before. -/
theorem Within.leafAt_overlay (hx : ¬ R x)
    (hleaf : ∀ l, leafAt m x n old = some l → ∀ y, R y → y / m ^ l.2 ≠ x / m ^ l.2)
    (f : Nat → Nat → Nat) : leafAt m x n (overlay f n old new) = leafAt m x n old := by
  refine leafAt_overlay_none (h.leafAt_none hx) (fun hs => ?_) f
  obtain ⟨l, hl, y, hy, hdiv⟩ := h.of_splits hs
  exact hleaf l hl y hy hdiv

end

end

/-! ## Counting tables -/

def isNode : Radix → Bool
  | .node _ => true
  | _ => false

def nodes (m : Nat) : Radix → Nat
  | .node table => 1 + ∑ i ∈ Finset.range m, nodes m (table i)
  | _ => 0

def fresh (m : Nat) : Radix → Radix → Nat
  | old, .node table =>
    (if old.isNode then 0 else 1) + ∑ i ∈ Finset.range m, fresh m (old.entry i) (table i)
  | _, _ => 0

def tableNodes (m : Nat) (table : Nat → Radix) : Nat := ∑ i ∈ Finset.range m, nodes m (table i)

def tableFresh (m : Nat) (old new : Nat → Radix) : Nat :=
  ∑ i ∈ Finset.range m, fresh m (old i) (new i)

/-- Some table of the first tree has a leaf of the second in its place. -/
def Replaces (m : Nat) : Radix → Radix → Prop
  | .node _, .leaf _ => True
  | .node old, .node table => ∃ i < m, Replaces m (old i) (table i)
  | _, _ => False

theorem entry_of_not_node {t : Radix} (h : t.isNode = false) : t.entry = fun _ => .empty := by
  cases t with
  | node table => cases h
  | _ => rfl

theorem nodes_of_not_node {t : Radix} (h : t.isNode = false) : nodes m t = 0 := by
  cases t with
  | node table => cases h
  | _ => rfl

@[simp] theorem fresh_empty (m : Nat) (old : Radix) : fresh m old .empty = 0 := by
  cases old <;> rfl

@[simp] theorem fresh_leaf (m out : Nat) (old : Radix) : fresh m old (.leaf out) = 0 := by
  cases old <;> rfl

theorem fresh_node (m : Nat) (old : Radix) (table : Nat → Radix) :
    fresh m old (.node table) = (if old.isNode then 0 else 1) + tableFresh m old.entry table := by
  cases old <;> rfl

theorem nodes_node (m : Nat) (table : Nat → Radix) :
    nodes m (.node table) = 1 + tableNodes m table := rfl

@[simp] theorem tableFresh_empty (m : Nat) (old : Nat → Radix) :
    tableFresh m old (fun _ => .empty) = 0 := by
  simp [tableFresh]

theorem tableFresh_update {old new : Nat → Radix} {j : Nat} {t : Radix} (hj : j < m)
    (hempty : new j = .empty) :
    tableFresh m old (update new j t) = tableFresh m old new + fresh m (old j) t := by
  have hmem := mem_range.mpr hj
  have hrest : ∑ i ∈ (range m).erase j, fresh m (old i) (update new j t i) =
      ∑ i ∈ (range m).erase j, fresh m (old i) (new i) := by
    apply sum_congr rfl
    intro i hi
    rw [update_of_ne (ne_of_mem_erase hi)]
  rw [tableFresh, tableFresh, ← add_sum_erase _ _ hmem,
    ← add_sum_erase (range m) (fun i => fresh m (old i) (new i)) hmem]
  simp only [update_self, hempty, fresh_empty]
  omega

theorem nodes_overlay (n : Nat) (h : ¬ Replaces m old new) :
    nodes m (overlay f n old new) = nodes m old + fresh m old new := by
  induction new generalizing n old with
  | empty => simp [overlay]
  | leaf out =>
    cases old with
    | empty => rfl
    | leaf out' => rfl
    | node table => exact absurd trivial h
  | node table ih =>
    have hsum : ∑ i ∈ range m, nodes m (overlay f (n - 1) (old.entry i) (table i)) =
        tableNodes m old.entry + tableFresh m old.entry table := by
      rw [tableNodes, tableFresh, ← sum_add_distrib]
      apply sum_congr rfl
      intro i hi
      apply ih
      intro hr
      cases old with
      | empty => cases htable : table i <;> rw [htable] at hr <;> exact hr
      | leaf out => cases htable : table i <;> rw [htable] at hr <;> exact hr
      | node table' => exact h ⟨i, mem_range.mp hi, hr⟩
    have hnew : nodes m (overlay f n old (.node table)) =
        1 + (tableNodes m old.entry + tableFresh m old.entry table) := by
      rw [← hsum]
      rfl
    rw [hnew, fresh_node]
    cases old with
    | empty =>
      have hzero : tableNodes m (entry .empty) = 0 := sum_eq_zero fun _ _ => rfl
      rw [hzero]
      simp [nodes, isNode]
    | leaf out =>
      have hzero : tableNodes m (entry (.leaf out)) = 0 := sum_eq_zero fun _ _ => rfl
      rw [hzero]
      simp [nodes, isNode]
    | node table' =>
      rw [nodes_node]
      simp only [isNode, if_true]
      rw [zero_add, add_assoc]
      rfl

theorem tableNodes_overlay {old new : Nat → Radix} (n : Nat)
    (h : ∀ i < m, ¬ Replaces m (old i) (new i)) :
    tableNodes m (fun i => overlay f n (old i) (new i)) =
      tableNodes m old + tableFresh m old new := by
  rw [tableNodes, tableNodes, tableFresh, ← sum_add_distrib]
  exact sum_congr rfl fun i hi => nodes_overlay n (h i (mem_range.mp hi))

end Radix
end ServerSoc.Base
