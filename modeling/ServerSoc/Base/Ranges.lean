/-
Lists of ranges of numbers, as pairs of a start and a length.

Ranges whose starts do not fall are pairwise disjoint exactly when each ends before the
next one starts.  Members of a list that are related in no order are the same.
-/
import Mathlib.Data.List.Chain

namespace ServerSoc.Base

def Apart (r r' : Nat × Nat) : Prop := r.1 + r.2 ≤ r'.1 ∨ r'.1 + r'.2 ≤ r.1

instance : DecidableRel Apart := fun _ _ => instDecidableOr

def Ahead (r r' : Nat × Nat) : Prop := r.1 + r.2 ≤ r'.1

instance : Trans Ahead Ahead Ahead where
  trans := by
    intro r r' r'' h h'
    rw [Ahead] at *
    omega

theorem isChain_imp₂ {α : Type} {R S T : α → α → Prop} {l : List α} (hR : l.IsChain R)
    (hS : l.IsChain S) (h : ∀ a b, a ∈ l → b ∈ l → R a b → S a b → T a b) : l.IsChain T := by
  rw [List.isChain_iff_forall_rel_of_append_cons_cons] at hR hS ⊢
  intro a b l1 l2 hl
  exact h a b (by rw [hl]; simp) (by rw [hl]; simp) (hR hl) (hS hl)

theorem pairwise_apart_iff {l : List (Nat × Nat)} (hmono : l.IsChain (fun r r' => r.1 ≤ r'.1))
    (hpos : ∀ r ∈ l, 0 < r.2) : l.Pairwise Apart ↔ l.IsChain Ahead := by
  constructor
  · intro h
    refine isChain_imp₂ hmono h.isChain fun r r' hr hr' hle hapart => ?_
    have h2 := hpos r' hr'
    rcases hapart with h | h
    · exact h
    · omega
  · intro h
    exact (List.isChain_iff_pairwise.mp h).imp .inl

theorem eq_of_pairwise {α : Type} {R : α → α → Prop} {l : List α} {a b : α} (hl : l.Pairwise R)
    (ha : a ∈ l) (hb : b ∈ l) (hab : ¬ R a b) (hba : ¬ R b a) : a = b := by
  obtain ⟨i, hi, rfl⟩ := List.getElem_of_mem ha
  obtain ⟨j, hj, rfl⟩ := List.getElem_of_mem hb
  have hrel := List.pairwise_iff_getElem.mp hl
  rcases Nat.lt_trichotomy i j with hij | rfl | hij
  · exact absurd (hrel i j hi hj hij) hab
  · rfl
  · exact absurd (hrel j i hj hi hij) hba

end ServerSoc.Base
