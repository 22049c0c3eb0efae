/-
Walks over records that carry their own length.

A `do ... while` loop visits the record at a position, adds the length it finds there to the
position and to a 32-bit count of bytes, and goes on while the count is below the length of the
table.  `walk_ok_iff` says when it ends with every record where it should be: the records it meets
fill the table exactly.
-/
import Mathlib.Data.Nat.ModEq

namespace ServerSoc.Base

open List Nat

def strideNext (len : Nat → Nat) (r : Nat × Nat) : Nat × Nat :=
  (r.1 + len r.1, (r.2 + len r.1) % 2 ^ 32)

def visits (len : Nat → Nat) (total : Nat) : Nat → Nat × Nat → List (Nat × Nat)
  | 0, _ => []
  | fuel + 1, r =>
    r :: if (strideNext len r).2 < total then visits len total fuel (strideNext len r) else []

def ends (len : Nat → Nat) (total : Nat) : Nat → Nat × Nat → Bool
  | 0, _ => false
  | fuel + 1, r =>
    if (strideNext len r).2 < total then ends len total fuel (strideNext len r) else true

/-- The records at `l` lie one behind the other from `pos` to the end of the table. -/
inductive Tiles (len : Nat → Nat) (total : Nat) : Nat → List Nat → Prop where
  | last {pos : Nat} (h : pos + len pos = total) : Tiles len total pos [pos]
  | cons {pos : Nat} {l : List Nat} (h : pos + len pos < total)
      (rest : Tiles len total (pos + len pos) l) : Tiles len total pos (pos :: l)

section

variable {len : Nat → Nat} {total pos : Nat} {l : List Nat}

theorem strideNext_of_inside (htotal : total < 2 ^ 32) (h : pos + len pos ≤ total) :
    strideNext len (pos, pos) = (pos + len pos, pos + len pos) := by
  have hcount : (pos + len pos) % 2 ^ 32 = pos + len pos := mod_eq_of_lt (by omega)
  rw [strideNext, hcount]

theorem Tiles.inside (h : Tiles len total pos l) : ∀ p ∈ l, p + len p ≤ total := by
  induction h with
  | last h =>
    intro p hp
    rw [mem_singleton.mp hp]
    exact Nat.le_of_eq h
  | cons h rest ih =>
    intro p hp
    rcases mem_cons.mp hp with rfl | hp
    · exact Nat.le_of_lt h
    · exact ih p hp

section

variable (htotal : total < 2 ^ 32) (h : Tiles len total pos l)
include htotal h

theorem Tiles.ends : ends len total l.length (pos, pos) = true := by
  induction h with
  | last h =>
    rw [length_singleton, Base.ends, strideNext_of_inside htotal (by omega),
      if_neg (by omega)]
  | cons h rest ih =>
    rw [length_cons, Base.ends, strideNext_of_inside htotal (by omega), if_pos h]
    exact ih

theorem Tiles.visits_subset (fuel : Nat) {r : Nat × Nat}
    (hr : r ∈ visits len total fuel (pos, pos)) : r.1 ∈ l := by
  induction h generalizing fuel with
  | last h =>
    cases fuel with
    | zero => cases hr
    | succ fuel =>
      rw [visits, strideNext_of_inside htotal (by omega), if_neg (by omega)] at hr
      rw [mem_singleton.mp hr]
      exact mem_singleton_self _
  | cons h rest ih =>
    cases fuel with
    | zero => cases hr
    | succ fuel =>
      rw [visits, strideNext_of_inside htotal (by omega), if_pos h] at hr
      rcases mem_cons.mp hr with rfl | hr
      · exact mem_cons_self
      · exact mem_cons_of_mem _ (ih fuel hr)

theorem Tiles.mem_visits {p : Nat} (hp : p ∈ l) :
    (p, p) ∈ visits len total l.length (pos, pos) := by
  induction h with
  | last h =>
    rw [mem_singleton.mp hp]
    exact mem_cons_self
  | cons h rest ih =>
    rw [length_cons, visits, strideNext_of_inside htotal (by omega), if_pos h]
    rcases mem_cons.mp hp with rfl | hp
    · exact mem_cons_self
    · exact mem_cons_of_mem _ (ih hp)

end

/-- A walk that ends and never leaves the table has gone over a tiling. -/
theorem tiles_of_ends {fuel : Nat} (htotal : total < 2 ^ 32)
    (hends : ends len total fuel (pos, pos) = true)
    (hin : ∀ r ∈ visits len total fuel (pos, pos), r.1 + len r.1 ≤ total) :
    ∃ l, Tiles len total pos l := by
  induction fuel generalizing pos with
  | zero => cases hends
  | succ fuel ih =>
    have hfirst : pos + len pos ≤ total := hin (pos, pos) mem_cons_self
    have hnext := strideNext_of_inside htotal hfirst
    by_cases hmore : pos + len pos < total
    · rw [ends, hnext, if_pos hmore] at hends
      obtain ⟨l, hl⟩ := ih hends (by
        intro r hr
        apply hin
        rw [visits, hnext, if_pos hmore]
        exact mem_cons_of_mem _ hr)
      exact ⟨pos :: l, .cons hmore hl⟩
    · exact ⟨[pos], .last (by omega)⟩

theorem walk_ok_iff (len : Nat → Nat) (inside : Nat → Prop) (htotal : total < 2 ^ 32)
    (hinside : ∀ p, inside p → p + len p ≤ total) (pos : Nat) :
    ((∃ fuel, ends len total fuel (pos, pos) = true) ∧
        ∀ fuel, ∀ r ∈ visits len total fuel (pos, pos), inside r.1) ↔
      ∃ l, Tiles len total pos l ∧ ∀ p ∈ l, inside p := by
  constructor
  · rintro ⟨⟨fuel, hends⟩, hin⟩
    obtain ⟨l, hl⟩ := tiles_of_ends htotal hends fun r hr => hinside _ (hin fuel r hr)
    exact ⟨l, hl, fun p hp => hin _ _ (hl.mem_visits htotal hp)⟩
  · rintro ⟨l, hl, hin⟩
    exact ⟨⟨l.length, hl.ends htotal⟩, fun fuel r hr => hin _ (hl.visits_subset htotal fuel hr)⟩

/-- A record of length zero that is not the end holds the walk forever. -/
theorem not_ends_of_len_zero (hpos : pos < 2 ^ 32) (hin : pos < total)
    (hzero : len pos = 0) (fuel : Nat) : ends len total fuel (pos, pos) = false := by
  induction fuel with
  | zero => rfl
  | succ fuel ih =>
    have hnext : strideNext len (pos, pos) = (pos, pos) := by
      rw [strideNext, hzero, Nat.add_zero, mod_eq_of_lt hpos]
    rw [ends, hnext, if_pos hin]
    exact ih

/-! ## Records of one length -/

variable {width : Nat}

theorem Tiles.range' (hwidth : 0 < width) (n : Nat)
    (hlen : ∀ p ∈ range' pos (n + 1) width, len p = width)
    (htotal : pos + width * (n + 1) = total) : Tiles len total pos (range' pos (n + 1) width) := by
  induction n generalizing pos with
  | zero =>
    have hfirst := hlen pos (mem_singleton_self pos)
    exact .last (by omega)
  | succ n ih =>
    have hfirst := hlen pos mem_cons_self
    rw [mul_succ] at htotal
    have hrest := ih (fun p hp => hlen p (mem_cons_of_mem pos hp))
      (by omega)
    have hmore : 0 < width * (n + 1) := Nat.mul_pos hwidth (succ_pos n)
    exact .cons (by omega) (by rwa [hfirst])

theorem lt_of_visits_const (htotal : total + width ≤ 2 ^ 32) {fuel k : Nat}
    (hpos : pos + width < 2 ^ 32) {r : Nat × Nat}
    (hr : (visits (fun _ => width) total fuel (pos, pos))[k]? = some r) :
    k = 0 ∨ pos + width * k < total := by
  induction fuel generalizing pos k with
  | zero => cases hr
  | succ fuel ih =>
    cases k with
    | zero => exact .inl rfl
    | succ k =>
      have hnext : strideNext (fun _ => width) (pos, pos) = (pos + width, pos + width) := by
        rw [strideNext, mod_eq_of_lt hpos]
      rw [visits, hnext] at hr
      split_ifs at hr with hmore
      · have hk := ih (by omega) hr
        rw [mul_succ]
        rcases hk with rfl | hk <;> omega
      · cases hr

theorem getElem?_visits_const (htotal : total < 2 ^ 32) (k : Nat) (hk : pos + width * k < total) :
    (visits (fun _ => width) total (k + 1) (pos, pos))[k]? =
      some (pos + width * k, pos + width * k) := by
  induction k generalizing pos with
  | zero => rfl
  | succ k ih =>
    rw [mul_succ] at hk ⊢
    have hnext : strideNext (fun _ => width) (pos, pos) = (pos + width, pos + width) :=
      strideNext_of_inside htotal (by omega)
    rw [visits, getElem?_cons_succ, hnext, if_pos (by omega), ih (by omega),
      show pos + width + width * k = pos + (width * k + width) by omega]

end

end ServerSoc.Base
