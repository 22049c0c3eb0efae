/-
Memory with owners.

`own` says which object a word address belongs to, or that it is free.  An allocator hands out free
addresses only, so what an operation on one object leaves alone follows from the owners (`Frame`).
-/
import Mathlib.Logic.Function.Basic

namespace ServerSoc.Base

open Function

structure Heap (O : Type) where
  mem : Nat → Nat
  own : Nat → Option O

namespace Heap

variable {O : Type}

def set (h : Heap O) (a v : Nat) : Heap O := { h with mem := update h.mem a v }

def claim (h : Heap O) (p len : Nat) (o : O) : Heap O :=
  { h with own := fun a => if p ≤ a ∧ a < p + len then some o else h.own a }

def zero (h : Heap O) (p len : Nat) : Heap O :=
  { h with mem := fun a => if p ≤ a ∧ a < p + len then 0 else h.mem a }

def release (h : Heap O) (dead : O → Bool) : Heap O :=
  { h with own := fun a => (h.own a).filter (fun o => !dead o) }

def Free (h : Heap O) (p len : Nat) : Prop := ∀ a, p ≤ a → a < p + len → h.own a = none

def Owns (h : Heap O) (o : O) (p n : Nat) : Prop := ∀ i < n, h.own (p + 8 * i) = some o

/-- From `h` to `h'` no owned address changes its owner, and its word changes only in `W`. -/
structure Frame (W : Nat → Prop) (h h' : Heap O) : Prop where
  own : ∀ a o, h.own a = some o → h'.own a = some o
  mem : ∀ a, h.own a ≠ none → ¬ W a → h'.mem a = h.mem a

variable {h h' h'' : Heap O} {W W' : Nat → Prop} {p a len n : Nat} {o : O}

theorem mem_set_self (h : Heap O) (a v : Nat) : (h.set a v).mem a = v := by
  exact update_self a v h.mem

theorem mem_set_of_ne {b : Nat} (hne : b ≠ a) (v : Nat) : (h.set a v).mem b = h.mem b := by
  exact update_of_ne hne v h.mem

@[simp]
theorem mem_claim (h : Heap O) (p len : Nat) (o : O) : (h.claim p len o).mem = h.mem := rfl

@[simp]
theorem own_zero (h : Heap O) (p len : Nat) : (h.zero p len).own = h.own := rfl

theorem own_claim_inside (h1 : p ≤ a) (h2 : a < p + len) : (h.claim p len o).own a = some o :=
  if_pos ⟨h1, h2⟩

theorem mem_zero_inside (hin : p ≤ a ∧ a < p + len) : (h.zero p len).mem a = 0 :=
  if_pos hin

theorem mem_zero_outside (hout : ¬ (p ≤ a ∧ a < p + len)) : (h.zero p len).mem a = h.mem a :=
  if_neg hout

/-- From `h` to `h'` no owner changes, and words only in `W`. -/
structure Writes (W : Nat → Prop) (h h' : Heap O) : Prop where
  own : h'.own = h.own
  mem : ∀ a, ¬ W a → h'.mem a = h.mem a

theorem Writes.refl (W : Nat → Prop) (h : Heap O) : Writes W h h := ⟨rfl, fun _ _ => rfl⟩

theorem Writes.set (hw : Writes W h h') (ha : W a) (v : Nat) : Writes W h (h'.set a v) := by
  refine ⟨hw.own, fun b hb => (mem_set_of_ne ?_ v).trans (hw.mem b hb)⟩
  rintro rfl
  exact hb ha

theorem Writes.frame (hw : Writes W h h') : Frame W h h' :=
  ⟨fun _ _ ho => hw.own ▸ ho, fun a _ => hw.mem a⟩

theorem Frame.refl (W : Nat → Prop) (h : Heap O) : Frame W h h :=
  ⟨fun _ _ ho => ho, fun _ _ _ => rfl⟩

theorem Frame.trans (h1 : Frame W h h') (h2 : Frame W' h' h'')
    (hW : ∀ a, h.own a ≠ none → W' a → W a) : Frame W h h'' := by
  refine ⟨fun a o ho => h2.own a o (h1.own a o ho), fun a ho hn => ?_⟩
  obtain ⟨o, ho'⟩ := Option.ne_none_iff_exists'.mp ho
  rw [h2.mem a (by simp [h1.own a o ho']) (fun hw => hn (hW a ho hw)), h1.mem a ho hn]

theorem frame_set (ha : W a) (v : Nat) : Frame W h (h.set a v) :=
  ((Writes.refl W h).set ha v).frame

theorem Frame.set (hf : Frame W h h') (ha : W a) (v : Nat) : Frame W h (h'.set a v) :=
  hf.trans (frame_set ha v) fun _ _ hw => hw

theorem frame_claim (hfree : h.Free p len) (o : O) : Frame W h (h.claim p len o) := by
  refine ⟨fun a o' ho => ?_, fun _ _ _ => rfl⟩
  show (if p ≤ a ∧ a < p + len then some o else h.own a) = some o'
  rw [if_neg, ho]
  intro hin
  rw [hfree a hin.1 hin.2] at ho
  cases ho

theorem frame_zero_claim (hfree : h.Free p len) (o : O) :
    Frame W h ((h.claim p len o).zero p len) := by
  refine ⟨(frame_claim (W := W) hfree o).own, fun a ho _ => ?_⟩
  rw [mem_zero_outside, mem_claim]
  intro hin
  exact ho (hfree a hin.1 hin.2)

theorem Owns.frame (ho : h.Owns o p n) (hf : Frame W h h') : h'.Owns o p n :=
  fun i hi => hf.own _ _ (ho i hi)

theorem own_release {dead : O → Bool} (ho : h.own a = some o) (hdead : dead o = false) :
    (h.release dead).own a = some o := by
  show (h.own a).filter (fun o => !dead o) = some o
  rw [ho, Option.filter_some, hdead]
  rfl

theorem Owns.mem_eq (ho : h.Owns o p n) (hf : Frame W h h') {i : Nat} (hi : i < n)
    (hW : ¬ W (p + 8 * i)) : h'.mem (p + 8 * i) = h.mem (p + 8 * i) :=
  hf.mem _ (by simp [ho i hi]) hW

end Heap
end ServerSoc.Base
