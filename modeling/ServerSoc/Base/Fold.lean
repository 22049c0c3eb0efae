/-
Loops over a list of indices as folds.

A loop whose body leaves the state alone except at some indices does what those
indices do.  The lemmas say this for a body that acts nowhere, at one index only, or
always in the same idempotent way.
-/
import Mathlib.Data.List.Nodup

namespace ServerSoc.Base

open List

variable {α β : Type} {l : List α} {f : β → α → β}

theorem foldl_of_id (h : ∀ x ∈ l, ∀ b, f b x = b) (b : β) : l.foldl f b = b := by
  induction l with
  | nil => rfl
  | cons x l ih =>
    rw [foldl_cons, h x mem_cons_self, ih (fun y hy => h y (mem_cons_of_mem x hy))]

theorem foldl_only {x : α} (hx : x ∈ l) (hl : l.Nodup) (h : ∀ y ∈ l, y ≠ x → ∀ b, f b y = b)
    (b : β) : l.foldl f b = f b x := by
  induction l generalizing b with
  | nil => exact absurd hx not_mem_nil
  | cons y l ih =>
    rw [nodup_cons] at hl
    rw [foldl_cons]
    rcases mem_cons.mp hx with rfl | hmem
    · refine foldl_of_id (fun z hz => h z (mem_cons_of_mem x hz) ?_) _
      rintro rfl
      exact hl.1 hz
    · have hne : y ≠ x := by
        rintro rfl
        exact hl.1 hmem
      rw [h y mem_cons_self hne, ih hmem hl.2 (fun z hz => h z (mem_cons_of_mem y hz))]

/-- A loop that does the same idempotent thing at every index that qualifies. -/
theorem foldl_ite_any {p : α → Bool} {f : β → β} (hf : ∀ b, f (f b) = f b) (l : List α) (b : β) :
    l.foldl (fun b x => if p x then f b else b) b = if l.any p then f b else b := by
  induction l generalizing b with
  | nil => rfl
  | cons x l ih =>
    rw [foldl_cons, ih]
    by_cases hx : p x = true
    · simp [hx, hf]
    · simp [hx]

/-- A loop that keeps the largest value of those that qualify, or the one it starts with. -/
theorem foldl_max {p : α → Prop} [DecidablePred p] {f : α → Nat} {step : Nat → α → Nat}
    {n r : Nat} (h : l.foldl step n = r)
    (hstep : ∀ m x, step m x = if p x ∧ m < f x then f x else m) :
    n ≤ r ∧ (∀ x ∈ l, p x → f x ≤ r) ∧ (r = n ∨ ∃ x ∈ l, p x ∧ f x = r) := by
  induction l generalizing n with
  | nil => exact ⟨Nat.le_of_eq h, nofun, .inl h.symm⟩
  | cons x l ih =>
    obtain ⟨hle, hall, hone⟩ := ih h
    have hx : n ≤ step n x ∧ (p x → f x ≤ step n x) ∧ (step n x = n ∨ p x ∧ f x = step n x) := by
      rw [hstep]
      split_ifs with h
      · exact ⟨Nat.le_of_lt h.2, fun _ => Nat.le_refl _, .inr ⟨h.1, rfl⟩⟩
      · exact ⟨Nat.le_refl n, fun hp => Nat.le_of_not_lt (fun hlt => h ⟨hp, hlt⟩), .inl rfl⟩
    obtain ⟨hn, hfx, hval⟩ := hx
    refine ⟨Nat.le_trans hn hle, forall_mem_cons.mpr ⟨fun hp => ?_, hall⟩, ?_⟩
    · exact Nat.le_trans (hfx hp) hle
    · rcases hone with heq | ⟨y, hy, hpy⟩
      · rw [heq]
        exact hval.imp_right fun h => ⟨x, mem_cons_self, h⟩
      · exact .inr ⟨y, mem_cons_of_mem _ hy, hpy⟩

theorem map_getD_range (l : List α) (d : α) : (range l.length).map (fun i => l.getD i d) = l := by
  refine ext_getElem (by simp) fun i hi hi' => ?_
  rw [getElem_map, getElem_range, getD_eq_getElem?_getD,
    getElem?_eq_getElem hi', Option.getD_some]

/-- A nested loop visits nothing twice when the inner index tells the outer one. -/
theorem nodup_flatMap_of_key {f : α → List β} (key : β → α) (hl : l.Nodup)
    (hf : ∀ a ∈ l, (f a).Nodup) (hkey : ∀ a, ∀ x ∈ f a, key x = a) : (l.flatMap f).Nodup := by
  rw [nodup_flatMap]
  refine ⟨hf, hl.imp (fun {a b} hab => ?_)⟩
  intro x hxa hxb
  exact hab ((hkey a x hxa).symm.trans (hkey b x hxb))

/-- Where more fuel does not hurt, a list of runs that all end has a common fuel. -/
theorem exists_common_fuel {P : Nat → α → Prop} (hmono : ∀ n m a, n ≤ m → P n a → P m a)
    (h : ∀ a ∈ l, ∃ n, P n a) : ∃ n, ∀ a ∈ l, P n a := by
  induction l with
  | nil => exact ⟨0, fun a ha => absurd ha not_mem_nil⟩
  | cons a l ih =>
    obtain ⟨n, hn⟩ := h a mem_cons_self
    obtain ⟨m, hm⟩ := ih fun b hb => h b (mem_cons_of_mem a hb)
    refine ⟨max n m, fun b hb => ?_⟩
    rcases mem_cons.mp hb with rfl | hb
    · exact hmono n _ _ (Nat.le_max_left n m) hn
    · exact hmono m _ _ (Nat.le_max_right n m) (hm b hb)

end ServerSoc.Base
