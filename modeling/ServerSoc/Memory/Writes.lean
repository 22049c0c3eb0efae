/-
What a transformation of memory writes.

`Sets f reads writes` says that `f` leaves every byte outside `writes` alone and that the
bytes it puts into `writes` are determined by the bytes in `reads`.  A transformation that
reads nothing it has not set itself therefore writes into a place exactly when some memory
shows the change (`Sets.keeps_iff`).
-/
import Mathlib.Data.Set.Lattice
import ServerSoc.Memory.Bytes

namespace ServerSoc.Memory

def span (a n : Nat) : Set Nat := {x | a ≤ x ∧ x < a + n}

@[simp]
theorem mem_span {a n x : Nat} : x ∈ span a n ↔ a ≤ x ∧ x < a + n := Iff.rfl

structure Sets (f : Mem → Mem) (reads writes : Set Nat) : Prop where
  keeps : ∀ m x, x ∉ writes → f m x = m x
  sets : ∀ m m', (∀ y ∈ reads, m y = m' y) → ∀ x ∈ writes, f m x = f m' x

theorem span_lt_iff {a n bound : Nat} (hn : 0 < n) :
    (∀ x ∈ span a n, x < bound) ↔ a + n ≤ bound := by
  constructor
  · intro h
    have hlast := h (a + n - 1) ⟨by omega, by omega⟩
    omega
  · intro h x hx
    have hlt := hx.2
    omega

namespace Sets

variable {f g : Mem → Mem} {r r' s s' : Set Nat} {α : Type} {step : α → Nat → Mem → Mem}
  {w : α → Nat → Set Nat}

theorem of_id (r : Set Nat) : Sets (fun m => m) r ∅ :=
  ⟨fun _ _ _ => rfl, fun _ _ _ x hx => absurd hx (Set.notMem_empty x)⟩

section

variable (hf : Sets f r s)
include hf

/-- Memory that agrees where `f` reads agrees afterwards also where `f` writes. -/
theorem agree {m m' : Mem} (h : ∀ y ∈ r, m y = m' y) : ∀ y ∈ r ∪ s, f m y = f m' y := by
  intro y hy
  by_cases hs : y ∈ s
  · exact hf.sets m m' h y hs
  · rw [hf.keeps m y hs, hf.keeps m' y hs]
    exact h y (hy.resolve_right hs)

theorem comp (hg : Sets g r' s') (hr : r' ⊆ r ∪ s) : Sets (fun m => g (f m)) r (s ∪ s') := by
  constructor
  · intro m x hx
    rw [Set.mem_union, not_or] at hx
    rw [hg.keeps _ x hx.2, hf.keeps m x hx.1]
  · intro m m' h x hx
    have hagree := hf.agree h
    by_cases hs' : x ∈ s'
    · exact hg.sets _ _ (fun y hy => hagree y (hr hy)) x hs'
    · rw [hg.keeps _ x hs', hg.keeps _ x hs']
      exact hagree x (.inr (hx.resolve_right hs'))

theorem mono (hr : r ⊆ r') : Sets f r' s :=
  ⟨hf.keeps, fun m m' h x hx => hf.sets m m' (fun y hy => h y (hr hy)) x hx⟩

theorem congr_writes (hs : s = s') : Sets f r s' := hs ▸ hf

end

theorem of_store (a n v : Nat) (r : Set Nat) : Sets (fun m => store m a n v) r (span a n) := by
  constructor
  · intro m x hx
    exact store_outside (by rw [mem_span] at hx; omega)
  · intro m m' _ x hx
    rw [store_inside hx.1 hx.2, store_inside hx.1 hx.2]

theorem then_store (hf : Sets f r s) (a n v : Nat) :
    Sets (fun m => store (f m) a n v) r (s ∪ span a n) :=
  hf.comp (of_store a n v r) Set.subset_union_left

theorem of_store_load (a n b k : Nat) (value : Nat → Nat) :
    Sets (fun m => store m a n (value (load m b k))) (span b k) (span a n) := by
  constructor
  · intro m x hx
    exact store_outside (by rw [mem_span] at hx; omega)
  · intro m m' h x hx
    have hload : load m b k = load m' b k := load_congr fun i hi => h (b + i) ⟨by omega, by omega⟩
    simp only [hload]
    rw [store_inside hx.1 hx.2, store_inside hx.1 hx.2]

theorem foldl {step : Mem → α → Mem} {w : α → Set Nat} (h : ∀ a, Sets (fun m => step m a) r (w a))
    (l : List α) : Sets (fun m => l.foldl step m) r {x | ∃ a ∈ l, x ∈ w a} := by
  induction l with
  | nil => exact (of_id r).congr_writes (by simp)
  | cons a l ih =>
    have hstep := (h a).comp ih Set.subset_union_left
    exact hstep.congr_writes (by ext x; simp)

theorem foldl_entries (h : ∀ a p, Sets (step a p) r (w a p)) (size : Nat) (l : List α) (p : Nat) :
    Sets (fun m => (l.foldl (fun s a => (s.1 + size, step a s.1 s.2)) (p, m)).2) r
      {x | ∃ k a, l[k]? = some a ∧ x ∈ w a (p + size * k)} := by
  induction l generalizing p with
  | nil => exact (of_id r).congr_writes (by simp)
  | cons a l ih =>
    have hstep := (h a p).comp (ih (p + size)) Set.subset_union_left
    apply hstep.congr_writes
    ext x
    constructor
    · intro hx
      rcases hx with hx | hx
      · exact ⟨0, a, rfl, hx⟩
      · obtain ⟨k, b, hb, hx⟩ := hx
        refine ⟨k + 1, b, hb, ?_⟩
        rwa [Nat.mul_succ, add_comm (size * k), ← add_assoc]
    · rintro ⟨k, b, hb, hx⟩
      cases k with
      | zero =>
        cases hb
        exact .inl hx
      | succ k =>
        refine .inr ⟨k, b, hb, ?_⟩
        rwa [Nat.mul_succ, add_comm (size * k), ← add_assoc] at hx

/-- A transformation that reads only what it has set keeps the bytes from `bound` on exactly
when it writes none of them. -/
theorem keeps_iff (hf : Sets f ∅ s) (bound : Nat) :
    (∀ m x, bound ≤ x → f m x = m x) ↔ ∀ x ∈ s, x < bound := by
  constructor
  · intro h x hx
    by_contra hge
    have hsame :=
      hf.sets (fun _ => 0) (fun _ => 1) (fun y hy => absurd hy (Set.notMem_empty y)) x hx
    rw [h _ x (by omega), h _ x (by omega)] at hsame
    exact absurd hsame (by decide)
  · intro h m x hx
    apply hf.keeps m x
    intro hs
    have hlt := h x hs
    omega

/-- A table that starts with a field of `n` bytes, which is set first and which every entry may
read, followed by entries: nothing is written from `bound` on exactly when no entry does. -/
theorem table_keeps_iff {n bound : Nat} (h : ∀ a p, Sets (step a p) (span 0 n) (w a p))
    (hn : n ≤ bound) (size : Nat) (l : List α) (p v : Nat) :
    (∀ m x, bound ≤ x →
        (l.foldl (fun s a => (s.1 + size, step a s.1 s.2)) (p, store m 0 n v)).2 x = m x) ↔
      ∀ k a, l[k]? = some a → ∀ x ∈ w a (p + size * k), x < bound := by
  have hrun := (of_store 0 n v ∅).comp (foldl_entries h size l p) Set.subset_union_right
  rw [hrun.keeps_iff]
  constructor
  · intro hlt k a ha x hx
    exact hlt x (.inr ⟨k, a, ha, hx⟩)
  · intro hlt x hx
    rcases hx with hx | ⟨k, a, ha, hx⟩
    · have hfield := hx.2
      omega
    · exact hlt k a ha x hx

end Sets

end ServerSoc.Memory
