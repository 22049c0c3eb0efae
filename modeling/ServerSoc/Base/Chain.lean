/-
Linked lists in memory, ended by address zero.

`walk` finds the first record with `p` on a list that ends, whatever fuel beyond its length it is
given, and never returns on a list that neither ends nor has such a record.
-/
import Mathlib.Data.List.Basic
import Mathlib.Data.List.Chain

namespace ServerSoc.Base

open List

/-- The records from address `o` on are `l`, and the list ends behind them. -/
inductive Chain (next : Nat → Nat) : Nat → List Nat → Prop
  | nil : Chain next 0 []
  | cons {o : Nat} {l : List Nat} : o ≠ 0 → Chain next (next o) l → Chain next o (o :: l)

/-- Record `o'` is on the list from `o` on, which may be endless. -/
inductive OnChain (next : Nat → Nat) : Nat → Nat → Prop
  | here {o : Nat} : o ≠ 0 → OnChain next o o
  | there {o o' : Nat} : o ≠ 0 → OnChain next (next o) o' → OnChain next o o'

/-- `some none` is a search that came to the end, `none` one the fuel did not end. -/
def walk (next : Nat → Nat) (p : Nat → Bool) : Nat → Nat → Option (Option Nat)
  | 0, _ => none
  | fuel + 1, o =>
    if o = 0 then some none
    else if p o then some (some o)
    else walk next p fuel (next o)

variable {next : Nat → Nat} {p : Nat → Bool} {o fuel o' fuel' : Nat} {l : List Nat} {r : Option Nat}

theorem Chain.unique {l' : List Nat} (h : Chain next o l) (h' : Chain next o l') : l = l' := by
  induction h generalizing l' with
  | nil =>
    cases h' with
    | nil => rfl
    | cons hne _ => exact absurd rfl hne
  | cons hne _ ih =>
    cases h' with
    | nil => exact absurd rfl hne
    | cons _ hrest => rw [ih hrest]

theorem Chain.congr {next' : Nat → Nat} {start : Nat} (hl : Chain next start l)
    (h : ∀ x ∈ l, next' x = next x) : Chain next' start l := by
  induction hl with
  | nil => exact .nil
  | cons hne _ ih =>
    refine .cons hne ?_
    rw [h _ List.mem_cons_self]
    exact ih fun x hx => h x (List.mem_cons_of_mem _ hx)

theorem walk_of_chain (h : Chain next o l) (hf : l.length < fuel) :
    walk next p fuel o = some (l.find? p) := by
  induction h generalizing fuel with
  | nil =>
    obtain ⟨fuel, rfl⟩ := Nat.exists_eq_succ_of_ne_zero (Nat.ne_of_gt hf)
    rfl
  | cons hne _ ih =>
    obtain ⟨fuel, rfl⟩ := Nat.exists_eq_succ_of_ne_zero (Nat.ne_of_gt (Nat.zero_lt_of_lt hf))
    rw [walk, if_neg hne]
    split_ifs with hp
    · rw [List.find?_cons_of_pos hp]
    · rw [List.find?_cons_of_neg hp, ih (by simpa using hf)]

theorem walk_mono (h : walk next p fuel o = some r) (hle : fuel ≤ fuel') :
    walk next p fuel' o = some r := by
  induction fuel generalizing fuel' o with
  | zero => cases h
  | succ fuel ih =>
    obtain ⟨fuel', rfl⟩ := Nat.exists_eq_add_of_le hle
    rw [show fuel + 1 + fuel' = (fuel + fuel') + 1 by omega]
    rw [walk] at h ⊢
    split at h
    · rename_i h0
      rw [if_pos h0, h]
    · rename_i h0
      rw [if_neg h0]
      split_ifs at h with hp
      · rw [if_pos hp, h]
      · rw [if_neg hp, ih h (Nat.le_add_right fuel fuel')]

theorem walk_unique {r' : Option Nat} (h : walk next p fuel o = some r)
    (h' : walk next p fuel' o = some r') : r = r' := by
  have hmax := walk_mono h (Nat.le_max_left fuel fuel')
  rw [walk_mono h' (Nat.le_max_right fuel fuel'), Option.some_inj] at hmax
  exact hmax.symm

theorem walk_found (h : walk next p fuel o = some (some o')) : OnChain next o o' ∧ p o' = true := by
  induction fuel generalizing o with
  | zero => cases h
  | succ fuel ih =>
    rw [walk] at h
    split_ifs at h with h0 hp
    · cases h
    · cases h
      exact ⟨.here h0, hp⟩
    · obtain ⟨hon, hp⟩ := ih h
      exact ⟨.there h0 hon, hp⟩

theorem walk_absent (h : walk next p fuel o = some none) (hon : OnChain next o o') :
    p o' = false := by
  induction hon generalizing fuel with
  | here h0 =>
    cases fuel with
    | zero => cases h
    | succ fuel =>
      rw [walk, if_neg h0] at h
      split_ifs at h with hp
      · cases h
      · simpa using hp
  | there h0 _ ih =>
    cases fuel with
    | zero => cases h
    | succ fuel =>
      rw [walk, if_neg h0] at h
      split at h
      · cases h
      · exact ih h

theorem exists_chain_of_walk (h : walk next p fuel o = some none) : ∃ l, Chain next o l := by
  induction fuel generalizing o with
  | zero => cases h
  | succ fuel ih =>
    rw [walk] at h
    split_ifs at h with h0
    · subst h0
      exact ⟨[], .nil⟩
    · cases h
    · obtain ⟨l, hl⟩ := ih h
      exact ⟨o :: l, .cons h0 hl⟩

theorem exists_walk_of_onChain (hon : OnChain next o o') (hp : p o' = true) :
    ∃ fuel r, walk next p fuel o = some r := by
  induction hon with
  | here h0 => exact ⟨1, _, by rw [walk, if_neg h0, if_pos hp]⟩
  | there h0 _ ih =>
    rename_i o _ _
    obtain ⟨fuel, r, hr⟩ := ih hp
    by_cases hpo : p o = true
    · exact ⟨1, _, by rw [walk, if_neg h0, if_pos hpo]⟩
    · exact ⟨fuel + 1, r, by rw [walk, if_neg h0, if_neg hpo, hr]⟩

/-- A search ends when the list does or has what is searched for. -/
theorem walk_ends_iff :
    (∃ fuel r, walk next p fuel o = some r) ↔
      (∃ o', OnChain next o o' ∧ p o' = true) ∨ ∃ l, Chain next o l := by
  constructor
  · rintro ⟨fuel, r, h⟩
    cases r with
    | none => exact .inr (exists_chain_of_walk h)
    | some o' => exact .inl ⟨o', walk_found h⟩
  · rintro (⟨o', hon, hp⟩ | ⟨l, hl⟩)
    · exact exists_walk_of_onChain hon hp
    · exact ⟨l.length + 1, _, walk_of_chain hl (Nat.lt_succ_self _)⟩

/-- A record that points to itself and is not searched for is never left. -/
theorem walk_stuck (h0 : o ≠ 0) (hnext : next o = o) (hp : p o = false) (fuel : Nat) :
    walk next p fuel o = none := by
  induction fuel with
  | zero => rfl
  | succ fuel ih =>
    rw [walk, if_neg h0, hp, if_neg (by decide), hnext, ih]

/-! ## Lists made by nested counting loops

`(range n).flatMap f` is what a loop over `0 .. n - 1` visits when its body visits
`f i`.  A relation links the elements of such a list when it links them inside every round
and from the end of a round to the start of the next. -/

section

variable {α : Type} {R : α → α → Prop} {f : Nat → List α} {n : Nat}

theorem head?_flatMap_range (h : f 0 ≠ []) : ((range (n + 1)).flatMap f).head? = (f 0).head? := by
  rw [range_succ_eq_map, flatMap_cons, head?_append_of_ne_nil _ h]

theorem getLast?_flatMap_range (h : f n ≠ []) :
    ((range (n + 1)).flatMap f).getLast? = (f n).getLast? := by
  rw [range_succ, flatMap_append, flatMap_singleton, getLast?_append_of_ne_nil _ h]

theorem isChain_flatMap_range (h : ∀ i < n, f i ≠ []) :
    ((range n).flatMap f).IsChain R ↔ (∀ i < n, (f i).IsChain R) ∧
      ∀ i, i + 1 < n → ∀ x ∈ (f i).getLast?, ∀ y ∈ (f (i + 1)).head?, R x y := by
  induction n with
  | zero => simp
  | succ n ih =>
    rw [range_succ, flatMap_append, flatMap_singleton, isChain_append,
      ih (fun i hi => h i (by omega))]
    constructor
    · rintro ⟨⟨hall, hlink⟩, hn, hlast⟩
      refine ⟨fun i hi => ?_, fun i hi => ?_⟩
      · rcases Nat.lt_succ_iff_lt_or_eq.mp hi with hi | rfl
        · exact hall i hi
        · exact hn
      · rcases Nat.lt_succ_iff_lt_or_eq.mp hi with hi | rfl
        · exact hlink i hi
        · rw [getLast?_flatMap_range (h i (by omega))] at hlast
          exact hlast
    · rintro ⟨hall, hlink⟩
      refine ⟨⟨fun i hi => hall i (by omega), fun i hi => hlink i (by omega)⟩,
        hall n (Nat.lt_succ_self n), ?_⟩
      cases n with
      | zero => simp
      | succ n =>
        rw [getLast?_flatMap_range (h n (by omega))]
        exact hlink n (Nat.lt_succ_self _)

end

/-- Going on with `next` until it gives zero visits `rest`, step by step. -/
theorem chain_iff_isChain {next : Nat → Nat} {a : Nat} {rest : List Nat} :
    Chain next (next a) rest ↔
      (a :: rest).IsChain (fun x y => next x = y ∧ y ≠ 0) ∧
        ∀ x ∈ (a :: rest).getLast?, next x = 0 := by
  induction rest generalizing a with
  | nil =>
    simp only [isChain_singleton, getLast?_singleton, Option.mem_def, Option.some.injEq,
      forall_eq', true_and]
    constructor
    · intro h
      generalize next a = o at h
      cases h
      rfl
    · intro h
      rw [h]
      exact .nil
  | cons b rest ih =>
    rw [isChain_cons_cons, getLast?_cons_cons, and_assoc, ← ih]
    constructor
    · intro h
      generalize ho : next a = o at h
      cases h with
      | cons hne hrest => exact ⟨⟨rfl, hne⟩, hrest⟩
    · rintro ⟨⟨hab, hne⟩, hrest⟩
      rw [hab]
      exact .cons hne hrest

end ServerSoc.Base
