/-
Byte-addressed memory with little-endian loads and stores.

Two fields of a C structure that share bytes interfere, so everything is stated on single bytes:
`load_eq_iff` turns the value of a field into one equation per byte, and a store is a pointwise
update.
-/
import Mathlib.Data.Nat.Basic
import Mathlib.Tactic.Ring

namespace ServerSoc.Memory

open List Nat Option

abbrev Mem := Nat → UInt8

def byteOf (v i : Nat) : UInt8 := UInt8.ofNat (v / 256 ^ i)

def load (m : Mem) (a : Nat) : Nat → Nat
  | 0 => 0
  | n + 1 => (m a).toNat + 256 * load m (a + 1) n

/-- Memory with the `n` low bytes of `v` written at `a`.  The bytes of `v` above
`n` are dropped, as an assignment to a narrower field drops them. -/
def store (m : Mem) (a n v : Nat) : Mem :=
  fun x => if a ≤ x ∧ x < a + n then byteOf v (x - a) else m x

theorem byteOf_toNat (v i : Nat) : (byteOf v i).toNat = v / 256 ^ i % 256 := by
  simp [byteOf]

theorem byteOf_zero (v : Nat) : (byteOf v 0).toNat = v % 256 := by
  rw [byteOf_toNat, pow_zero, Nat.div_one]

theorem byteOf_succ (v i : Nat) : byteOf v (i + 1) = byteOf (v / 256) i := by
  unfold byteOf
  rw [Nat.pow_succ', Nat.div_div_eq_div_mul]

variable {n v i : Nat}

theorem byteOf_mod (h : i < n) : byteOf (v % 256 ^ n) i = byteOf v i := by
  induction n generalizing v i with
  | zero => exact absurd h (Nat.not_lt_zero i)
  | succ n ih =>
    have hdiv : v % 256 ^ (n + 1) / 256 = v / 256 % 256 ^ n := by
      rw [Nat.pow_succ', mod_mul_right_div_self]
    cases i with
    | zero =>
      apply UInt8.toNat_inj.mp
      rw [byteOf_zero, byteOf_zero, Nat.pow_succ', mod_mul_right_mod]
    | succ i =>
      rw [byteOf_succ, byteOf_succ, hdiv, ih (lt_of_succ_lt_succ h)]

theorem load_lt (m : Mem) (a n : Nat) : load m a n < 256 ^ n := by
  induction n generalizing a with
  | zero => simp [load]
  | succ n ih =>
    have hb := UInt8.toNat_lt (m a)
    have hr := ih (a + 1)
    rw [load]
    omega

variable {m : Mem} {x a : Nat}

theorem load_congr {m' : Mem} (h : ∀ i, i < n → m (a + i) = m' (a + i)) :
    load m a n = load m' a n := by
  induction n generalizing a with
  | zero => rfl
  | succ n ih =>
    have h0 : m a = m' a := h 0 (succ_pos n)
    have hrest : load m (a + 1) n = load m' (a + 1) n := by
      refine ih fun i hi => ?_
      rw [show a + 1 + i = a + (i + 1) by omega]
      exact h (i + 1) (by omega)
    rw [load, load, h0, hrest]

theorem byteOf_load (m : Mem) (a : Nat) (h : i < n) : byteOf (load m a n) i = m (a + i) := by
  induction n generalizing a i with
  | zero => exact absurd h (Nat.not_lt_zero i)
  | succ n ih =>
    have hb := UInt8.toNat_lt (m a)
    cases i with
    | zero =>
      apply UInt8.toNat_inj.mp
      rw [byteOf_zero, load]
      show _ = (m a).toNat
      omega
    | succ i =>
      have hdiv : load m a (n + 1) / 256 = load m (a + 1) n := by
        rw [load]
        omega
      rw [byteOf_succ, hdiv, ih (a + 1) (lt_of_succ_lt_succ h)]
      congr 1
      omega

theorem eq_of_byteOf_eq {w : Nat} (hv : v < 256 ^ n) (hw : w < 256 ^ n)
    (h : ∀ i, i < n → byteOf v i = byteOf w i) : v = w := by
  induction n generalizing v w with
  | zero =>
    have hv0 : v = 0 := by simpa using hv
    have hw0 : w = 0 := by simpa using hw
    rw [hv0, hw0]
  | succ n ih =>
    have hlow : v % 256 = w % 256 := by
      have h0 := congrArg UInt8.toNat (h 0 (succ_pos n))
      rwa [byteOf_zero, byteOf_zero] at h0
    have hhigh : v / 256 = w / 256 := by
      refine ih (by omega) (by omega) fun i hi => ?_
      have hs := h (i + 1) (by omega)
      rwa [byteOf_succ, byteOf_succ] at hs
    omega

theorem load_eq_iff (hv : v < 256 ^ n) : load m a n = v ↔ ∀ i, i < n → m (a + i) = byteOf v i := by
  constructor
  · intro h i hi
    rw [← h, byteOf_load m a hi]
  · intro h
    refine eq_of_byteOf_eq (load_lt m a n) hv fun i hi => ?_
    rw [byteOf_load m a hi, h i hi]

theorem store_inside (h1 : a ≤ x) (h2 : x < a + n) :
    store m a n v x = byteOf v (x - a) := if_pos ⟨h1, h2⟩

theorem store_outside (h : x < a ∨ a + n ≤ x) : store m a n v x = m x := if_neg (by omega)

theorem load_store_self (m : Mem) (a n v : Nat) : load (store m a n v) a n = v % 256 ^ n := by
  refine (load_eq_iff (mod_lt v (Nat.pow_pos (by omega)))).mpr fun i hi => ?_
  rw [store_inside (by omega) (by omega), byteOf_mod hi]
  congr 1
  omega

theorem load_store_of_disjoint {b k : Nat} (h : a + n ≤ b ∨ b + k ≤ a) :
    load (store m b k v) a n = load m a n :=
  load_congr fun i hi => store_outside (by omega)

theorem load_add (m : Mem) (a n k : Nat) :
    load m a (n + k) = load m a n + 256 ^ n * load m (a + n) k := by
  induction n generalizing a with
  | zero => simp [load]
  | succ n ih =>
    rw [succ_add, load, load, ih (a + 1), show a + 1 + n = a + (n + 1) by omega]
    ring

/-! ## Memory that need not keep what is written -/

/-- A store where `f x new old` becomes of the byte at `x`. -/
def storeWith (f : Nat → UInt8 → UInt8 → UInt8) (m : Mem) (a n v : Nat) : Mem :=
  fun x => if a ≤ x ∧ x < a + n then f x (byteOf v (x - a)) (m x) else m x

section

variable {f : Nat → UInt8 → UInt8 → UInt8}

theorem storeWith_inside (h1 : a ≤ x) (h2 : x < a + n) :
    storeWith f m a n v x = f x (byteOf v (x - a)) (m x) := if_pos ⟨h1, h2⟩

theorem storeWith_outside (h : x < a ∨ a + n ≤ x) : storeWith f m a n v x = m x :=
  if_neg (by omega)

theorem storeWith_mod (f : Nat → UInt8 → UInt8 → UInt8) (m : Mem) (a n v : Nat) :
    storeWith f m a n (v % 256 ^ n) = storeWith f m a n v := by
  funext x
  by_cases hx : a ≤ x ∧ x < a + n
  · rw [storeWith_inside hx.1 hx.2, storeWith_inside hx.1 hx.2, byteOf_mod (by omega)]
  · rw [storeWith_outside (by omega), storeWith_outside (by omega)]

theorem storeWith_add (f : Nat → UInt8 → UInt8 → UInt8) (m : Mem) (a n k v : Nat) :
    storeWith f (storeWith f m a n v) (a + n) k (v / 256 ^ n) = storeWith f m a (n + k) v := by
  funext x
  by_cases h1 : a + n ≤ x ∧ x < a + n + k
  · rw [storeWith_inside h1.1 h1.2, storeWith_outside (by omega),
      storeWith_inside (by omega) (by omega), byteOf, byteOf, Nat.div_div_eq_div_mul, ← pow_add,
      show n + (x - (a + n)) = x - a by omega]
  · rw [storeWith_outside (by omega)]
    by_cases h2 : a ≤ x ∧ x < a + n
    · rw [storeWith_inside h2.1 h2.2, storeWith_inside h2.1 (by omega)]
    · rw [storeWith_outside (by omega), storeWith_outside (by omega)]

end

/-! ## Structures as lists of fields

A structure assigned field by field is a list of fields stored one after the
other.  When the fields do not overlap, the byte found at an offset is the byte
of the one field that covers it. -/

structure Field where
  off : Nat
  len : Nat
  val : Nat
  deriving DecidableEq, Repr

namespace Field

def covers (f : Field) (r : Nat) : Prop := f.off ≤ r ∧ r < f.off + f.len

instance (f : Field) (r : Nat) : Decidable (f.covers r) := inferInstanceAs (Decidable (_ ∧ _))

def Disjoint (f g : Field) : Prop := f.off + f.len ≤ g.off ∨ g.off + g.len ≤ f.off

instance (f g : Field) : Decidable (f.Disjoint g) := inferInstanceAs (Decidable (_ ∨ _))

end Field

def storeFields (m : Mem) (base : Nat) (fs : List Field) : Mem :=
  fs.foldl (fun m f => store m (base + f.off) f.len f.val) m

/-- The byte a list of fields puts at offset `r`, if some field covers it. -/
def fieldByte (fs : List Field) (r : Nat) : Option UInt8 :=
  (fs.find? (fun f => decide (f.covers r))).map fun f => byteOf f.val (r - f.off)

variable {r : Nat} {f : Field}

theorem fieldByte_cons_of_covers (fs : List Field) (h : f.covers r) :
    fieldByte (f :: fs) r = some (byteOf f.val (r - f.off)) := by
  simp [fieldByte, h]

theorem fieldByte_cons_of_not_covers (fs : List Field) (h : ¬ f.covers r) :
    fieldByte (f :: fs) r = fieldByte fs r := by
  simp [fieldByte, h]

variable {fs : List Field} {ws : List Write}

theorem fieldByte_eq_none (h : ∀ f ∈ fs, ¬ f.covers r) : fieldByte fs r = none := by
  induction fs with
  | nil => rfl
  | cons f fs ih =>
    rw [fieldByte_cons_of_not_covers fs (h f mem_cons_self),
      ih (fun g hg => h g (mem_cons_of_mem f hg))]

theorem fieldByte_of_mem (hd : fs.Pairwise Field.Disjoint) (hf : f ∈ fs) (hr : f.covers r) :
    fieldByte fs r = some (byteOf f.val (r - f.off)) := by
  induction fs with
  | nil => exact absurd hf not_mem_nil
  | cons g fs ih =>
    rw [pairwise_cons] at hd
    rcases mem_cons.mp hf with rfl | hmem
    · exact fieldByte_cons_of_covers fs hr
    · have hng : ¬ g.covers r := by
        intro hg
        have hdis := hd.1 f hmem
        unfold Field.covers at hg hr
        unfold Field.Disjoint at hdis
        omega
      rw [fieldByte_cons_of_not_covers fs hng, ih hd.2 hmem]

theorem storeFields_below {base : Nat} (h : x < base) : storeFields m base fs x = m x := by
  induction fs generalizing m with
  | nil => rfl
  | cons f fs ih =>
    exact ih.trans (store_outside (by omega))

theorem storeFields_apply (hd : fs.Pairwise Field.Disjoint) (m : Mem) (base r : Nat) :
    storeFields m base fs (base + r) = (fieldByte fs r).getD (m (base + r)) := by
  induction fs generalizing m with
  | nil => rfl
  | cons f fs ih =>
    rw [pairwise_cons] at hd
    have hstep : storeFields m base (f :: fs) (base + r)
        = (fieldByte fs r).getD (store m (base + f.off) f.len f.val (base + r)) :=
      ih hd.2 (store m (base + f.off) f.len f.val)
    rw [hstep]
    by_cases hc : f.covers r
    · have hrest : fieldByte fs r = none := by
        refine fieldByte_eq_none fun g hg hgr => ?_
        have hdis := hd.1 g hg
        unfold Field.covers at hc hgr
        unfold Field.Disjoint at hdis
        omega
      have hc' := hc
      unfold Field.covers at hc'
      rw [fieldByte_cons_of_covers fs hc, hrest, getD_none,
        store_inside (by omega) (by omega)]
      congr 1
      omega
    · have hc' := hc
      unfold Field.covers at hc'
      rw [fieldByte_cons_of_not_covers fs hc, store_outside (by omega)]

/-! ## Writes one over the other

A write is the partial function from addresses to the bytes it leaves.  Of several
writes to one address the last one stays. -/

abbrev Write := Nat → Option UInt8

def overlay (m : Mem) (ws : List Write) : Mem := ws.foldl (fun m w x => (w x).getD (m x)) m

theorem overlay_cons (m : Mem) (w : Write) (ws : List Write) :
    overlay m (w :: ws) = overlay (fun x => (w x).getD (m x)) ws := rfl

theorem overlay_of_none (h : ∀ w ∈ ws, w x = none) : overlay m ws x = m x := by
  induction ws generalizing m with
  | nil => rfl
  | cons w ws ih =>
    rw [overlay_cons, ih (fun w' hw' => h w' (mem_cons_of_mem w hw')),
      h w mem_cons_self, getD_none]

theorem overlay_last {b : UInt8} (hi : i < ws.length) (hb : ws[i] x = some b)
    (hlater : ∀ j (hj : j < ws.length), i < j → ws[j] x = none) : overlay m ws x = b := by
  induction ws generalizing m i with
  | nil => exact absurd hi (Nat.not_lt_zero i)
  | cons w ws ih =>
    rw [overlay_cons]
    cases i with
    | zero =>
      have hrest : ∀ w' ∈ ws, w' x = none := by
        intro w' hw'
        obtain ⟨j, hj, rfl⟩ := getElem_of_mem hw'
        exact hlater (j + 1) (by simpa using hj) (succ_pos j)
      have hw : w x = some b := hb
      rw [overlay_of_none hrest, hw, getD_some]
    | succ i =>
      refine ih (by simpa using hi) hb fun j hj hij => ?_
      exact hlater (j + 1) (by simpa using hj) (by omega)

end ServerSoc.Memory
