/-
Aligned memory, the printing of numbers and the copy of strings in the platform layers (pal_misc.c).

The UEFI layer keeps the address of a pool block in front of the aligned one, for which it has made
no room, and reads one digit too many when it prints.  The bare-metal layer prints as it should,
but its bounded copy of a string writes a terminator beyond the bound.
-/
import Mathlib.Tactic.NormNum
import ServerSoc.Base.Bits
import ServerSoc.Memory.Bytes

namespace ServerSoc.Pal

open Base Memory Nat List Function

/-! ## Aligned memory -/

def poolSize (alignment size : Nat) : Nat := (size + alignment) % 2 ^ 32

def palAlignedAlloc (alignment mem : Nat) (m : Mem) : Nat × Mem :=
  let alignedPtr := (mem + alignment - 1) % 2 ^ 64 &&& (2 ^ 64 - alignment)
  (alignedPtr, store m (alignedPtr - 8) 8 mem)

def palMemFreeAligned (m : Mem) (buffer : Nat) : Nat := load m (buffer - 8) 8

structure AllocOk (alignment size mem : Nat) (r : Nat × Mem) : Prop where
  aligned : alignment ∣ r.1
  inside : mem ≤ r.1 ∧ r.1 + size ≤ mem + poolSize alignment size
  slot : mem + 8 ≤ r.1
  freed : palMemFreeAligned r.2 r.1 = mem

/-- A block is right exactly when the pool block was not aligned already and the sum of the sizes is
a 32-bit number. -/
theorem palAlignedAlloc_ok_iff {k size mem : Nat} (hk : 3 ≤ k ∧ k < 32) (hmem : mem % 8 = 0)
    (hsize : size < 2 ^ 32) (hend : mem + poolSize (2 ^ k) size ≤ 2 ^ 64) (m : Mem) :
    AllocOk (2 ^ k) size mem (palAlignedAlloc (2 ^ k) mem m) ↔
      mem % 2 ^ k ≠ 0 ∧ size + 2 ^ k < 2 ^ 32 := by
  have hpos : 2 ^ 3 ≤ 2 ^ k := Nat.pow_le_pow_right (by decide) hk.1
  have hlt : 2 ^ k < 2 ^ 32 := Nat.pow_lt_pow_right (by decide) hk.2
  have h8 := Nat.pow_dvd_pow 2 hk.1
  rw [poolSize] at hend
  by_cases hfit : size + 2 ^ k < 2 ^ 32
  · have hptr : (palAlignedAlloc (2 ^ k) mem m).1 = (mem + 2 ^ k - 1) / 2 ^ k * 2 ^ k := by
      rw [palAlignedAlloc, mod_eq_of_lt (by omega), and_not_low (by omega) (by omega)]
    have hdiv := div_add_mod' mem (2 ^ k)
    rw [and_iff_left hfit]
    constructor
    · intro h hzero
      have hslot := h.slot
      rw [hptr, show mem + 2 ^ k - 1 = 2 ^ k - 1 + mem / 2 ^ k * 2 ^ k by omega,
        add_mul_div_right _ _ (by omega), div_eq_of_lt (by omega), zero_add] at hslot
      omega
    · intro hne
      have hmod := mod_lt mem (show 0 < 2 ^ k by omega)
      have hup : (palAlignedAlloc (2 ^ k) mem m).1 = mem / 2 ^ k * 2 ^ k + 2 ^ k := by
        rw [hptr, show mem + 2 ^ k - 1 = mem % 2 ^ k - 1 + (mem / 2 ^ k + 1) * 2 ^ k by
          rw [succ_mul]; omega, add_mul_div_right _ _ (by omega), div_eq_of_lt (by omega), zero_add,
          succ_mul]
      have h8mod : mem % 2 ^ k % 8 = 0 := by rw [mod_mod_of_dvd _ h8, hmem]
      refine ⟨hptr ▸ Nat.dvd_mul_left _ _, ?_, ?_, ?_⟩
      · rw [poolSize]
        omega
      · omega
      · exact (load_store_self ..).trans (mod_eq_of_lt (by omega))
  · refine iff_of_false (fun h => ?_) (fun h => hfit h.2)
    have hin := h.inside
    rw [poolSize] at hin
    omega

theorem palAlignedAlloc_ok_unaligned :
    0x1008 % 2 ^ 4 ≠ 0 ∧ AllocOk (2 ^ 4) 32 0x1008 (palAlignedAlloc (2 ^ 4) 0x1008 fun _ => 0) :=
  ⟨by decide, (palAlignedAlloc_ok_iff (by decide) (by decide) (by decide) (by decide)
    _).mpr (by decide)⟩

/-- The slot for the pool address is in front of the pool block. -/
theorem palAlignedAlloc_slot_outside :
    (palAlignedAlloc (2 ^ 4) 0x1000 fun _ => 0).1 = 0x1000 ∧
      ¬ AllocOk (2 ^ 4) 32 0x1000 (palAlignedAlloc (2 ^ 4) 0x1000 fun _ => 0) :=
  ⟨by decide, fun h => absurd h.slot (by decide)⟩

/-! ## Raw printing -/

/-- The variables of `pal_print_raw`, the characters written so far and the indices at which
`buffer` was accessed.  No index comes near the end of its type `INT8`. -/
structure Raw where
  data : Nat
  i : Int := 0
  buffer : Int → Nat
  out : List Char := []
  accesses : List Int := []

/-- One turn of the loops that store the digits, the last one first. -/
def putDigit (radix : Nat) (digit : Nat → Nat) (s : Raw) : Raw where
  data := s.data / radix
  i := s.i + 1
  buffer := Function.update s.buffer s.i (digit (s.data % radix))
  out := s.out
  accesses := s.accesses ++ [s.i]

def putDigits (radix : Nat) (digit : Nat → Nat) : Nat → Raw → Raw
  | 0, s => s
  | turns + 1, s =>
    if s.data = 0 then s else putDigits radix digit turns (putDigit radix digit s)

/-- `while (i >= 0)`, with the turns it has. -/
def writeDigits : Nat → Raw → Raw
  | 0, s => s
  | turns + 1, s => writeDigits turns
      { s with
        i := s.i - 1
        out := s.out ++ [Char.ofNat (s.buffer (s.i - 1))]
        accesses := s.accesses ++ [s.i - 1] }

def storeNumber (c : Char) (s : Raw) : Raw :=
  if c = 'd' then putDigits 10 (· + 48) s.data s
  else if c = 'x' ∨ c = 'X' then putDigits 16 (fun j => j + if 9 < j then 55 else 48) s.data s
  else s

def writeNumber (s : Raw) : Raw :=
  if 0 < s.i then writeDigits (s.i + 1).toNat s else { s with out := s.out ++ ['0'] }

/-- The string is read to its end; a `%` is not its last character. -/
def palPrintRaw : List Char → Raw → Raw
  | [], s => s
  | '%' :: c :: rest, s => palPrintRaw rest (writeNumber (storeNumber c s))
  | c :: rest, s => palPrintRaw rest { s with out := s.out ++ [c] }

/-- The digits of the value stand for the conversion, and no access is outside the 16 bytes. -/
structure PrintsRaw (before after : List Char) (radix data : Nat) (s : Raw) : Prop where
  out : s.out = before ++ (Nat.toDigits radix data).map Char.toUpper ++ after
  inside : ∀ i ∈ s.accesses, 0 ≤ i ∧ i < 16

theorem palPrintRaw_append {before : List Char} (h : '%' ∉ before) (rest : List Char) (s : Raw) :
    palPrintRaw (before ++ rest) s = palPrintRaw rest { s with out := s.out ++ before } := by
  induction before generalizing s with
  | nil => simp
  | cons c before ih =>
    rw [mem_cons, not_or] at h
    have hc : palPrintRaw (c :: (before ++ rest)) s =
        palPrintRaw (before ++ rest) { s with out := s.out ++ [c] } := by
      rw [palPrintRaw]
      rintro c' l rfl
      exact absurd rfl h.1
    rw [cons_append, hc, ih h.2]
    simp

theorem le_putDigits (radix : Nat) (digit : Nat → Nat) (turns : Nat) (s : Raw) :
    s.i ≤ (putDigits radix digit turns s).i := by
  induction turns generalizing s with
  | zero => exact le_rfl
  | succ turns ih =>
    rw [putDigits]
    split_ifs
    · exact le_rfl
    · exact (Int.le_add_one le_rfl).trans (ih (putDigit radix digit s))

theorem putDigits_pos {s : Raw} (hdata : s.data ≠ 0) (hi : s.i = 0) (radix : Nat)
    (digit : Nat → Nat) : 0 < (putDigits radix digit s.data s).i := by
  obtain ⟨turns, hturns⟩ := exists_eq_succ_of_ne_zero hdata
  have hle := le_putDigits radix digit turns (putDigit radix digit s)
  rw [hturns, putDigits, if_neg hdata]
  exact lt_of_lt_of_le (show 0 < s.i + 1 by omega) hle

theorem mem_accesses_writeDigits (turns : Nat) (s : Raw) {i : Int}
    (h : i ∈ s.accesses ∨ s.i - turns ≤ i ∧ i < s.i) : i ∈ (writeDigits turns s).accesses := by
  induction turns generalizing s with
  | zero => exact h.resolve_right (by omega)
  | succ turns ih =>
    refine ih _ ?_
    rw [mem_append, mem_singleton]
    rcases h with h | h
    · exact .inl (.inl h)
    · by_cases hi : i = s.i - 1
      · exact .inl (.inr hi)
      · exact .inr ⟨by dsimp only; omega, by dsimp only; omega⟩

/-- Only zero is printed right: with a digit in it, the buffer is read in front of its start. -/
theorem palPrintRaw_iff {before after : List Char} (hb : '%' ∉ before) (ha : '%' ∉ after)
    {c : Char} {radix : Nat} (hc : c = 'd' ∧ radix = 10 ∨ c = 'x' ∧ radix = 16) (data : Nat)
    (buffer : Int → Nat) :
    PrintsRaw before after radix data
      (palPrintRaw (before ++ '%' :: c :: after) { data, buffer }) ↔ data = 0 := by
  have hend := palPrintRaw_append ha []
  simp only [append_nil] at hend
  rw [palPrintRaw_append hb, palPrintRaw, hend]
  constructor
  · intro h
    by_contra hdata
    have hpos : 0 < (storeNumber c { data, buffer, out := before }).i := by
      rcases hc with ⟨rfl, -⟩ | ⟨rfl, -⟩ <;> exact putDigits_pos hdata rfl _ _
    have hin : -1 ∈ (writeNumber (storeNumber c { data, buffer, out := before })).accesses := by
      rw [writeNumber, if_pos hpos]
      exact mem_accesses_writeDigits _ _ (.inr ⟨by omega, by omega⟩)
    exact absurd (h.inside _ hin).1 (by decide)
  · rintro rfl
    rcases hc with ⟨rfl, rfl⟩ | ⟨rfl, rfl⟩ <;> exact ⟨rfl, nofun⟩

theorem palPrintRaw_zero :
    PrintsRaw [] [] 10 0 (palPrintRaw ['%', 'd'] ⟨0, 0, fun _ => 0, [], []⟩) :=
  (palPrintRaw_iff not_mem_nil not_mem_nil (.inl ⟨rfl, rfl⟩) 0 _).mpr rfl

theorem palPrintRaw_seven :
    (palPrintRaw ['%', 'd'] ⟨7, 0, fun _ => 0, [], []⟩).accesses = [0, 0, -1] := by decide

/-! ## Console printing -/

def digitChar (rem : Nat) : Char := Char.ofNat (if rem < 0xA then 48 + rem else 97 + (rem - 0xA))

/-- The loop that fills `num_buf`; the value gets smaller in every turn. -/
def numBuf (radix : Nat) : Nat → Nat → List Char
  | 0, _ => []
  | turns + 1, unum =>
    digitChar (unum % radix) :: if 0 < unum / radix then numBuf radix turns (unum / radix) else []

def padding (padc : Char) (i : Nat) : Nat → List Char
  | 0 => []
  | padn + 1 => if i < padn + 1 then padc :: padding padc i padn else []

def unsignedNumPrint (unum radix : Nat) (padc : Char) (padn : Int) : List Char × Nat :=
  if radix < 10 then ([], 0)
  else
    let buf := numBuf radix (unum + 1) unum
    let pad := padding padc buf.length padn.toNat
    (pad ++ buf.reverse, pad.length + buf.length)

def digitValue (c : Char) : Nat := if c.toNat < 97 then c.toNat - 48 else c.toNat - 97 + 10

def readDigits (radix : Nat) (s : List Char) : Nat :=
  s.foldl (fun v c => v * radix + digitValue c) 0

/-- `s` is the value in this radix, without leading zeros. -/
structure IsNumeral (radix unum : Nat) (s : List Char) : Prop where
  digits : s = Nat.toDigits radix unum
  value : readDigits radix s = unum
  lead : s.head? = some '0' → s = ['0']

theorem digitChar_spec {rem : Nat} (h : rem < 16) :
    digitChar rem = Nat.digitChar rem ∧ digitValue (digitChar rem) = rem := by
  revert rem
  decide

theorem padding_eq (padc : Char) (i padn : Nat) :
    padding padc i padn = replicate (padn - i) padc := by
  induction padn with
  | zero => simp [padding]
  | succ padn ih =>
    rw [padding, ih]
    split_ifs with h
    · rw [show padn + 1 - i = padn - i + 1 by omega, replicate_succ]
    · rw [show padn + 1 - i = 0 by omega, replicate_zero]

theorem numBuf_spec {radix : Nat} (hradix : 1 < radix ∧ radix ≤ 16) {turns unum : Nat}
    (h : unum < turns) :
    IsNumeral radix unum (numBuf radix turns unum).reverse ∧
      ∀ k, unum < radix ^ (k + 1) → (numBuf radix turns unum).length ≤ k + 1 := by
  induction turns generalizing unum with
  | zero => omega
  | succ turns ih =>
    have hrem := mod_lt unum (show 0 < radix by omega)
    have hdiv := div_add_mod' unum radix
    obtain ⟨hchar, hdigit⟩ := digitChar_spec (hrem.trans_le hradix.2)
    rw [numBuf]
    split_ifs with hpos
    · have hlt := Nat.div_lt_self (pos_of_div_pos hpos) hradix.1
      obtain ⟨⟨hdigits, hvalue, hlead⟩, hlen⟩ := ih (show unum / radix < turns by omega)
      generalize numBuf radix turns (unum / radix) = buf at *
      have hne : buf ≠ [] := by
        rintro rfl
        exact hpos.ne hvalue
      refine ⟨⟨?_, ?_, fun hzero => ?_⟩, fun k hk => ?_⟩
      · rw [toDigits_eq_if hradix.1, if_neg (fun h => hpos.ne' (div_eq_of_lt h)),
          reverse_cons, hdigits, hchar]
      · rw [reverse_cons, readDigits, foldl_append, ← readDigits, hvalue]
        simpa [hdigit] using hdiv
      · obtain ⟨x, l, hbuf⟩ := exists_cons_of_ne_nil (reverse_ne_nil_iff.mpr hne)
        rw [reverse_cons] at hzero
        rw [hlead (hbuf ▸ hzero), readDigits, foldl_cons, zero_mul] at hvalue
        exact absurd hvalue hpos.ne
      · rcases k with _ | k
        · rw [pow_one] at hk
          rw [div_eq_of_lt hk] at hpos
          exact absurd hpos (by decide)
        · exact succ_le_succ (hlen k (Nat.div_lt_of_lt_mul (by rwa [← Nat.pow_succ'])))
    · rw [Nat.eq_zero_of_not_pos hpos, zero_mul, zero_add] at hdiv
      refine ⟨⟨?_, ?_, by simp⟩, fun k _ => succ_le_succ (Nat.zero_le k)⟩
      · rw [toDigits_eq_if hradix.1, if_pos (hdiv ▸ hrem), reverse_singleton, hchar, hdiv]
      · rw [reverse_singleton, readDigits, foldl_cons, hdigit, hdiv]
        simp

/-- The digits without leading zeros, in the width that was asked for. -/
theorem unsignedNumPrint_spec {unum radix : Nat} (hunum : unum < 2 ^ 64)
    (hradix : radix = 10 ∨ radix = 16) (padc : Char) (padn : Int) :
    IsNumeral radix unum (numBuf radix (unum + 1) unum).reverse ∧
      (numBuf radix (unum + 1) unum).length ≤ 20 ∧
      (unsignedNumPrint unum radix padc padn).1 =
        replicate (padn.toNat - (numBuf radix (unum + 1) unum).length) padc ++
          (numBuf radix (unum + 1) unum).reverse ∧
      (unsignedNumPrint unum radix padc padn).2 =
        (unsignedNumPrint unum radix padc padn).1.length := by
  have hpow : 2 ^ 64 ≤ radix ^ 20 := by rcases hradix with rfl | rfl <;> decide
  have hrange : 1 < radix ∧ radix ≤ 16 := by omega
  obtain ⟨hnum, hlen⟩ := numBuf_spec hrange (Nat.lt_add_one unum)
  refine ⟨hnum, hlen 19 (hunum.trans_le hpow), ?_, ?_⟩
  · rw [unsignedNumPrint, if_neg (by omega), ← padding_eq]
  · rw [unsignedNumPrint, if_neg (by omega), length_append, length_reverse]

theorem unsignedNumPrint_padded :
    unsignedNumPrint 0xAB 16 '0' 4 = (['0', '0', 'a', 'b'], 4) ∧
      IsNumeral 16 0xAB (numBuf 16 (0xAB + 1) 0xAB).reverse :=
  ⟨by decide, (unsignedNumPrint_spec (by decide) (.inr rfl) '0' 4).1⟩

/-! ## Bounded copy -/

/-- The memory, and the bytes written so far with their addresses. -/
structure Copy where
  mem : Mem
  written : List (UInt8 × Nat) := []

def Copy.put (c : Copy) (d : Nat) (v : UInt8) : Copy :=
  ⟨Function.update c.mem d v, c.written ++ [(v, d)]⟩

/-- The loop, with `d` as it is behind it. -/
def strncpyLoop (length s d : Nat) (c : Copy) : Nat × Copy :=
  if c.mem s = 0 then (d, c)
  else
    match length with
    | 0 => (d, c)
    | length + 1 => strncpyLoop length (s + 1) (d + 1) (c.put d (c.mem s))

def palStrncpy (destinationStr sourceStr length : Nat) (m : Mem) : Nat × Copy :=
  if destinationStr = 0 then (0, ⟨m, []⟩)
  else
    let r := strncpyLoop length sourceStr destinationStr ⟨m, []⟩
    (destinationStr, r.2.put r.1 0)

/-- The string `l` is at `s`, with its terminator. -/
def StringAt (m : Mem) : Nat → List UInt8 → Prop
  | s, [] => m s = 0
  | s, b :: l => m s = b ∧ b ≠ 0 ∧ StringAt m (s + 1) l

structure CopiesWithin (d length : Nat) (l : List UInt8) (written : List (UInt8 × Nat)) : Prop where
  count : written.length ≤ length
  bytes : written = (l.take length ++ if l.length < length then [0] else []).zipIdx d

section

variable {m : Mem} {s d : Nat} {l : List UInt8}

theorem StringAt.update (h : StringAt m s l) {a : Nat} (ha : a < s ∨ s + l.length < a) (v : UInt8) :
    StringAt (update m a v) s l := by
  induction l generalizing s with
  | nil =>
    rw [StringAt, update_of_ne (by grind)]
    exact h
  | cons b l ih =>
    rw [length_cons] at ha
    refine ⟨?_, h.2.1, ih h.2.2 (by omega)⟩
    rw [update_of_ne (by omega)]
    exact h.1

theorem strncpyLoop_eq {c : Copy} (h : StringAt c.mem s l) (hd : d ≤ s ∨ s + l.length < d)
    (length : Nat) :
    (strncpyLoop length s d c).1 = d + (l.take length).length ∧
      (strncpyLoop length s d c).2.written = c.written ++ (l.take length).zipIdx d := by
  induction length generalizing s d c l with
  | zero =>
    rw [strncpyLoop]
    simp
  | succ length ih =>
    rw [strncpyLoop]
    cases l with
    | nil =>
      rw [if_pos (show c.mem s = 0 from h)]
      simp
    | cons b l =>
      rw [length_cons] at hd
      obtain ⟨rfl, hne, hrest⟩ := h
      rw [if_neg hne]
      obtain ⟨hend, hbytes⟩ := ih (c := c.put d (c.mem s)) (hrest.update (by omega) _)
        (show d + 1 ≤ s + 1 ∨ _ by omega)
      refine ⟨?_, ?_⟩
      · rw [hend, take_succ_cons, length_cons, add_assoc, add_comm 1]
      · rw [hbytes, take_succ_cons, zipIdx_cons, Copy.put, append_assoc, singleton_append]

/-- From a source that the copy runs into, as many bytes are copied as the length says. -/
theorem strncpyLoop_overlap {c : Copy} (hd : s < d) (h : ∀ a, s ≤ a → a < d → c.mem a ≠ 0)
    (length : Nat) : (strncpyLoop length s d c).2.written.length = c.written.length + length := by
  induction length generalizing s d c with
  | zero => rw [strncpyLoop, ite_self, add_zero]
  | succ length ih =>
    have hs := h s le_rfl hd
    rw [strncpyLoop, if_neg hs, ih (by omega)]
    · rw [Copy.put, length_append, length_singleton, add_assoc, add_comm 1]
    · intro a hle hlt
      dsimp only [Copy.put]
      by_cases heq : a = d
      · rwa [heq, update_self]
      · rw [update_of_ne heq]
        exact h a (by omega) (by omega)

theorem StringAt.ne_zero (h : StringAt m s l) {a : Nat} (hs : s ≤ a) (ha : a < s + l.length) :
    m a ≠ 0 := by
  induction l generalizing s with
  | nil => exact absurd ha (by simpa using hs)
  | cons b l ih =>
    rw [length_cons] at ha
    by_cases heq : a = s
    · rw [heq, h.1]
      exact h.2.1
    · exact ih h.2.2 (by omega) (by omega)

/-- The terminator is written behind the copied bytes in any case, so the length is kept exactly
when the string is shorter and the copy does not run into it. -/
theorem palStrncpy_within_iff (hd : d ≠ 0) (h : StringAt m s l) (length : Nat) :
    CopiesWithin d length l (palStrncpy d s length m).2.written ↔
      l.length < length ∧ (d ≤ s ∨ s + l.length < d) := by
  rw [palStrncpy, if_neg hd]
  by_cases hsep : d ≤ s ∨ s + l.length < d
  · obtain ⟨hend, hbytes⟩ := strncpyLoop_eq (c := ⟨m, []⟩) h hsep length
    rw [and_iff_left hsep]
    dsimp only [Copy.put]
    rw [hend, hbytes, nil_append, show [((0 : UInt8), d + (l.take length).length)] =
      [0].zipIdx (d + (l.take length).length) from rfl, ← zipIdx_append]
    constructor
    · intro hok
      have hcount := hok.count
      rw [length_zipIdx, length_append, length_take, length_singleton] at hcount
      omega
    · intro hlt
      refine ⟨?_, by rw [if_pos hlt]⟩
      rw [length_zipIdx, length_append, length_take, length_singleton]
      omega
  · rw [not_or] at hsep
    refine iff_of_false (fun hok => ?_) fun hok => absurd hok.2 (not_or.mpr hsep)
    have hcount := hok.count
    dsimp only [Copy.put] at hcount
    rw [length_append, length_singleton, strncpyLoop_overlap (by omega)
      (fun a hle hlt => h.ne_zero hle (by omega))] at hcount
    omega

end

/-- The string "ab" at 0x1000. -/
def twoChars : Mem := fun a => if a = 0x1000 then 97 else if a = 0x1001 then 98 else 0

theorem palStrncpy_within_three :
    CopiesWithin 0x2000 3 [97, 98] (palStrncpy 0x2000 0x1000 3 twoChars).2.written :=
  (palStrncpy_within_iff (by decide) (by
    simp [StringAt, twoChars]) 3).mpr (by decide)

theorem palStrncpy_two :
    (palStrncpy 0x2000 0x1000 2 twoChars).2.written = [(97, 0x2000), (98, 0x2001),
      (0, 0x2002)] := by
  decide

end ServerSoc.Pal
