/-
The lists of the options -skip, -t and -m (uefi_app/BsaAcsMain.c).

The memory for a list has one byte for each character of the argument, and a number takes
four bytes.
-/
import Mathlib.Data.Nat.ModEq

namespace ServerSoc.Infra

open List

def decimalValue (d : List Char) : Nat := d.foldl (fun n c => 10 * n + (c.toNat - '0'.toNat)) 0

/-- The function of the UEFI library: blanks in front are passed over, and the number ends
with its digits. -/
def strDecimalToUintn (s : List Char) : Nat :=
  min (decimalValue ((s.dropWhile (fun c => c = ' ' ∨ c = '\t')).takeWhile Char.isDigit))
    (2 ^ 64 - 1)

/-- A list of numbers of 32 bits: the bytes that were allocated for it, its count, and the
stores with their index. -/
structure NumList where
  size : Nat
  num : Nat
  stores : List (Nat × Nat)
  deriving DecidableEq

def NumList.store (l : NumList) (s : List Char) : NumList :=
  { l with stores := l.stores ++ [(strDecimalToUintn s % 2 ^ 32, l.num)] }

def storeBehindCommas (l : NumList) : List Char → NumList
  | [] => l
  | c :: rest =>
    if c = ',' then storeBehindCommas ({ l with num := l.num + 1 }.store rest) rest
    else storeBehindCommas l rest

/-- What the options share.  `none` is a return because of the first character, or a loop
that does not end: its index has 32 bits. -/
def parseList (checked : Bool) (arg : List Char) : Option NumList :=
  if checked ∧ ¬ arg.head?.any Char.isDigit then none
  else if 2 ^ 32 ≤ arg.length then none
  else
    let l := storeBehindCommas ((⟨arg.length, 0, []⟩ : NumList).store arg) arg
    some { l with num := l.num + 1 }

def skipTestNum (arg : List Char) : Option NumList := parseList false arg
def executeTests (arg : List Char) : Option NumList := parseList true arg
def executeModules (arg : List Char) : Option NumList := parseList true arg

/-! ## Arguments -/

structure IsDecimal (d : List Char) : Prop where
  ne_nil : d ≠ []
  digits : ∀ c ∈ d, c.isDigit = true
  lt : decimalValue d < 2 ^ 32

instance (d : List Char) : Decidable (IsDecimal d) :=
  decidable_of_iff (d ≠ [] ∧ d.all Char.isDigit = true ∧ decimalValue d < 2 ^ 32)
    ⟨fun h => ⟨h.1, all_eq_true.mp h.2.1, h.2.2⟩, fun h => ⟨h.1, all_eq_true.mpr h.2, h.3⟩⟩

def argument : List (List Char) → List Char
  | [] => []
  | d :: ds => d ++ ds.flatMap fun e => ',' :: e

structure Stored (ds : List (List Char)) (l : NumList) : Prop where
  num : l.num = ds.length
  stores : l.stores = (ds.map decimalValue).zipIdx
  inside : ∀ s ∈ l.stores, 4 * s.2 + 4 ≤ l.size

section

variable {d : List Char} {ds : List (List Char)}

theorem strDecimalToUintn_append (hd : IsDecimal d) {rest : List Char}
    (hrest : rest.head? = none ∨ rest.head? = some ',') :
    strDecimalToUintn (d ++ rest) % 2 ^ 32 = decimalValue d := by
  obtain ⟨c, d, rfl⟩ := exists_cons_of_ne_nil hd.ne_nil
  have hc := hd.digits c mem_cons_self
  have hblank : ¬ (c = ' ' ∨ c = '\t') := by
    intro h
    rcases h with rfl | rfl <;> exact absurd hc (by decide)
  have hstop : rest.takeWhile Char.isDigit = [] := by
    cases rest with
    | nil => rfl
    | cons e rest =>
      obtain rfl : e = ',' := by simpa using hrest
      rfl
  have hlt := hd.lt
  rw [strDecimalToUintn, cons_append, dropWhile_cons_of_neg (by simpa using hblank),
    ← cons_append, takeWhile_append_of_pos hd.digits, hstop, append_nil]
  omega

theorem storeBehindCommas_append (hd : IsDecimal d) (l : NumList) (rest : List Char) :
    storeBehindCommas l (d ++ rest) = storeBehindCommas l rest := by
  have hdigits := hd.digits
  clear hd
  induction d with
  | nil => rfl
  | cons c d ih =>
    have hc : c ≠ ',' := by
      rintro rfl
      exact absurd (hdigits ',' mem_cons_self) (by decide)
    rw [cons_append, storeBehindCommas, if_neg hc,
      ih (fun e he => hdigits e (mem_cons_of_mem _ he))]

theorem head?_behind (ds : List (List Char)) :
    (ds.flatMap (fun e => ',' :: e)).head? = none ∨
      (ds.flatMap (fun e => ',' :: e)).head? = some ',' := by
  cases ds with
  | nil => exact .inl rfl
  | cons e ds => exact .inr rfl

theorem storeBehindCommas_flatMap (hds : ∀ d ∈ ds, IsDecimal d) (l : NumList) :
    storeBehindCommas l (ds.flatMap (fun e => ',' :: e)) =
      ⟨l.size, l.num + ds.length, l.stores ++ (ds.map decimalValue).zipIdx (l.num + 1)⟩ := by
  induction ds generalizing l with
  | nil => simp [storeBehindCommas]
  | cons d ds ih =>
    have hd := hds d mem_cons_self
    rw [flatMap_cons, cons_append, storeBehindCommas,
      storeBehindCommas_append hd, ih (fun e he => hds e (mem_cons_of_mem _ he)),
      NumList.store, strDecimalToUintn_append hd (head?_behind ds)]
    simp [Nat.add_assoc, Nat.add_comm 1]

theorem parseList_argument (checked : Bool) (hds : ∀ d ∈ ds, IsDecimal d) (hne : ds ≠ []) :
    parseList checked (argument ds) =
      if (argument ds).length < 2 ^ 32 then
        some ⟨(argument ds).length, ds.length, (ds.map decimalValue).zipIdx⟩
      else none := by
  obtain ⟨d, ds, rfl⟩ := exists_cons_of_ne_nil hne
  have hd := hds d mem_cons_self
  have hhead : (argument (d :: ds)).head?.any Char.isDigit = true := by
    obtain ⟨c, d, rfl⟩ := exists_cons_of_ne_nil hd.ne_nil
    exact hd.digits c mem_cons_self
  rw [parseList, if_neg (by simp [hhead])]
  by_cases hlt : (argument (d :: ds)).length < 2 ^ 32
  · rw [if_neg (Nat.not_le.mpr hlt), if_pos hlt]
    simp only [argument, NumList.store]
    rw [strDecimalToUintn_append hd (head?_behind ds), storeBehindCommas_append hd,
      storeBehindCommas_flatMap (fun e he => hds e (mem_cons_of_mem _ he))]
    simp
  · rw [if_pos (Nat.le_of_not_lt hlt), if_neg hlt]

end

/-- The numbers of an argument are stored inside the memory of their list exactly when the
argument has four characters for each of them, and less than 4 GiB. -/
theorem optionLists_stored_iff {ds : List (List Char)} (hds : ∀ d ∈ ds, IsDecimal d)
    (hne : ds ≠ []) : ∀ parse ∈ [skipTestNum, executeTests, executeModules],
      (∃ l, parse (argument ds) = some l ∧ Stored ds l) ↔
        4 * ds.length ≤ (argument ds).length ∧ (argument ds).length < 2 ^ 32 := by
  have hread : ∀ checked, (∃ l, parseList checked (argument ds) = some l ∧ Stored ds l) ↔
      4 * ds.length ≤ (argument ds).length ∧ (argument ds).length < 2 ^ 32 := by
    intro checked
    rw [parseList_argument checked hds hne]
    constructor
    · rintro ⟨l, hl, hstored⟩
      split at hl
      · cases hl
        have hmem : (decimalValue (ds.getLast hne),
            ds.length - 1) ∈ (ds.map decimalValue).zipIdx := by
          rw [mk_mem_zipIdx_iff_getElem?, List.getElem?_map, ← getLast?_eq_getElem?,
            getLast?_eq_some_getLast hne]
          rfl
        have hlast := hstored.inside _ hmem
        dsimp only at hlast
        omega
      · cases hl
    · rintro ⟨hfit, hlt⟩
      rw [if_pos hlt]
      refine ⟨_, rfl, rfl, rfl, fun s hs => ?_⟩
      have hidx := snd_lt_of_mem_zipIdx hs
      rw [length_map] at hidx
      dsimp only
      omega
  simp only [mem_cons, not_mem_nil, or_false]
  rintro parse (rfl | rfl | rfl)
  · exact hread false
  · exact hread true
  · exact hread true

def twoTests : List (List Char) := ["801".toList, "00805".toList]

theorem optionLists_stored_two :
    (∀ d ∈ twoTests, IsDecimal d) ∧ ∃ l, executeTests (argument twoTests) = some l ∧
      Stored twoTests l := by
  have hds : ∀ d ∈ twoTests, IsDecimal d := by decide
  exact ⟨hds, (optionLists_stored_iff hds (by decide) _ (by simp)).mpr (by decide)⟩

/-- For the modules 1 and 2 there are three bytes. -/
theorem optionLists_overflow :
    (∀ d ∈ ["1".toList, "2".toList], IsDecimal d) ∧
      executeModules (argument ["1".toList, "2".toList]) = some ⟨3, 2, [(1, 0), (2, 1)]⟩ ∧
      ¬ Stored ["1".toList, "2".toList] ⟨3, 2, [(1, 0), (2, 1)]⟩ := by
  refine ⟨by decide, by decide, fun h => ?_⟩
  exact absurd (h.inside (2, 1) (by decide)) (by decide)

end ServerSoc.Infra
