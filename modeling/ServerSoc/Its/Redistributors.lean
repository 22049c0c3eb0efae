/-
The redistributor of the current hart, as v3_get_hart_gicr_base (gic_v3.c),
val_gic_get_hart_rdbase (acs_gic.c) and val_gic_its_configure find it.

The first two take steps of 128 KB and one entry for a GICC, the first also one range of a GICR.
The ITS takes all entries, in steps that the first frame of a range decides.
-/
import ServerSoc.Its.FailedSetup

namespace ServerSoc.Its

open List Nat Option

section

variable (w : World)

def granularity : Nat := 2 * size64Kb

def gicrTyperAff : Nat := 0xFFFFFFFF <<< 32

def showsAffinity (a : Nat) : Bool :=
  (w.mmioRead64 (a + armGicrTyperOffset) &&& gicrTyperAff) >>> 32 = cpuAffinity w

def frames (size : Nat → Nat) (limit : Nat) : Nat → Nat → List Nat
  | 0, _ => []
  | left + 1, a => if a < limit then a :: frames size limit left (a + size a) else []

def valGetGicrBase : List GicEntry → Nat → Nat × Nat
  | [], _ => (0, 0)
  | e :: rest, index =>
    match e.type with
    | .gicrGicrd =>
      if index = 0 then (e.base, e.length % 2 ^ 32) else valGetGicrBase rest (index - 1)
    | .giccGicrd => (e.base, 0)
    | _ => valGetGicrBase rest index

def rangeFrames (base length : Nat) : List Nat :=
  frames (fun _ => granularity) (base + length) (length / granularity + 1) base

def currentCpuRDBase (base length : Nat) : Nat :=
  if length = 0 then if showsAffinity w base then base else 0
  else ((rangeFrames base length).find? (showsAffinity w)).getD 0

def v3GetHartGicrBase : Nat :=
  currentCpuRDBase w (valGetGicrBase w.entries 0).1 (valGetGicrBase w.entries 0).2

def valGicGetHartRdbase : Nat :=
  let numGicrRd := w.entries.countP (fun e => e.type = .gicrGicrd)
  if numGicrRd = 0 ∧ (valGetGicrBase w.entries 0).2 = 0 then
    if showsAffinity w (valGetGicrBase w.entries 0).1 then (valGetGicrBase w.entries 0).1 else 0
  else ((range numGicrRd).findSome? fun index =>
    (rangeFrames (valGetGicrBase w.entries index).1 (valGetGicrBase w.entries index).2).find?
      (showsAffinity w)).getD 0

/-! ## Specification -/

/-- The setup of the ITS compares the upper word. -/
def itsShowsAffinity (a : Nat) : Bool :=
  w.mmioRead (a + armGicrTyperOffset + nextDwOffset) = cpuAffinity w

/-- The frames of a redistributor take 128 KB, and 256 KB when it has VLPIs. -/
def rdSize (a : Nat) : Nat :=
  2 * size64Kb + if w.mmioRead (a + armGicrTyperOffset) &&& armGicrTyperVlpis ≠ 0 then 2 * size64Kb
    else 0

def entryFrames (size : Nat → Nat) (left : Nat) (e : GicEntry) : List Nat :=
  match e.type with
  | .gicrGicrd => frames size (e.base + e.length) left e.base
  | .giccGicrd => [e.base]
  | _ => []

def redistributors : List Nat :=
  w.entries.flatMap fun e => entryFrames (rdSize w) (e.length / granularity + 1) e

/-- Ranges for all redistributors or an entry for each. -/
structure RdTable : Prop where
  kinds : (∀ e ∈ w.entries, e.type ≠ .giccGicrd) ∨ ∀ e ∈ w.entries, e.type ≠ .gicrGicrd
  lengths : ∀ e ∈ w.entries, e.type = .gicrGicrd → 0 < e.length ∧ e.length < 2 ^ 32
  bases : ∀ e ∈ w.entries, e.type = .gicrGicrd ∨ e.type = .giccGicrd → 0 < e.base

def OwnFrame (frame : Nat) : Prop := (redistributors w).filter (showsAffinity w) = [frame]

structure LookupsAgree (frame : Nat) : Prop where
  v3 : v3GetHartGicrBase w = frame
  hart : valGicGetHartRdbase w = frame
  its : (collect w).gicRdBase = frame

def firstFrames : List Nat :=
  ((w.entries.find? fun e => e.type = .gicrGicrd ∨ e.type = .giccGicrd).map fun e =>
    entryFrames (fun _ => granularity) (e.length / granularity + 1) e).getD []

/-- The addresses in all entries, in steps of the size of the first redistributor of each. -/
def itsFrames : List Nat :=
  w.entries.flatMap fun e =>
    entryFrames (fun _ => rdSize w e.base) (e.length / rdSize w e.base + 1) e

end

variable {w : World}

theorem le_of_mem_frames {size : Nat → Nat} {limit left a x : Nat}
    (h : x ∈ frames size limit left a) : a ≤ x := by
  induction left generalizing a with
  | zero => cases h
  | succ left ih =>
    rw [frames] at h
    split_ifs at h
    · rcases mem_cons.mp h with rfl | h
      · exact le_rfl
      · exact (Nat.le_add_right _ _).trans (ih h)
    · cases h

theorem rdbaseLoop_eq (limit g left a : Nat) :
    rdbaseLoop w limit g left a =
      ((frames (fun _ => g) limit left a).find? (itsShowsAffinity w)).getD 0 := by
  induction left generalizing a with
  | zero => rfl
  | succ left ih =>
    rw [rdbaseLoop, frames]
    split_ifs with ha hshow
    · rw [find?_cons_of_pos (by simpa [itsShowsAffinity] using hshow)]
      rfl
    · rw [find?_cons_of_neg (by simpa [itsShowsAffinity] using hshow), ih]
    · rfl

theorem RdTable.pos_of_mem (h : RdTable w) {e : GicEntry} (he : e ∈ w.entries) {size : Nat → Nat}
    {left x : Nat} (hx : x ∈ entryFrames size left e) : 0 < x := by
  have hbase := h.bases e he
  rw [entryFrames] at hx
  cases ht : e.type <;> rw [ht] at hx hbase <;> dsimp only at hx
  case gicrGicrd => exact (hbase (Or.inl rfl)).trans_le (le_of_mem_frames hx)
  case giccGicrd => exact mem_singleton.mp hx ▸ hbase (Or.inr rfl)
  all_goals cases hx

theorem getD_eq_iff {o : Option Nat} {frame : Nat} (h0 : frame ≠ 0) :
    o.getD 0 = frame ↔ o = some frame := by
  cases o with
  | none => simpa using h0.symm
  | some a => simp

theorem getD_find?_singleton (p : Nat → Bool) (a : Nat) :
    ([a].find? p).getD 0 = if p a then a else 0 := by
  cases hp : p a with
  | false => simp [hp]
  | true => simp [hp]

theorem find?_bases {l : List GicEntry} {f : GicEntry → Option Nat} {pos : GicEntry → List Nat}
    {p : Nat → Bool} (h : ∀ e ∈ l, f e = none ∧ pos e = [] ∨
      f e = some (((pos e).find? p).getD 0) ∧ ∀ x ∈ pos e, 0 < x) :
    ((l.filterMap f).find? (fun base => base ≠ 0)).getD 0 = ((l.flatMap pos).find? p).getD 0 := by
  induction l with
  | nil => rfl
  | cons e rest ih =>
    have hrest := ih fun e' he' => h e' (mem_cons_of_mem e he')
    rcases h e mem_cons_self with ⟨hf, hpos⟩ | ⟨hf, hpos⟩
    · rw [filterMap_cons_none hf, flatMap_cons, hpos, nil_append, hrest]
    · rw [filterMap_cons_some hf, flatMap_cons, find?_append]
      cases hfind : (pos e).find? p with
      | none => simpa using hrest
      | some x =>
        have hx := hpos x (mem_of_find?_eq_some hfind)
        simp [Nat.ne_of_gt hx]

theorem gicRdBase_eq (h : RdTable w) :
    (collect w).gicRdBase = ((itsFrames w).find? (itsShowsAffinity w)).getD 0 := by
  rw [collect_gicRdBase]
  refine find?_bases fun e he => ?_
  have hlen := h.lengths e he
  have hpos := fun x => @RdTable.pos_of_mem w h e he (fun _ => rdSize w e.base)
    (e.length / rdSize w e.base + 1) x
  cases ht : e.type <;> simp only [redistributorOf, entryFrames, ht] at hlen hpos ⊢
  case gicrGicrd =>
    refine Or.inr ⟨?_, hpos⟩
    obtain ⟨h0, hlt⟩ := hlen trivial
    rw [mod_eq_of_lt hlt, valItsGetCurrRdbase, if_neg (Nat.ne_of_gt h0), rdbaseLoop_eq]
    rfl
  case giccGicrd =>
    refine Or.inr ⟨?_, hpos⟩
    rw [valItsGetCurrRdbase, getD_find?_singleton]
    simp [itsShowsAffinity]
  all_goals exact Or.inl ⟨trivial, trivial⟩

theorem valGetGicrBase_zero (l : List GicEntry) :
    valGetGicrBase l 0 = ((l.find? fun e => e.type = .gicrGicrd ∨ e.type = .giccGicrd).map fun e =>
      (e.base, if e.type = .gicrGicrd then e.length % 2 ^ 32 else 0)).getD (0, 0) := by
  induction l with
  | nil => rfl
  | cons e rest ih =>
    rw [valGetGicrBase]
    cases ht : e.type <;> simp [ht, ih]

theorem v3GetHartGicrBase_eq (h : RdTable w) :
    v3GetHartGicrBase w = ((firstFrames w).find? (showsAffinity w)).getD 0 := by
  rw [v3GetHartGicrBase, valGetGicrBase_zero, firstFrames]
  cases hfind : w.entries.find? fun e => e.type = .gicrGicrd ∨ e.type = .giccGicrd with
  | none => simp [currentCpuRDBase]
  | some e =>
    have hlen := h.lengths e (mem_of_find?_eq_some hfind)
    have hkind := find?_some hfind
    cases ht : e.type <;> simp only [ht, map_some, getD_some, entryFrames] at hlen hkind ⊢
    case gicrGicrd =>
      obtain ⟨h0, hlt⟩ := hlen trivial
      rw [if_pos trivial, mod_eq_of_lt hlt, currentCpuRDBase, if_neg (Nat.ne_of_gt h0), rangeFrames]
    case giccGicrd =>
      rw [if_neg nofun, currentCpuRDBase, if_pos rfl, getD_find?_singleton]
    all_goals simp at hkind

/-- A table of ranges begins with one, and a table without ranges gives no length. -/
theorem RdTable.countP_eq_zero_iff (h : RdTable w) :
    w.entries.countP (fun e => e.type = .gicrGicrd) = 0 ↔ (valGetGicrBase w.entries 0).2 = 0 := by
  rw [countP_eq_zero, valGetGicrBase_zero]
  cases hfind : w.entries.find? fun e => e.type = .gicrGicrd ∨ e.type = .giccGicrd with
  | none =>
    refine iff_of_true (fun e he ht => ?_) rfl
    exact find?_eq_none.mp hfind e he (by simpa using Or.inl (of_decide_eq_true ht))
  | some e =>
    have he := mem_of_find?_eq_some hfind
    rw [map_some]
    split_ifs with ht
    · obtain ⟨h0, hlt⟩ := h.lengths e he ht
      refine iff_of_false (fun hno => hno e he (decide_eq_true ht)) ?_
      rw [mod_eq_of_lt hlt]
      exact Nat.ne_of_gt h0
    · have hcc : e.type = .giccGicrd := by simpa [ht] using find?_some hfind
      have hno := h.kinds.resolve_left fun hall => hall e he hcc
      exact iff_of_true (fun e' he' ht' => hno e' he' (of_decide_eq_true ht')) rfl

/-- The lookup for a hart begins with the addresses of the other one. -/
theorem valGicGetHartRdbase_of_v3 (h : RdTable w) {frame : Nat} (h0 : frame ≠ 0)
    (hv3 : v3GetHartGicrBase w = frame) : valGicGetHartRdbase w = frame := by
  rw [v3GetHartGicrBase, currentCpuRDBase] at hv3
  rw [valGicGetHartRdbase]
  by_cases hlen : (valGetGicrBase w.entries 0).2 = 0
  · rw [if_pos hlen] at hv3
    rw [if_pos ⟨h.countP_eq_zero_iff.mpr hlen, hlen⟩]
    exact hv3
  · rw [if_neg hlen] at hv3
    obtain ⟨n, hn⟩ := exists_eq_succ_of_ne_zero (mt h.countP_eq_zero_iff.mp hlen)
    rw [hn, range_succ_eq_map, findSome?_cons,
      (getD_eq_iff h0).mp hv3]
    rfl

theorem RdTable.ne_zero (h : RdTable w) {frame : Nat} (hown : OwnFrame w frame) : frame ≠ 0 := by
  have hmem : frame ∈ (redistributors w).filter (showsAffinity w) := by
    rw [hown]
    exact mem_singleton_self _
  obtain ⟨e, he, hframe⟩ := mem_flatMap.mp (mem_of_mem_filter hmem)
  exact Nat.ne_of_gt (h.pos_of_mem he hframe)

/-- The lookups agree when the frame is the first address to show the affinity both in the first
entry, in steps of 128 KB, and in all of them, in the steps of the ITS. -/
theorem lookupsAgree_iff (h : RdTable w) {frame : Nat} (hown : OwnFrame w frame) :
    LookupsAgree w frame ↔ (firstFrames w).find? (showsAffinity w) = some frame ∧
      (itsFrames w).find? (itsShowsAffinity w) = some frame := by
  have h0 := h.ne_zero hown
  rw [← getD_eq_iff h0, ← getD_eq_iff h0, ← v3GetHartGicrBase_eq h, ← gicRdBase_eq h]
  constructor
  · intro hagree
    exact ⟨hagree.v3, hagree.its⟩
  · intro hboth
    exact ⟨hboth.1, valGicGetHartRdbase_of_v3 h h0 hboth.1, hboth.2⟩

/-- The hart has the last of three redistributors in one range. -/
def thirdFrame : World := { oneItsWorld with
  entries := [⟨.gicrGicrd, 0x2000000, 0, 0x60000⟩]
  mpidr := 2
  mmioRead := fun a => if a % 0x20000 = 0xC then (a - 0x2000000) / 0x20000 else 0
  mmioRead64 := fun a => ((a - 0x2000000) / 0x20000) <<< 32 }

theorem lookupsAgree_thirdFrame : LookupsAgree thirdFrame 0x2040000 :=
  (lookupsAgree_iff ⟨Or.inl (by decide), by decide, by decide⟩
    (show (redistributors thirdFrame).filter _ = [0x2040000] by decide)).mpr (by decide)

def secondEntry : World := { oneItsWorld with
  entries := [⟨.giccGicrd, 0x2000000, 0, 0⟩, ⟨.giccGicrd, 0x4000000, 1, 0⟩]
  mpidr := 1
  mmioRead := fun a => if a = 0x400000C then 1 else 0
  mmioRead64 := fun a => if a = 0x4000008 then 1 <<< 32 else 0 }

theorem secondEntry_not_found : OwnFrame secondEntry 0x4000000 ∧ v3GetHartGicrBase secondEntry = 0 ∧
    ¬ LookupsAgree secondEntry 0x4000000 :=
  ⟨show (redistributors secondEntry).filter _ = [0x4000000] by decide, by decide,
    fun h => absurd h.v3 (by decide)⟩

end ServerSoc.Its
