/-
Where `fill_translation_table` reads and writes (acs_pgt.c).

Every table gets one page. The index of an entry is cut to `nbits` bits, which is the size of a
page in all tables but the first one: that one takes all the bits the levels below leave over.
-/
import ServerSoc.Pgt.Call

namespace ServerSoc.Pgt

def TtDescriptor.entry (tt : TtDescriptor) (input : Nat) : Nat :=
  tt.ttBase + 8 * (input >>> tt.sizeLog2 &&& 1 <<< tt.nbits - 1)

/-- The loop reads or writes the descriptor at `x.2`, of the table at `x.1`. -/
inductive Accesses (g : Globals) (alloc : Nat → Option Nat) (attributes : Nat) :
    Nat → TtDescriptor → Nat → Nat → State → Nat × Nat → Prop
  | here {fuel input output : Nat} {tt : TtDescriptor} {s : State} (hlt : input < tt.inputTop) :
    Accesses g alloc attributes (fuel + 1) tt input output s (tt.ttBase, tt.entry input)
  | inside {fuel input output ttBase : Nat} {tt : TtDescriptor} {s s1 : State} {x : Nat × Nat}
    (hlt : input < tt.inputTop) (hlevel : tt.level ≠ 3)
    (hblock : ¬ (input &&& 2 ^ tt.sizeLog2 - 1 = 0 ∧ output &&& 2 ^ tt.sizeLog2 - 1 = 0 ∧
      sub64 (add64 input (2 ^ tt.sizeLog2)) 1 ≤ tt.inputTop))
    (htable : nextTable g alloc (tt.entry input) s = some (ttBase, s1)) {offset : Nat}
    (hoffset : offset =
      getPgtIndex s1.info (tt.level + 1) * getBlockSize g.pageSize (tt.level + 1))
    (h : Accesses g alloc attributes fuel (nextLevel g tt input output ttBase offset) input output
      (initValues { s1 with
        info := incrementPgtIndex s1.info tt.level (getEntriesPerLevel g.pageSize)
        offset := offset }) x) :
    Accesses g alloc attributes (fuel + 1) tt input output s x
  | next {fuel input output : Nat} {tt : TtDescriptor} {s s1 : State} {x : Nat × Nat}
    (hlt : input < tt.inputTop)
    (hentry : fillEntry g alloc attributes fuel tt input output s = some (0, s1))
    (h : Accesses g alloc attributes fuel tt (add64 input (sub64 (2 ^ tt.sizeLog2) s1.offset))
      (add64 output (sub64 (2 ^ tt.sizeLog2) s1.offset)) s1 x) :
    Accesses g alloc attributes (fuel + 1) tt input output s x

def CreateAccesses (pageSize : Nat) (alloc : Nat → Option Nat) (fuel : Nat) (region : MemoryRegion)
    (desc : PgtDescriptor) (s : State) (x : Nat × Nat) : Prop :=
  let pageSizeLog2 := log2PageSize pageSize
  let g : Globals :=
    { pageSize := pageSize
      bitsPerLevel := sub32 pageSizeLog2 3
      pgtAddrMask := (1 <<< sub32 desc.ias pageSizeLog2 - 1) <<< pageSizeLog2 }
  ∃ ttBase s1, (if desc.pgtBase = 0 then allocPage pageSize alloc s else some (desc.pgtBase, s)) =
      some (ttBase, s1) ∧
    let tt := startTt pageSizeLog2 g.bitsPerLevel desc.ias desc.oas ttBase region
    Accesses g alloc region.attributes fuel tt tt.inputBase tt.outputBase (initValues s1) x

def InPage (g : Granule) (x : Nat × Nat) : Prop := x.1 ≤ x.2 ∧ x.2 + 8 ≤ x.1 + g.pageSize

section

variable {g : Granule} {globals : Globals} {alloc : Nat → Option Nat} {attributes fuel : Nat}
  {tt : TtDescriptor} {input output n : Nat} {s s1 s' : State} {A : Nat → Prop}

theorem inPage_entry (hn : tt.nbits ≤ g.bits) (input : Nat) :
    InPage g (tt.ttBase, tt.entry input) := by
  have hle : 2 ^ tt.nbits ≤ g.fan := Nat.pow_le_pow_right (by decide) hn
  have hpos := Nat.two_pow_pos tt.nbits
  have hand : input >>> tt.sizeLog2 &&& 1 <<< tt.nbits - 1 ≤ 2 ^ tt.nbits - 1 := by
    rw [Nat.one_shiftLeft]
    exact Nat.and_le_right
  have hpage := g.pageSize_eq
  simp only [InPage, TtDescriptor.entry]
  omega

theorem Accesses.inPage (hbits : globals.bitsPerLevel = g.bits) {x : Nat × Nat}
    (h : Accesses globals alloc attributes fuel tt input output s x) (hn : tt.nbits ≤ g.bits) :
    InPage g x := by
  induction h with
  | here hlt => exact inPage_entry hn _
  | inside hlt hlevel hblock htable hoffset h ih => exact ih hbits.le
  | next hlt hentry h ih => exact ih hn

/-- From `s` to `s'` only words of `A` change, and words of pages that are given on the way. -/
structure Touches (alloc : Nat → Option Nat) (pageSize : Nat) (A : Nat → Prop) (s s' : State) :
    Prop where
  le : s.allocated ≤ s'.allocated
  mem : ∀ a, s'.mem a ≠ s.mem a → A a ∨ ∃ k p, s.allocated ≤ k ∧ k < s'.allocated ∧
    alloc k = some p ∧ p ≤ a ∧ a < p + pageSize

theorem Touches.of_mem (hcount : s'.allocated = s.allocated)
    (hmem : ∀ a, s'.mem a ≠ s.mem a → A a) : Touches alloc n A s s' :=
  ⟨hcount.symm.le, fun a hne => .inl (hmem a hne)⟩

theorem Touches.congr (h : Touches alloc n A s s1) (hcount : s'.allocated = s1.allocated)
    (hmem : s'.mem = s1.mem) : Touches alloc n A s s' :=
  ⟨hcount ▸ h.le, hcount ▸ hmem ▸ h.mem⟩

theorem Touches.trans {B C : Nat → Prop} (h : Touches alloc n A s s1) (h' : Touches alloc n B s1 s')
    (hA : ∀ a, A a → C a) (hB : ∀ a, B a → C a) : Touches alloc n C s s' := by
  refine ⟨h.le.trans h'.le, fun a hne => ?_⟩
  by_cases hch : s1.mem a = s.mem a
  · refine (h'.mem a (hch ▸ hne)).imp (hB a) ?_
    rintro ⟨k, p, hk, hpage⟩
    exact ⟨k, p, h.le.trans hk, hpage⟩
  · refine (h.mem a hch).imp (hA a) ?_
    rintro ⟨k, p, hk, hlt, hpage⟩
    exact ⟨k, p, hk, hlt.trans_le h'.le, hpage⟩

theorem nextTable_touches {tableDesc : Nat} {r : Nat × State}
    (h : nextTable globals alloc tableDesc s = some r) :
    Touches alloc globals.pageSize A s r.2 := by
  rw [nextTable] at h
  split at h
  · rw [allocPage] at h
    split at h
    · cases h
    · rename_i p hp
      cases h
      refine ⟨Nat.le_succ _, fun a hne => .inr ⟨_, p, le_rfl, Nat.lt_succ_self _, hp, ?_⟩⟩
      by_contra hout
      exact hne (if_neg hout)
  · cases h
    exact .of_mem rfl fun a hne => absurd rfl hne

theorem write_touches {b : Nat} (hb : A b) (s : State) (v : Nat) :
    Touches alloc n A s (s.write b v) := by
  refine .of_mem rfl fun a hne => ?_
  by_cases hab : a = b
  · rwa [hab]
  · exact (hne (Function.update_of_ne hab _ _)).elim

/-- One turn, given what the loops below do. -/
theorem fillEntry_touches {status : Nat} (hlt : input < tt.inputTop)
    (ih : ∀ {tt input output s status s'},
      fillLoop globals alloc attributes fuel tt input output s = some (status, s') →
        Touches alloc globals.pageSize (fun a => ∃ base,
          Accesses globals alloc attributes fuel tt input output s (base, a)) s s')
    (h : fillEntry globals alloc attributes fuel tt input output s = some (status, s')) :
    Touches alloc globals.pageSize (fun a => ∃ base,
      Accesses globals alloc attributes (fuel + 1) tt input output s (base, a)) s s' := by
  rw [fillEntry] at h
  dsimp only at h
  split at h
  · cases h
    exact (write_touches ⟨_, .here hlt⟩ s _).congr rfl rfl
  · rename_i hlevel
    split_ifs at h with hblock
    · cases h
      exact (write_touches ⟨_, .here hlt⟩ s _).congr rfl rfl
    · split at h
      · cases h
        exact .of_mem rfl fun a hne => absurd rfl hne
      · rename_i ttBase s2 htable
        split at h
        · cases h
        · rename_i st s3 hloop
          have hbelow : Touches alloc globals.pageSize (fun a => ∃ base,
              Accesses globals alloc attributes (fuel + 1) tt input output s (base, a)) s s3 := by
            refine Touches.trans ?_ (ih hloop) (fun _ => id)
              (fun a => Exists.imp fun _ => .inside hlt hlevel hblock htable rfl)
            exact (nextTable_touches htable).congr (initValues_mem _).2.1 (initValues_mem _).1
          split_ifs at h
          · cases h
            exact hbelow.trans (write_touches ⟨_, .here hlt⟩ s3 _) (fun _ => id) fun _ => id
          · cases h
            exact hbelow.congr rfl rfl

theorem fillLoop_touches {status : Nat}
    (h : fillLoop globals alloc attributes fuel tt input output s = some (status, s')) :
    Touches alloc globals.pageSize (fun a => ∃ base,
      Accesses globals alloc attributes fuel tt input output s (base, a)) s s' := by
  induction fuel generalizing tt input output s status s' with
  | zero => cases h
  | succ fuel ih =>
    by_cases hlt : input < tt.inputTop
    · rw [fillLoop_succ hlt] at h
      split at h
      · cases h
      · rename_i st s1 hentry
        have hturn := fillEntry_touches hlt ih hentry
        split_ifs at h with hst
        · subst hst
          exact hturn.trans (ih h) (fun _ => id) fun a => Exists.imp fun _ => .next hlt hentry
        · cases h
          exact hturn
    · rw [fillLoop, if_neg hlt] at h
      cases h
      exact .of_mem rfl fun a hne => absurd rfl hne

/-- A word that the loop changes is such a descriptor, or in a page that the loop was given. -/
theorem fillLoop_mem {status a : Nat}
    (h : fillLoop globals alloc attributes fuel tt input output s = some (status, s'))
    (hne : s'.mem a ≠ s.mem a) :
    (∃ base, Accesses globals alloc attributes fuel tt input output s (base, a)) ∨
      ∃ k p, s.allocated ≤ k ∧ k < s'.allocated ∧ alloc k = some p ∧
        p ≤ a ∧ a < p + globals.pageSize :=
  (fillLoop_touches h).mem a hne

theorem fillLoop_mem_onePage : ∃ base, Accesses ⟨0x1000, 9, 0⟩ (fun _ => none) 0 2
    ⟨0x1000, 0, 0x1000, 0, 3, 12, 9⟩ 0 0 (firstState fun _ => 0) (base, 0x1000) :=
  (fillLoop_mem rfl (by decide +kernel)).resolve_right (by simp)

end

theorem startTt_nbits_le {g : Granule} {ias : Nat} (hlog : g.log2 ≤ ias)
    (hias : ias ≤ 4 * g.bits + g.log2) (oas ttBase : Nat) (r : MemoryRegion) :
    (startTt g.log2 g.bits ias oas ttBase r).nbits ≤ g.bits := by
  have hall : ∀ ias < 69, g.log2 ≤ ias → ias ≤ 4 * g.bits + g.log2 →
      sub32 ias (startSizeLog2 g.log2 g.bits ias) ≤ g.bits := by
    cases g <;> decide +kernel
  refine hall ias (hias.trans_lt ?_) hlog hias
  cases g <;> decide

def pastPage (g : Granule) : MemoryRegion :=
  ⟨0, 2 ^ (4 * g.bits + g.log2), 2 ^ (3 * g.bits + g.log2), 0⟩

theorem valPgtCreate_pastPage (g : Granule) : ∀ ias < 64, 4 * g.bits + g.log2 < ias →
    (valPgtCreate g.pageSize (fun _ => none) 2 [pastPage g] ⟨g.pageSize, ias, 32⟩
      (firstState fun _ => 0)).map (fun res => res.1) = some 0 ∧
    let tt := startTt g.log2 g.bits ias 32 g.pageSize (pastPage g)
    tt.inputBase < tt.inputTop ∧ tt.entry tt.inputBase = 2 * g.pageSize := by
  cases g <;> decide +kernel

/-- Calls that return 0 stay inside the pages of their tables exactly when four levels are enough
for the input addresses. -/
theorem valPgtCreate_inPage_iff (g : Granule) {ias : Nat} (hlog : g.log2 ≤ ias) (hias : ias < 64) :
    (∀ alloc fuel r base oas s res,
      valPgtCreate g.pageSize alloc fuel [r] ⟨base, ias, oas⟩ s = some (0, res) →
        ∀ x, CreateAccesses g.pageSize alloc fuel r ⟨base, ias, oas⟩ s x → InPage g x) ↔
      ias ≤ 4 * g.bits + g.log2 := by
  simp only [CreateAccesses, log2PageSize_pageSize, sub32_log2]
  constructor
  · intro hall
    refine Nat.le_of_not_lt fun hlt => ?_
    obtain ⟨hcall, htop, hentry⟩ := valPgtCreate_pastPage g ias hias hlt
    obtain ⟨⟨status, res⟩, hres, rfl⟩ := Option.map_eq_some_iff.mp hcall
    have hps := g.pageSize_pos
    have hin := hall _ _ _ _ _ _ res hres _
      ⟨g.pageSize, firstState fun _ => 0, if_neg (Nat.ne_of_gt hps), .here htop⟩
    rw [hentry] at hin
    have hend : 2 * g.pageSize + 8 ≤ g.pageSize + g.pageSize := hin.2
    omega
  · rintro hle alloc fuel r base oas s res _ x ⟨ttBase, s1, -, hacc⟩
    exact hacc.inPage rfl (startTt_nbits_le hlog hle _ _ _)

theorem valPgtCreate_inPage_fortyEight :
    Granule.k4.log2 ≤ 48 ∧ ∀ alloc fuel r base oas s res,
      valPgtCreate Granule.k4.pageSize alloc fuel [r] ⟨base, 48, oas⟩ s = some (0, res) →
        ∀ x, CreateAccesses Granule.k4.pageSize alloc fuel r ⟨base, 48, oas⟩ s x → InPage .k4 x :=
  ⟨by decide, (valPgtCreate_inPage_iff .k4 (by decide) (by decide)).mpr (by decide)⟩

/-- A table of 4K pages for 49 bits at 0x1000: the descriptor at 0x2000 is written. -/
theorem valPgtCreate_writes_past :
    (valPgtCreate 0x1000 (fun _ => none) 2 [⟨0, 0x1000000000000, 0x8000000000, 0⟩] ⟨0x1000, 49, 32⟩
        (firstState fun _ => 0)).map (fun res => (res.1, res.2.2.mem 0x2000)) = some (0, 1) ∧
      CreateAccesses 0x1000 (fun _ => none) 2 ⟨0, 0x1000000000000, 0x8000000000, 0⟩ ⟨0x1000, 49, 32⟩
        (firstState fun _ => 0) (0x1000, 0x2000) ∧
      ¬ InPage .k4 (0x1000, 0x2000) := by
  refine ⟨by decide +kernel, ⟨0x1000, _, rfl, .here (by decide +kernel)⟩, fun h => ?_⟩
  exact absurd h.2 (by decide)

end ServerSoc.Pgt
