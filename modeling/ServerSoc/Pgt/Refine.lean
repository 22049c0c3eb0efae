/-
The loops of `fill_translation_table` on memory.

With enough fuel a call on a table of height `n` ends, with the plan of its range laid over
what the table had before, with the counters of the plan, and with nothing written outside
the table and the tables below it.
-/
import ServerSoc.Pgt.Table

namespace ServerSoc.Pgt

open Base Radix Function List Nat Option

/-! ## One iteration -/

def fillEntry (g : Globals) (alloc : Nat → Option Nat) (attributes fuel : Nat) (tt : TtDescriptor)
    (input output : Nat) (s : State) : Option (Nat × State) :=
  let blockSize := 2 ^ tt.sizeLog2
  let tableDesc := tt.ttBase + 8 * (input >>> tt.sizeLog2 &&& 1 <<< tt.nbits - 1)
  let entries := getEntriesPerLevel g.pageSize
  if tt.level = 3 then
    let s := s.write tableDesc (pgtEntryPageMask ||| pgtEntryValidMask |||
      output &&& (2 ^ 64 - g.pageSize) ||| attributes)
    some (0, { s with info := incrementPgtIndex s.info tt.level entries, offset := 0 })
  else if input &&& blockSize - 1 = 0 ∧ output &&& blockSize - 1 = 0 ∧
      sub64 (add64 input blockSize) 1 ≤ tt.inputTop then
    let s := s.write tableDesc (pgtEntryBlockMask ||| pgtEntryValidMask |||
      output &&& (2 ^ 64 - blockSize) ||| attributes)
    some (0, { s with info := incrementPgtIndex s.info tt.level entries, offset := 0 })
  else
    match nextTable g alloc tableDesc s with
    | none => some (1, s)
    | some (ttBase, s) =>
      let offset := getPgtIndex s.info (tt.level + 1) * getBlockSize g.pageSize (tt.level + 1)
      let tt' := nextLevel g tt input output ttBase offset
      let s := { s with info := incrementPgtIndex s.info tt.level entries, offset := offset }
      match fillLoop g alloc attributes fuel tt' tt'.inputBase tt'.outputBase (initValues s) with
      | none => none
      | some (status, s) =>
        if status = 0 then
          some (0, s.write tableDesc (pgtEntryTableMask ||| pgtEntryValidMask |||
            ttBase &&& (2 ^ 64 - g.pageSize)))
        else some (1, s.free ttBase)

variable {tt : TtDescriptor} {attributes out n : Nat} {g : Granule}

theorem fillLoop_succ {g : Globals} {alloc : Nat → Option Nat} {fuel : Nat} {input output : Nat}
    {s : State} (hlt : input < tt.inputTop) :
    fillLoop g alloc attributes (fuel + 1) tt input output s =
      match fillEntry g alloc attributes fuel tt input output s with
      | none => none
      | some (status, s') =>
        if status = 0 then
          fillLoop g alloc attributes fuel tt (add64 input (sub64 (2 ^ tt.sizeLog2) s'.offset))
            (add64 output (sub64 (2 ^ tt.sizeLog2) s'.offset)) s'
        else some (1, s') := by
  rw [fillLoop, if_pos hlt, fillEntry]
  by_cases hlevel : tt.level = 3
  · rw [if_pos hlevel, if_pos hlevel]
    rfl
  · rw [if_neg hlevel]
    split
    · rfl
    · generalize nextTable g alloc _ s = r
      cases r with
      | none => rfl
      | some r =>
        dsimp only
        generalize fillLoop g alloc attributes fuel _ _ _ _ = r'
        cases r' with
        | none => rfl
        | some r' =>
          dsimp only
          split_ifs with hstatus <;> rfl

/-! ## Descriptors of leaves -/

def leafDesc (g : Granule) (attributes n out : Nat) : Nat :=
  (if n = 0 then 3 else 1) ||| out * g.pageSize &&& (2 ^ 64 - g.fan ^ n * g.pageSize) ||| attributes

theorem leafDesc_mod (h : attributes % 4 = 0) :
    leafDesc g attributes n out % 4 = if n = 0 then 3 else 1 := by
  have hmul : (out * g.pageSize &&& (2 ^ 64 - g.fan ^ n * g.pageSize)) % 4 = 0 := by
    have hout := mod_eq_zero_of_dvd (Nat.dvd_mul_left_of_dvd g.four_dvd out)
    rw [show 4 = 2 ^ 2 from rfl, and_mod_two_pow]
    rw [hout, zero_and]
  rw [leafDesc, show 4 = 2 ^ 2 from rfl, or_mod_two_pow, or_mod_two_pow]
  rw [h, hmul]
  split <;> rfl

/-! ## Addresses and pages -/

variable {a cnt : Nat}

section

variable {b : Nat}

theorem shiftRight_page (g : Granule) (n a nbits : Nat) :
    (a * g.pageSize) >>> (n * g.bits + g.log2) &&& 1 <<< nbits - 1 = a / g.fan ^ n % 2 ^ nbits := by
  rw [shiftLeft_eq, one_mul, shiftRight_and, g.fan_pow, Nat.mul_div_mul_right _ _ g.pageSize_pos]

theorem and_block_eq_zero (g : Granule) (n a : Nat) :
    a * g.pageSize &&& 2 ^ (n * g.bits + g.log2) - 1 = 0 ↔ g.fan ^ n ∣ a := by
  rw [and_low, g.fan_pow, mul_mod_mul_right, Nat.mul_eq_zero, dvd_iff_mod_eq_zero]
  exact or_iff_left (Nat.pos_iff_ne_zero.mp g.pageSize_pos)

theorem add64_page (h : (a + b) * g.pageSize < 2 ^ 64) :
    add64 (a * g.pageSize) (b * g.pageSize) = (a + b) * g.pageSize := by
  rw [add64, ← add_mul, mod_eq_of_lt h]

theorem sub64_of_le {x y : Nat} (hle : y ≤ x) (hx : x < 2 ^ 64) : sub64 x y = x - y := by
  rw [sub64]
  omega

theorem Granule.one_lt_pageSize (g : Granule) : 1 < g.pageSize := by
  cases g <;> decide

theorem lastAddress (ha : 0 < a) (h : a * g.pageSize < 2 ^ 64) :
    sub64 (a * g.pageSize) 1 = a * g.pageSize - 1 :=
  sub64_of_le (Nat.mul_pos ha g.pageSize_pos) h

theorem last_le_iff : a * g.pageSize - 1 ≤ b * g.pageSize - 1 ↔ a ≤ b := by
  have hps := g.one_lt_pageSize
  constructor
  · by_contra hlt
    have hmul : (b + 1) * g.pageSize ≤ a * g.pageSize := Nat.mul_le_mul_right _ (by omega)
    rw [add_mul] at hmul
    omega
  · intro h
    have hmul : a * g.pageSize ≤ b * g.pageSize := Nat.mul_le_mul_right _ h
    omega

theorem lt_last_iff : a * g.pageSize < b * g.pageSize - 1 ↔ a < b := by
  have hps := g.one_lt_pageSize
  constructor
  · by_contra hle
    have hmul : b * g.pageSize ≤ a * g.pageSize := Nat.mul_le_mul_right _ (by omega)
    omega
  · intro h
    have hmul : (a + 1) * g.pageSize ≤ b * g.pageSize := Nat.mul_le_mul_right _ h
    rw [add_mul] at hmul
    omega

end

/-! ## Writing one entry of a table -/

variable {i base : Nat} {h h' : Heap (List Nat)} {path : List Nat} {table : Nat → Radix}

section

variable {new : Radix}

def EntryArea (h : Heap (List Nat)) (path : List Nat) (base i a : Nat) : Prop :=
  a = base + 8 * i ∨ BelowPath h (i :: path) a

theorem not_cons_suffix (i : Nat) (path : List Nat) : ¬ (i :: path) <:+ path := by
  intro hs
  have hlen := hs.length_le
  rw [length_cons] at hlen
  omega

theorem not_belowPath_entry (howns : h.Owns path base g.fan) (hi : i < g.fan) (j : Nat) :
    ¬ BelowPath h (j :: path) (base + 8 * i) := by
  intro ⟨path', hown, hsuffix⟩
  rw [howns i hi] at hown
  obtain rfl := some.inj hown
  exact not_cons_suffix j _ hsuffix

theorem BelowPath.of_frame {W : Nat → Prop} (hf : Heap.Frame W h h') (hown : h.own a ≠ none)
    (hb : BelowPath h' path a) : BelowPath h path a := by
  obtain ⟨o, ho⟩ := ne_none_iff_exists'.mp hown
  obtain ⟨path', hown', hsuffix⟩ := hb
  rw [hf.own a o ho] at hown'
  obtain rfl := some.inj hown'
  exact ⟨o, ho, hsuffix⟩

theorem not_entryArea (howns : h.Owns path base g.fan) (hi : i < g.fan) {j : Nat} (hne : j ≠ i)
    (ha : BelowPath h (j :: path) a) : ¬ EntryArea h path base i a := by
  rintro (rfl | ⟨path'', hown', hsuffix'⟩)
  · exact not_belowPath_entry howns hi j ha
  · obtain ⟨path', hown, hsuffix⟩ := ha
    rw [hown] at hown'
    obtain rfl := some.inj hown'
    exact hne (head_unique hsuffix hsuffix')

theorem EncTable.update (he : EncTable g h n path table base) (hi : i < g.fan)
    (hf : Heap.Frame (EntryArea h path base i) h h')
    (hnew : Enc g h' n (i :: path) new (h'.mem (base + 8 * i))) :
    EncTable g h' n path (update table i new) base where
  aligned := he.aligned
  owns := he.owns.frame hf
  entry j hj := by
    by_cases hji : j = i
    · rw [hji, update_self]
      exact hnew
    · rw [update_of_ne hji]
      have hother : ¬ EntryArea h path base i (base + 8 * j) := by
        rintro (heq | hbelow)
        · omega
        · exact not_belowPath_entry he.owns hj i hbelow
      rw [he.owns.mem_eq hf hj hother]
      exact (he.entry j hj).frame hf fun a ha => not_entryArea he.owns hi hji ha

theorem EntryArea.below (howns : h.Owns path base g.fan) (hi : i < g.fan)
    (ha : EntryArea h path base i a) : BelowPath h path a := by
  rcases ha with rfl | ⟨path', hown, hsuffix⟩
  · exact ⟨path, howns i hi, suffix_refl path⟩
  · exact ⟨path', hown, (suffix_cons i path).trans hsuffix⟩

end

/-! ## What a call does -/

def globalsOf (g : Granule) (ias : Nat) : Globals where
  pageSize := g.pageSize
  bitsPerLevel := g.bits
  pgtAddrMask := (2 ^ (ias - g.log2) - 1) <<< g.log2

/-- The `cnt` pages from `a` on, for a table of height `n`. -/
structure RangeArgs (g : Granule) (n : Nat) (tt : TtDescriptor) (a cnt out : Nat) : Prop where
  height : n ≤ 3
  level : tt.level = 3 - n
  sizeLog2 : tt.sizeLog2 = n * g.bits + g.log2
  top : tt.inputTop = (a + cnt) * g.pageSize - 1
  pos : 0 < cnt
  bound : (a + cnt) * g.pageSize ≤ 2 ^ 48
  size : g.fan ^ n * g.pageSize ≤ 2 ^ 48
  outBound : (out + cnt) * g.pageSize ≤ 2 ^ 64 - 2 ^ 49

/-- A loop over the range, which does not come back to an entry. -/
structure FillArgs (g : Granule) (n : Nat) (tt : TtDescriptor) (a cnt out : Nat) : Prop
    extends RangeArgs g n tt a cnt out where
  digits : blocks (g.fan ^ n) cnt ≤ g.fan
  index : ∀ k < blocks (g.fan ^ n) cnt,
    (a / g.fan ^ n + k) % 2 ^ tt.nbits = (a / g.fan ^ n + k) % g.fan

section

variable {ias : Nat} {h2 : Heap (List Nat)} {s' : State}

structure Owned (P : Pages g ias) (s : State) (h : Heap (List Nat)) : Prop where
  mem : h.mem = s.mem
  allocated : Allocated P h s.allocated

structure LoopInv (P : Pages g ias) (attributes n : Nat) (path : List Nat) (table : Nat → Radix)
    (base a cnt out : Nat) (s : State) (h : Heap (List Nat)) (k : Nat) (s' : State)
    (h' : Heap (List Nat)) : Prop where
  owned : Owned P s' h'
  enc : EncTable g h' n path (fun i => overlay (leafDesc g attributes) n (table i)
    ((planSteps g n a cnt out k s.info).1 i)) base
  info : s'.info = (planSteps g n a cnt out k s.info).2
  offset : 0 < k → s'.offset = 0
  init : s'.isValuesInit = true
  frame : Heap.Frame (BelowPath h path) h h'
  allocated : s'.allocated =
    s.allocated + tableFresh g.fan table (planSteps g n a cnt out k s.info).1
  freed : s'.freed = s.freed
  given : Given P.alloc s s'

structure EntryFilled (P : Pages g ias) (attributes n : Nat) (path : List Nat) (old : Radix)
    (base a cnt out i : Nat) (s : State) (h : Heap (List Nat)) (s' : State) (h' : Heap (List Nat)) :
    Prop where
  owned : Owned P s' h'
  enc : Enc g h' n (i :: path) (overlay (leafDesc g attributes) n old
    (planEntry g n a cnt out s.info).1) (h'.mem (base + 8 * i))
  info : s'.info = (planEntry g n a cnt out s.info).2
  offset : s'.offset = 0
  init : s'.isValuesInit = true
  frame : Heap.Frame (EntryArea h path base i) h h'
  allocated : s'.allocated = s.allocated + fresh g.fan old (planEntry g n a cnt out s.info).1
  freed : s'.freed = s.freed
  given : Given P.alloc s s'

/-- A call ends, with an error and `E` if the allocator fails, and with `Q` if not. -/
def Ends (r : Option (Nat × State)) (E : State → Prop) (Q : State → Heap (List Nat) → Prop) :
    Prop :=
  (∃ s', r = some (1, s') ∧ E s') ∨ ∃ s' h', r = some (0, s') ∧ Q s' h'

def FillSpec (P : Pages g ias) (attributes n : Nat) : Prop :=
  ∀ fuel tt s h path table a cnt out, (n + 1) * (g.fan + 1) ≤ fuel → FillArgs g n tt a cnt out →
    Counters g n s.info → s.isValuesInit = true → Owned P s h →
    EncTable g h n path table tt.ttBase →
    Ends (fillLoop (globalsOf g ias) P.alloc attributes fuel tt (a * g.pageSize) (out * g.pageSize)
      s) (Broken P (table = fun _ => .empty) (openTable g n a cnt out s.info) s)
      (LoopInv P attributes n path table tt.ttBase a cnt out s h (blocks (g.fan ^ n) cnt))

variable {P : Pages g ias} {s : State} {old : Radix} {info : AcsPgt}

theorem Owned.write (ho : Owned P s h) (x v : Nat) : Owned P (s.write x v) (h.set x v) where
  mem := by
    show update h.mem x v = update s.mem x v
    rw [ho.mem]
  allocated := ho.allocated

theorem EntryFilled.of_leaf (ho : Owned P s h) (hinit : s.isValuesInit = true)
    (hattr : attributes % 4 = 0) (hplan : planEntry g n a cnt out s.info = (.leaf out, info)) :
    EntryFilled P attributes n path old base a cnt out i s h
      { s.write (base + 8 * i) (leafDesc g attributes n out) with info := info, offset := 0 }
      (h.set (base + 8 * i) (leafDesc g attributes n out)) where
  owned := ⟨(ho.write _ _).mem, (ho.write _ _).allocated⟩
  enc := by
    rw [hplan, Heap.mem_set_self]
    exact enc_leaf.mpr ⟨rfl, leafDesc_mod hattr⟩
  info := by rw [hplan]
  offset := rfl
  init := hinit
  frame := Heap.frame_set (.inl rfl) _
  allocated := by
    rw [hplan]
    rfl
  freed := rfl
  given := .of_eq rfl rfl

theorem allocPage_spec (ho : Owned P s h) {p : Nat} (hp : P.alloc s.allocated = some p) (n : Nat)
    (path : List Nat) :
    ∃ s' h', allocPage g.pageSize P.alloc s = some (p, s') ∧
      Owned P s' h' ∧ s'.info = s.info ∧ s'.isValuesInit = s.isValuesInit ∧
      EncTable g h' n path (fun _ => .empty) p ∧ (∀ W, Heap.Frame W h h') ∧
      s'.allocated = s.allocated + 1 ∧ s'.freed = s.freed := by
  have hfree : h.Free p g.pageSize := by
    intro x h1 h2
    by_contra hown
    obtain ⟨j, hj, q, hq, h3, h4⟩ := ho.allocated x hown
    have hpq : q = p := page_unique (P.aligned j q hq) (P.aligned _ p hp) ⟨h3, h4⟩ ⟨h1, h2⟩
    have hjk := P.inj j s.allocated p (hpq ▸ hq) hp
    omega
  refine ⟨{ s with
      mem := fun x => if p ≤ x ∧ x < p + g.pageSize then 0 else s.mem x
      allocated := s.allocated + 1 },
    (h.claim p g.pageSize path).zero p g.pageSize, by rw [allocPage, hp], ?_, rfl,
    rfl, ?_, fun _ => Heap.frame_zero_claim hfree path, rfl, rfl⟩
  · constructor
    · funext x
      show (if _ then 0 else h.mem x) = if _ then 0 else s.mem x
      rw [ho.mem]
    · intro x hx
      by_cases hin : p ≤ x ∧ x < p + g.pageSize
      · exact ⟨s.allocated, lt_succ_self _, p, hp, hin⟩
      · have hold : h.own x ≠ none := by
          intro hnone
          refine hx ?_
          show (if _ then _ else h.own x) = none
          rw [if_neg hin, hnone]
        obtain ⟨j, hj, hin'⟩ := ho.allocated x hold
        exact ⟨j, lt_succ_of_lt hj, hin'⟩
  · have hin : ∀ j < g.fan, p ≤ p + 8 * j ∧ p + 8 * j < p + g.pageSize := by
      rw [g.pageSize_eq]
      omega
    refine ⟨P.aligned _ p hp, fun j hj => Heap.own_claim_inside (hin j hj).1 (hin j hj).2,
      fun j hj => ?_⟩
    exact enc_empty.mpr (if_pos (hin j hj))

/-- The table below an entry: a new page, if there was none. -/
structure NextTable (P : Pages g ias) (n : Nat) (path : List Nat) (old : Radix) (base i : Nat)
    (s : State) (h : Heap (List Nat)) (base' : Nat) (s' : State) (h' : Heap (List Nat)) : Prop where
  owned : Owned P s' h'
  info : s'.info = s.info
  init : s'.isValuesInit = s.isValuesInit
  enc : EncTable g h' n (i :: path) (fun j => old.entry j) base'
  frame : Heap.Frame (EntryArea h path base i) h h'
  allocated : s'.allocated = s.allocated + (if old.isNode then 0 else 1)
  freed : s'.freed = s.freed
  given : Given P.alloc s s'
  page : old = .empty → P.alloc s.allocated = some base'

theorem nextTable_spec (hias : ias ≤ 48) (hlog : g.log2 ≤ ias) (ho : Owned P s h)
    (he : EncTable g h (n + 1) path table base) (hi : i < g.fan) :
    nextTable (globalsOf g ias) P.alloc (base + 8 * i) s = none ∧ P.alloc s.allocated = none ∨
    ∃ base' s' h', nextTable (globalsOf g ias) P.alloc (base + 8 * i) s = some (base', s') ∧
      NextTable P n path (table i) base i s h base' s' h' := by
  have hcases := he.entry_cases ho.allocated hlog hias hi
  rw [ho.mem] at hcases
  rcases hcases with ⟨hcond, hnode⟩ | ⟨below, base', htree, he', hpoints⟩
  · rw [nextTable, if_pos hcond]
    cases hp : P.alloc s.allocated with
    | none =>
      left
      rw [allocPage, hp]
      exact ⟨rfl, rfl⟩
    | some p =>
      obtain ⟨s', h', heq, ho', hinfo, hinit, henc, hframe, hcount, hfreed⟩ :=
        allocPage_spec ho hp n (i :: path)
      refine .inr ⟨_, s', h', heq, ho', hinfo, hinit, ?_, hframe _, ?_, hfreed,
        .page hp hcount hfreed, fun _ => hp⟩
      · rw [entry_of_not_node hnode]
        exact henc
      · rw [hnode]
        exact hcount
  · rw [htree]
    refine .inr ⟨base', s, h, ?_, ho, rfl, rfl, he', Heap.Frame.refl _ h, rfl, rfl,
      .of_eq rfl rfl, nofun⟩
    rw [nextTable, if_neg]
    · exact congrArg (fun x => some (x, s)) hpoints.mask
    · rw [hpoints.block]
      simp [hpoints.ne_zero]

structure EntryArgs (g : Granule) (n : Nat) (tt : TtDescriptor) (a cnt out i : Nat) : Prop
    extends RangeArgs g n tt a cnt out where
  index : a / g.fan ^ n % 2 ^ tt.nbits = i
  lt : i < g.fan

variable {fuel k : Nat}

theorem EntryArgs.address (h : EntryArgs g n tt a cnt out i) :
    tt.ttBase + 8 * ((a * g.pageSize) >>> tt.sizeLog2 &&& 1 <<< tt.nbits - 1) =
      tt.ttBase + 8 * i := by
  rw [h.sizeLog2, shiftRight_page, h.index]

theorem EntryArgs.block_iff (h : EntryArgs g n tt a cnt out i) :
    (a * g.pageSize &&& 2 ^ tt.sizeLog2 - 1 = 0 ∧ out * g.pageSize &&& 2 ^ tt.sizeLog2 - 1 = 0 ∧
      sub64 (add64 (a * g.pageSize) (2 ^ tt.sizeLog2)) 1 ≤ tt.inputTop) ↔
    IsBlock g n a cnt out := by
  have hbound := h.bound
  have hsize := h.size
  have hlt : (a + g.fan ^ n) * g.pageSize < 2 ^ 64 := by
    rw [add_mul] at hbound ⊢
    omega
  rw [h.sizeLog2, and_block_eq_zero, and_block_eq_zero, g.fan_pow, add64_page hlt,
    lastAddress (Nat.add_pos_right _ (g.fan_pow_pos n)) hlt, h.top, last_le_iff,
      Nat.add_le_add_iff_left]

theorem EntryArgs.nextLevel (ias : Nat) (h : EntryArgs g (n + 1) tt a cnt out i)
    (hc : Counters g (n + 1) info) (ttBase : Nat) :
    FillArgs g n (nextLevel (globalsOf g ias) tt (a * g.pageSize) (out * g.pageSize) ttBase
      (getPgtIndex info (tt.level + 1) * getBlockSize g.pageSize (tt.level + 1)))
      a (subCount g n cnt info) out := by
  have hn := h.height
  have hlevel : tt.level + 1 = 3 - n := by
    rw [h.level]
    omega
  have hoff := offset_lt (n := n) (by omega) (hc.low (succ_ne_zero n)) (hc.l1Low <| congrArg succ ·)
  have hle : subCount g n cnt info ≤ cnt := min_le_left _ _
  have hbound := h.bound
  have hsize := h.size
  have hout := h.outBound
  have hmono : ∀ x, (x + subCount g n cnt info) * g.pageSize ≤ (x + cnt) * g.pageSize :=
    fun x => Nat.mul_le_mul_right _ (by omega)
  refine ⟨⟨by omega, ?_, ?_, ?_, lt_min h.pos (Nat.sub_pos_of_lt hoff), (hmono a).trans hbound, ?_,
    (hmono out).trans hout⟩, blocks_subCount_le g n cnt info, fun _ _ => rfl⟩
  · rw [← hlevel]
    rfl
  · show tt.sizeLog2 - g.bits = _
    rw [h.sizeLog2, add_mul]
    omega
  · -- the range ends with the table, less the offset
    have hlt : (a + g.fan ^ (n + 1)) * g.pageSize < 2 ^ 64 := by
      rw [add_mul] at hbound ⊢
      omega
    show min tt.inputTop (sub64 (sub64 (add64 (a * g.pageSize) (2 ^ tt.sizeLog2))
      (getPgtIndex info (tt.level + 1) * getBlockSize g.pageSize (tt.level + 1))) 1) = _
    rw [h.top, h.sizeLog2, g.fan_pow, add64_page hlt, hlevel, getBlockSize_pageSize g (by omega),
      ← mul_assoc]
    generalize hu : getPgtIndex info (3 - n) * g.unit n = u at hoff
    have hsub : sub64 ((a + g.fan ^ (n + 1)) * g.pageSize) (u * g.pageSize) =
        (a + (g.fan ^ (n + 1) - u)) * g.pageSize := by
      rw [sub64_of_le (Nat.mul_le_mul_right _ (by omega)) hlt, ← Nat.sub_mul,
        Nat.add_sub_assoc (by omega)]
    have hlt' : (a + (g.fan ^ (n + 1) - u)) * g.pageSize < 2 ^ 64 :=
      (Nat.mul_le_mul_right _ (by omega)).trans_lt hlt
    rw [hsub, lastAddress (by omega) hlt', subCount, hu]
    rcases le_total cnt (g.fan ^ (n + 1) - u) with hc | hc
    · rw [Nat.min_eq_left hc, Nat.min_eq_left (last_le_iff.mpr (by omega))]
    · rw [Nat.min_eq_right hc, Nat.min_eq_right (last_le_iff.mpr (by omega))]
  · refine (Nat.mul_le_mul_right _ ?_).trans hsize
    exact Nat.pow_le_pow_right g.fan_pos (le_succ n)

theorem enc_node {below : Nat → Radix} {base' : Nat}
    (howns : h2.Owns path base g.fan) (hi : i < g.fan)
    (he : EncTable g h2 n (i :: path) below base') :
    Enc g (h2.set (base + 8 * i) (tableDesc g base')) (n + 1) (i :: path) (.node below)
      (tableDesc g base') := by
  have hf : Heap.Frame (fun a => a = base + 8 * i) h2 (h2.set (base + 8 * i) (tableDesc g base')) :=
    Heap.frame_set (W := fun a => a = base + 8 * i) rfl _
  have hother : ∀ a, BelowPath h2 (i :: path) a → a ≠ base + 8 * i := by
    intro a ha heq
    rw [heq] at ha
    exact not_belowPath_entry howns hi i ha
  refine ⟨base', rfl, he.aligned, he.owns.frame hf, fun j hj => ?_⟩
  rw [he.owns.mem_eq hf hj (hother _ ⟨_, he.owns j hj, suffix_refl _⟩)]
  refine (he.entry j hj).frame hf fun a ha => hother a ?_
  obtain ⟨path', hown, hsuffix⟩ := ha
  exact ⟨path', hown, (suffix_cons j _).trans hsuffix⟩

def enter (g : Granule) (tt : TtDescriptor) (s : State) : State :=
  { s with
    offset := getPgtIndex s.info (tt.level + 1) * getBlockSize g.pageSize (tt.level + 1)
    info := incrementPgtIndex s.info tt.level g.fan }

theorem EntryArgs.fillEntry_leaf (hargs : EntryArgs g n tt a cnt out i) (alloc : Nat → Option Nat)
    (s : State) (hleaf : n = 0 ∨ IsBlock g n a cnt out) :
    ∃ info, planEntry g n a cnt out s.info = (.leaf out, info) ∧
      fillEntry (globalsOf g ias) alloc attributes fuel tt (a * g.pageSize) (out * g.pageSize) s =
        some (0, { s.write (tt.ttBase + 8 * i) (leafDesc g attributes n out) with
          info := info, offset := 0 }) := by
  have hentries : getEntriesPerLevel (globalsOf g ias).pageSize = g.fan :=
    getEntriesPerLevel_pageSize g
  simp only [fillEntry]
  rw [hargs.address, hentries]
  cases n with
  | zero =>
    have hlevel := hargs.level
    have hdesc : pgtEntryPageMask ||| pgtEntryValidMask |||
        out * g.pageSize &&& (2 ^ 64 - (globalsOf g ias).pageSize) ||| attributes =
        leafDesc g attributes 0 out := by
      rw [leafDesc, pow_zero, one_mul]
      rfl
    rw [hdesc, hlevel]
    exact ⟨_, rfl, rfl⟩
  | succ n =>
    have hblock := hleaf.resolve_left (succ_ne_zero n)
    have hlevel : tt.level ≠ 3 := by
      rw [hargs.level]
      omega
    have hdesc : pgtEntryBlockMask ||| pgtEntryValidMask |||
        out * g.pageSize &&& (2 ^ 64 - 2 ^ tt.sizeLog2) ||| attributes =
        leafDesc g attributes (n + 1) out := by
      rw [hargs.sizeLog2, g.fan_pow]
      rfl
    rw [if_neg hlevel, if_pos (hargs.block_iff.mpr hblock), hdesc, hargs.level]
    exact ⟨_, planEntry_block hblock, rfl⟩

theorem EntryArgs.fillEntry_table (hargs : EntryArgs g (n + 1) tt a cnt out i)
    (alloc : Nat → Option Nat) (s : State)
    (hblock : ¬ IsBlock g (n + 1) a cnt out) :
    fillEntry (globalsOf g ias) alloc attributes fuel tt (a * g.pageSize) (out * g.pageSize) s =
      match nextTable (globalsOf g ias) alloc (tt.ttBase + 8 * i) s with
      | none => some (1, s)
      | some (base', s1) =>
        match fillLoop (globalsOf g ias) alloc attributes fuel
          (Pgt.nextLevel (globalsOf g ias) tt (a * g.pageSize) (out * g.pageSize) base'
            (getPgtIndex s1.info (tt.level + 1) * getBlockSize g.pageSize (tt.level + 1)))
          (a * g.pageSize) (out * g.pageSize) (initValues (enter g tt s1)) with
        | none => none
        | some (status, s3) =>
          if status = 0 then some (0, s3.write (tt.ttBase + 8 * i) (tableDesc g base'))
          else some (1, s3.free base') := by
  have hentries : getEntriesPerLevel (globalsOf g ias).pageSize = g.fan :=
    getEntriesPerLevel_pageSize g
  have hlevel : tt.level ≠ 3 := by
    rw [hargs.level]
    omega
  simp only [fillEntry]
  rw [hargs.address, hentries, if_neg hlevel, if_neg (fun hb => hblock (hargs.block_iff.mp hb))]
  rfl

theorem FillArgs.entry (hargs : FillArgs g n tt a cnt out) (hk : k < blocks (g.fan ^ n) cnt) :
    EntryArgs g n tt (a + k * g.fan ^ n) (cnt - k * g.fan ^ n) (out + k * g.fan ^ n)
      ((a / g.fan ^ n + k) % g.fan) := by
  have hkc := (lt_blocks_iff (g.fan_pow_pos n)).mp hk
  have hsum : ∀ x, x + k * g.fan ^ n + (cnt - k * g.fan ^ n) = x + cnt := fun x => by omega
  refine ⟨⟨hargs.height, hargs.level, hargs.sizeLog2, ?_, by omega, ?_, hargs.size, ?_⟩, ?_,
    mod_lt _ g.fan_pos⟩
  · rw [hsum, hargs.top]
  · rw [hsum]
    exact hargs.bound
  · rw [hsum]
    exact hargs.outBound
  · rw [add_mul_div_right _ _ (g.fan_pow_pos n)]
    exact hargs.index k hk

theorem LoopInv.start (attributes a cnt out : Nat) (hinit : s.isValuesInit = true)
    (ho : Owned P s h) (he : EncTable g h n path table base) :
    LoopInv P attributes n path table base a cnt out s h 0 s h where
  owned := ho
  enc := he
  info := rfl
  offset := fun h0 => absurd h0 (lt_irrefl 0)
  init := hinit
  frame := Heap.Frame.refl _ h
  allocated := (add_zero _).symm.trans
    (congrArg (s.allocated + ·) (tableFresh_empty g.fan table).symm)
  freed := rfl
  given := .of_eq rfl rfl

theorem FillArgs.advance (hargs : FillArgs g n tt a cnt out) (hk : k < blocks (g.fan ^ n) cnt)
    {x : Nat} (hx : (x + cnt) * g.pageSize ≤ 2 ^ 64 - 2 ^ 49) (hoff : s'.offset = 0) :
    add64 ((x + k * g.fan ^ n) * g.pageSize) (sub64 (2 ^ tt.sizeLog2) s'.offset) =
      (x + (k + 1) * g.fan ^ n) * g.pageSize := by
  have hkc := (lt_blocks_iff (g.fan_pow_pos n)).mp hk
  have hsize := hargs.size
  have hmono : (x + k * g.fan ^ n) * g.pageSize ≤ (x + cnt) * g.pageSize :=
    Nat.mul_le_mul_right _ (by omega)
  have hsplit : (x + k * g.fan ^ n + g.fan ^ n) * g.pageSize =
      (x + k * g.fan ^ n) * g.pageSize + g.fan ^ n * g.pageSize := add_mul _ _ _
  rw [hoff, hargs.sizeLog2, g.fan_pow, sub64_of_le (Nat.zero_le _) (by omega), Nat.sub_zero,
    add64_page (by omega), succ_mul, add_assoc]

/-! ## The loop -/

section

variable (hias : ias ≤ 48) (hlog : g.log2 ≤ ias) (hattr : attributes % 4 = 0)
  (hbelow : ∀ m, n = m + 1 → FillSpec P attributes m)
include hias hlog hattr hbelow

theorem fillEntry_spec (hargs : EntryArgs g n tt a cnt out i)
    (hfuel : n * (g.fan + 1) ≤ fuel) (hc : Counters g n s.info)
    (hinit : s.isValuesInit = true) (ho : Owned P s h) (he : EncTable g h n path table tt.ttBase) :
    Ends (fillEntry (globalsOf g ias) P.alloc attributes fuel tt (a * g.pageSize) (out * g.pageSize)
      s) (fun s' => 0 < openEntry g n a cnt out s.info ∧
        Broken P (table i = .empty) (openEntry g n a cnt out s.info) s s')
      (EntryFilled P attributes n path (table i) tt.ttBase a cnt out i s h) := by
  by_cases hleaf : n = 0 ∨ IsBlock g n a cnt out
  · obtain ⟨info, hplan, heq⟩ := hargs.fillEntry_leaf P.alloc s hleaf
    exact .inr ⟨_, _, heq, EntryFilled.of_leaf ho hinit hattr hplan⟩
  obtain ⟨hn0, hblock⟩ := not_or.mp hleaf
  obtain ⟨n, rfl⟩ : ∃ m, n = m + 1 := ⟨n - 1, by omega⟩
  have hn := hargs.height
  rw [hargs.fillEntry_table P.alloc s hblock, openEntry_table hblock]
  rcases nextTable_spec hias hlog ho he hargs.lt with
    ⟨hnone, hfull⟩ | ⟨base', s1, h1, hnext, hopen⟩
  · rw [hnone]
    exact .inl ⟨s, rfl, by omega, .of_eq rfl rfl, hfull, fun _ => failed_refl P (by omega) s⟩
  rw [hnext]
  dsimp only
  -- the call for the table below
  have hargs' := hargs.nextLevel ias hc base'
  rw [← hopen.info] at hc hargs'
  have hinit2 := hopen.init.trans hinit
  have hinfo2 : (enter g tt s1).info = incrementPgtIndex s1.info (3 - (n + 1)) g.fan := by
    rw [← hargs.level]
    rfl
  have hcall :=
    hbelow n rfl fuel _ (enter g tt s1) h1 (i :: path) _ a (subCount g n cnt s1.info) out
    hfuel hargs' ⟨fun _ => by rw [hinfo2]; exact (hc.low hn0).increment hn0, by omega⟩
      hinit2 ⟨hopen.owned.mem, hopen.owned.allocated⟩ hopen.enc
  have hgiven : Given P.alloc s (enter g tt s1) := hopen.given.trans (.of_eq rfl rfl)
  rw [show initValues (enter g tt s1) = enter g tt s1 from if_pos hinit2]
  rcases hcall with ⟨s3, hloop, hbroken⟩ | ⟨s3, h3, hloop, hfilled⟩
  · rw [hloop]
    refine .inl ⟨_, rfl, by omega, (hgiven.trans hbroken.given).free base', hbroken.full, ?_⟩
    intro hempty
    have hcount : (enter g tt s1).allocated = s.allocated + 1 := by
      rw [hempty] at hopen
      exact hopen.allocated
    have hfail := hbroken.failed (by rw [hempty]; rfl)
    rw [hinfo2, hopen.info] at hfail
    exact hfail.opened (hopen.page hempty) hcount hopen.freed
  rw [hloop]
  have hframe := hopen.frame.trans hfilled.frame
    (fun _ hown hbelow => .inr (hbelow.of_frame hopen.frame hown))
  have hplan : planEntry g (n + 1) a cnt out s1.info =
      (.node (planTable g n a (subCount g n cnt s1.info) out (enter g tt s1).info).1,
        (planTable g n a (subCount g n cnt s1.info) out (enter g tt s1).info).2) := by
    rw [hinfo2]
    exact planEntry_table hblock
  refine .inr ⟨_, h3.set (tt.ttBase + 8 * i) (tableDesc g base'), rfl,
    ?_, ?_, ?_, ?_, ?_, ?_, ?_, ?_, ?_⟩
  · exact hfilled.owned.write _ _
  · rw [← hopen.info, hplan, Heap.mem_set_self]
    exact enc_node (he.owns.frame hframe) hargs.lt hfilled.enc
  · rw [← hopen.info, hplan]
    exact hfilled.info
  · exact hfilled.offset
      ((lt_blocks_iff (g.fan_pow_pos n)).mpr (by rw [zero_mul]; exact hargs'.pos))
  · exact hfilled.init
  · exact hframe.set (.inl rfl) _
  · have hcount : s3.allocated = s1.allocated +
        tableFresh g.fan (table i).entry
          (planTable g n a (subCount g n cnt s1.info) out (enter g tt s1).info).1 :=
      hfilled.allocated
    show s3.allocated = _
    rw [hcount, hopen.allocated, ← hopen.info, hplan, fresh_node, add_assoc]
  · exact hfilled.freed.trans hopen.freed
  · exact hgiven.trans (hfilled.given.trans (.of_eq rfl rfl))

theorem LoopInv.step (hargs : FillArgs g n tt a cnt out) (hfuel : n * (g.fan + 1) ≤ fuel)
    (hc : Counters g n s.info)
    (hinv : LoopInv P attributes n path table tt.ttBase a cnt out s h k s' h')
    (hk : k < blocks (g.fan ^ n) cnt) :
    Ends (fillEntry (globalsOf g ias) P.alloc attributes fuel tt
        ((a + k * g.fan ^ n) * g.pageSize) ((out + k * g.fan ^ n) * g.pageSize) s')
      (Broken P (table = fun _ => .empty) (openTable g n a cnt out s.info) s)
      (fun s'' h'' => s''.offset = 0 ∧
        LoopInv P attributes n path table tt.ttBase a cnt out s h (k + 1) s'' h'') := by
  have hc' : Counters g n s'.info := hinv.info ▸ hc.steps k
  have hargs' := hargs.entry hk
  -- the entry has not been visited before
  have hmiss : (planSteps g n a cnt out k s.info).1 ((a / g.fan ^ n + k) % g.fan) = .empty :=
    planSteps_miss hargs.digits hk
  generalize hidx : (a / g.fan ^ n + k) % g.fan = i at hargs' hmiss
  rcases fillEntry_spec hias hlog hattr hbelow hargs' hfuel hc' hinv.init hinv.owned hinv.enc
    with ⟨s'', herr, hpos, hbroken⟩ | ⟨s'', h'', heq, hentry⟩
  · refine .inl ⟨s'', herr, hinv.given.trans hbroken.given, hbroken.full, ?_⟩
    intro hempty
    have hfail := hbroken.failed (by rw [hempty, hmiss]; rfl)
    rw [hinv.info] at hpos hfail
    rw [hempty] at hinv
    exact hfail.behind hpos hargs.digits hk hinv.allocated hinv.freed
  have henc := hinv.enc.update hargs'.lt hentry.frame hentry.enc
  -- what the entry had before is what the table had at the start
  have hold : overlay (leafDesc g attributes) n (table i)
      ((planSteps g n a cnt out k s.info).1 i) = table i := by
    rw [hmiss]
    cases table i <;> rfl
  have hstep : (planSteps g n a cnt out (k + 1) s.info).1 =
      update (planSteps g n a cnt out k s.info).1 i (planEntry g n (a + k * g.fan ^ n)
        (cnt - k * g.fan ^ n) (out + k * g.fan ^ n) (planSteps g n a cnt out k s.info).2).1 := by
    rw [← hidx]
    rfl
  refine .inr ⟨s'', h'', heq, hentry.offset, hentry.owned, ?_, ?_, fun _ => hentry.offset,
    hentry.init, ?_, ?_, hentry.freed.trans hinv.freed, hinv.given.trans hentry.given⟩
  · convert henc using 1
    funext j
    rw [hstep, ← hinv.info]
    by_cases hj : j = i
    · rw [hj, update_self, update_self, hmiss]
      rfl
    · rw [update_of_ne hj, update_of_ne hj]
  · rw [hentry.info, hinv.info]
    rfl
  · exact hinv.frame.trans hentry.frame
      (fun x hown harea => (harea.below hinv.enc.owns hargs'.lt).of_frame hinv.frame hown)
  · have hcount := hentry.allocated
    rw [hold, hinv.info] at hcount
    rw [hcount, hinv.allocated, hstep, tableFresh_update hargs'.lt hmiss, add_assoc]

theorem LoopInv.loop (r : Nat) (hargs : FillArgs g n tt a cnt out)
    (hfuel : r + 1 + n * (g.fan + 1) ≤ fuel) (hc : Counters g n s.info)
    (hinv : LoopInv P attributes n path table tt.ttBase a cnt out s h k s' h')
    (hr : k + r = blocks (g.fan ^ n) cnt) :
    Ends (fillLoop (globalsOf g ias) P.alloc attributes fuel tt
        ((a + k * g.fan ^ n) * g.pageSize) ((out + k * g.fan ^ n) * g.pageSize) s')
      (Broken P (table = fun _ => .empty) (openTable g n a cnt out s.info) s)
      (LoopInv P attributes n path table tt.ttBase a cnt out s h (blocks (g.fan ^ n) cnt)) := by
  have hb := g.fan_pow_pos n
  induction r generalizing k s' h' fuel with
  | zero =>
    obtain ⟨fuel, rfl⟩ : ∃ m, fuel = m + 1 := ⟨fuel - 1, by omega⟩
    have hend : ¬ k * g.fan ^ n < cnt := by
      rw [← lt_blocks_iff hb]
      omega
    subst hr
    refine .inr ⟨s', h', ?_, hinv⟩
    rw [fillLoop, if_neg]
    rw [hargs.top, lt_last_iff]
    omega
  | succ r ih =>
    obtain ⟨fuel, rfl⟩ : ∃ m, fuel = m + 1 := ⟨fuel - 1, by omega⟩
    have hk : k < blocks (g.fan ^ n) cnt := by omega
    have hkc := (lt_blocks_iff hb).mp hk
    have hlt : (a + k * g.fan ^ n) * g.pageSize < tt.inputTop := by
      rw [hargs.top, lt_last_iff]
      omega
    rw [fillLoop_succ hlt]
    rcases hinv.step hias hlog hattr hbelow hargs (show n * (g.fan + 1) ≤ fuel by omega) hc hk
      with ⟨s'', herr, hbroken⟩ | ⟨s'', h'', heq, hoff, hinv'⟩
    · rw [herr]
      exact .inl ⟨s'', rfl, hbroken⟩
    rw [heq]
    dsimp only
    rw [hargs.advance hk (hargs.bound.trans (by decide)) hoff,
      hargs.advance hk hargs.outBound hoff]
    exact ih (by omega) hinv' (by omega)

/-- A call, if the calls for the tables below do what the plan says. -/
theorem fillSpec_of_below : FillSpec P attributes n := by
  intro fuel tt s h path table a cnt out hfuel hargs hc hinit ho he
  have hstart := LoopInv.start attributes a cnt out hinit ho he
  have hdigits := hargs.digits
  have hfuel' : blocks (g.fan ^ n) cnt + 1 + n * (g.fan + 1) ≤ fuel := by
    rw [succ_mul] at hfuel
    omega
  have hloop := hstart.loop hias hlog hattr hbelow (blocks (g.fan ^ n) cnt) hargs hfuel' hc
    (zero_add _)
  rwa [zero_mul, add_zero, add_zero] at hloop

end

theorem fillSpec (P : Pages g ias) (hias : ias ≤ 48) (hlog : g.log2 ≤ ias)
    (hattr : attributes % 4 = 0) (n : Nat) : FillSpec P attributes n := by
  induction n with
  | zero => exact fillSpec_of_below hias hlog hattr (fun m hm => absurd hm (succ_ne_zero m).symm)
  | succ n ih =>
    refine fillSpec_of_below hias hlog hattr fun m hm => ?_
    obtain rfl := succ.inj hm
    exact ih

end

end ServerSoc.Pgt
