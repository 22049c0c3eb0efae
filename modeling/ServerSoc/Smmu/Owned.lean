/-
The objects in memory and what the SMMU finds in them.

`Core` says where the tables are, that the words of each belong to it alone, and that
descriptors lead to the table they are for.  `StreamOk` says that the entry of a stream
has the words for its configuration, and with `Core` the SMMU then finds it
(`refines_of_streamOk`).
-/
import ServerSoc.Smmu.Device

namespace ServerSoc.Smmu

open Base Option Nat

/-! ## Alignment -/

theorem alignToSize_eq {n addr : Nat} (hn : n ≤ 64) (h : addr + 2 ^ n < 2 ^ 64) :
    alignToSize addr (2 ^ n) = (addr / 2 ^ n + 1) * 2 ^ n := by
  have hsum : 2 ^ n - addr % 2 ^ n + addr = (addr / 2 ^ n + 1) * 2 ^ n := by
    have hdiv := div_add_mod addr (2 ^ n)
    have hmul : (addr / 2 ^ n + 1) * 2 ^ n = 2 ^ n * (addr / 2 ^ n) + 2 ^ n := by
      rw [add_mul, one_mul, mul_comm]
    omega
  rw [alignToSize, and_low, hsum, and_not_low hn (by omega),
    Nat.mul_div_cancel _ (Nat.two_pow_pos n)]

theorem alignToSize_bounds {n addr : Nat} (hn : n ≤ 52) (h : addr + 2 * 2 ^ n ≤ 2 ^ 52) :
    addr ≤ alignToSize addr (2 ^ n) ∧ alignToSize addr (2 ^ n) + 2 ^ n ≤ addr + 2 * 2 ^ n ∧
      alignToSize addr (2 ^ n) % 2 ^ n = 0 := by
  rw [alignToSize_eq (by omega) (by omega)]
  have hdiv := div_add_mod addr (2 ^ n)
  have hmul : (addr / 2 ^ n + 1) * 2 ^ n = 2 ^ n * (addr / 2 ^ n) + 2 ^ n := by
    rw [add_mul, one_mul, mul_comm]
  refine ⟨by omega, by omega, mul_mod_left _ _⟩

/-! ## The stream table -/

/-- What the probe and the allocation of the stream table have to give: a size the
32-bit arithmetic can hold, and an address the base register can hold. -/
structure SmmuDev.Ok (smmu : SmmuDev) : Prop where
  linear : smmu.stLevel2lvl = false → smmu.sidBits ≤ 24
  twoLevel : smmu.stLevel2lvl = true → 8 < smmu.sidBits ∧ smmu.sidBits ≤ 32
  room : smmu.strtabPtr + 2 * smmu.strtabSize ≤ 2 ^ 52
  aligned : smmu.strtab64 % 2 ^ 6 = 0

def SmmuDev.strtabWords (smmu : SmmuDev) : Nat :=
  if smmu.stLevel2lvl then 2 ^ (smmu.sidBits - 8) else 2 ^ smmu.sidBits * 8

/-- The table, or its level 1 table, has this power of 2 as its size. -/
def SmmuDev.strtabLog2 (smmu : SmmuDev) : Nat :=
  if smmu.stLevel2lvl then smmu.sidBits - 8 + 3 else smmu.sidBits + 6

section

variable {smmu : SmmuDev}

theorem strtabSize_eq (h : smmu.strtabLog2 < 32) : smmu.strtabSize = 2 ^ smmu.strtabLog2 := by
  rw [← mod_eq_of_lt (Nat.pow_lt_pow_right (by decide) h), SmmuDev.strtabSize, SmmuDev.l1EntCount,
    SmmuDev.strtabLog2]
  cases smmu.stLevel2lvl with
  | false =>
    rw [if_neg (by decide), if_neg (by decide), one_shiftLeft, Nat.pow_add]
    rfl
  | true =>
    rw [if_pos rfl, if_pos rfl, if_pos rfl, one_shiftLeft, Nat.pow_add]
    rfl

theorem strtabLog2_le (hs : smmu.Ok) : smmu.strtabLog2 ≤ 30 := by
  rw [SmmuDev.strtabLog2]
  cases hl : smmu.stLevel2lvl with
  | false => exact Nat.add_le_add_right (hs.linear hl) 6
  | true =>
    have hbits := hs.twoLevel hl
    rw [if_pos rfl]
    omega

theorem strtab_bounds (hs : smmu.Ok) : smmu.strtabSize = smmu.strtabWords * 8 ∧
    2 * smmu.strtabSize < 2 ^ 32 ∧ smmu.strtabPtr ≤ smmu.strtab64 ∧
    smmu.strtab64 + smmu.strtabSize ≤ smmu.strtabPtr + 2 * smmu.strtabSize := by
  have hlog := strtabLog2_le hs
  have hpow : 2 ^ smmu.strtabLog2 ≤ 2 ^ 30 := Nat.pow_le_pow_right (by decide) hlog
  have hroom := hs.room
  rw [strtabSize_eq (by omega)] at hroom
  obtain ⟨h1, h2, -⟩ := alignToSize_bounds (by omega) hroom
  rw [SmmuDev.strtab64, strtabSize_eq (by omega)]
  refine ⟨?_, by omega, h1, h2⟩
  rw [SmmuDev.strtabLog2, SmmuDev.strtabWords]
  split
  · rw [Nat.pow_add]
  · rw [Nat.pow_add, Nat.mul_assoc]

theorem strtabBase_eq (hs : smmu.Ok) : smmu.strtabBase = smmu.strtab64 := by
  have hb := strtab_bounds hs
  have hroom := hs.room
  have hpos : 0 < smmu.strtabWords := by
    rw [SmmuDev.strtabWords]
    split
    · exact Nat.two_pow_pos _
    · exact Nat.mul_pos (Nat.two_pow_pos _) (by decide)
  exact and_mask_of_aligned hs.aligned (by omega)

end

/-! ## Objects -/

def steOf (smmu : SmmuDev) (level1 : Nat → Option Nat) (sid : Nat) : Option Nat :=
  if smmu.stLevel2lvl then (level1 (sid / 256)).map (fun p => p + sid % 256 * 64)
  else some (smmu.strtab64 + sid * 64)

def level1Word (p : Nat) : Nat := strtabL1DescSpan 9 ||| p &&& strtabL1DescL2PtrMask

def leafWord (q : Nat) : Nat := q &&& cdtabL1DescL2PtrMask ||| cdtabL1DescV

structure Level2Table (smmu : SmmuDev) (h : Heap Owner) (g p : Nat) : Prop where
  aligned : p % 2 ^ 14 = 0
  room : p + 2 ^ 14 ≤ 2 ^ 52
  desc : h.mem (smmu.strtab64 + g * 8) = level1Word p
  owns : h.Owns (.level2 g) p 2048

structure LeafTable (h : Heap Owner) (k i p q : Nat) : Prop where
  aligned : q % 2 ^ 16 = 0
  room : q + 2 ^ 16 ≤ 2 ^ 52
  desc : h.mem (p + i * 8) = leafWord q
  owns : h.Owns (.leaf k i) q 8192

structure CdTable (smmu : SmmuDev) (h : Heap Owner) (k : Nat) (m : Master) (p : Nat) : Prop where
  aligned : p % 2 ^ 6 = 0
  room : p + smmu.cdtabSize m.s1cdmax ≤ 2 ^ 52
  max : m.s1cdmax = m.ssidBits
  fits : m.ssidBits ≤ 20
  fmt : m.s1fmt = if smmu.cdTwoLevel m.s1cdmax then strtabSte0S1Fmt64kL2 else strtabSte0S1FmtLinear
  owns : h.Owns (.cdtab k) p (smmu.cdtabSize m.s1cdmax / 8)
  leaf : smmu.cdTwoLevel m.s1cdmax = true → ∀ i < 2 ^ (m.s1cdmax - 10), ∀ q,
    m.l1Desc i = some q → LeafTable h k i p q

variable {h : Heap Owner} {smmu : SmmuDev} {k sid p : Nat} {m : Master} {d : State}

theorem CdTable.congr {m' : Master} (ht : CdTable smmu h k m p) (hmax : m'.s1cdmax = m.s1cdmax)
    (hbits : m'.ssidBits = m.ssidBits) (hfmt : m'.s1fmt = m.s1fmt) (hl1 : m'.l1Desc = m.l1Desc) :
    CdTable smmu h k m' p := by
  refine ⟨ht.aligned, ?_, ?_, ?_, ?_, ?_, ?_⟩
  · rw [hmax]
    exact ht.room
  · rw [hmax, hbits, ht.max]
  · rw [hbits]
    exact ht.fits
  · rw [hmax, hfmt, ht.fmt]
  · rw [hmax]
    exact ht.owns
  · rw [hmax, hl1]
    exact ht.leaf

structure MasterOk (smmu : SmmuDev) (h : Heap Owner) (k : Nat) (m : Master) : Prop where
  idle : m.smmu = false → m = Master.zero
  table : ∀ p, m.cdtab64 = some p → CdTable smmu h k m p

structure Core (smmu : SmmuDev) (d : State) : Prop where
  strtab : d.heap.Owns .strtab smmu.strtab64 smmu.strtabWords
  absent : smmu.stLevel2lvl = true → ∀ g < 2 ^ (smmu.sidBits - 8), d.level1 g = none →
    spanInvalid (d.heap.mem (smmu.strtab64 + g * 8))
  present : smmu.stLevel2lvl = true → ∀ g < 2 ^ (smmu.sidBits - 8), ∀ p, d.level1 g = some p →
    Level2Table smmu d.heap g p
  masters : ∀ k < d.count, MasterOk smmu d.heap k (d.master k)

def cdAddr (m : Master) (ssid : Nat) : Option Nat :=
  match m.cdtab64 with
  | none => none
  | some p =>
    if m.s1fmt = strtabSte0S1FmtLinear then some (p + ssid * 64)
    else (m.l1Desc (ssid / 1024)).map fun q => q + ssid % 1024 * 64

/-- The entry at `a` leads to the table of master `k`, with the descriptor at `c`. -/
structure Stage1At (d : State) (sid ssidBits ssid : Nat) (pgt : PgtDescriptor) (a k p c : Nat) :
    Prop where
  master : k < d.count
  used : (d.master k).smmu = true
  stream : (d.master k).sid = sid
  table : (d.master k).cdtab64 = some p
  max : (d.master k).s1cdmax = ssidBits
  word0 : d.heap.mem a = stage1Word0 p ssidBits (d.master k).s1fmt
  word1 : d.heap.mem (a + 8) = stage1Word1
  bound : ssid < 2 ^ ssidBits
  desc : cdAddr (d.master k) ssid = some c
  cd0 : d.heap.mem c = cdWord0 pgt.tcr
  cd1 : d.heap.mem (c + 8) = pgt.pgtBase
  cd3 : d.heap.mem (c + 24) = pgt.mair

structure Stage2At (d : State) (sid : Nat) (pgt : PgtDescriptor) (a k : Nat) : Prop where
  master : k < d.count
  used : (d.master k).smmu = true
  stream : (d.master k).sid = sid
  word0 : d.heap.mem a = stage2Word0
  word1 : d.heap.mem (a + 8) = stage2Word1
  word2 : d.heap.mem (a + 16) = stage2Word2 pgt.tcr
  word3 : d.heap.mem (a + 24) = pgt.pgtBase

def StreamOk (smmu : SmmuDev) (d : State) (sid : Nat) : Option Config → Prop
  | none => ∀ a, steOf smmu d.level1 sid = some a →
      d.heap.mem a = abortWord0 ∧ d.heap.mem (a + 8) = abortWord1
  | some (.stage1 ssidBits ssid pgt) => ∃ a k p c, steOf smmu d.level1 sid = some a ∧
      Stage1At d sid ssidBits ssid pgt a k p c
  | some (.stage2 pgt) => ∃ a k, steOf smmu d.level1 sid = some a ∧ Stage2At d sid pgt a k

theorem StreamOk.of_some {c : Config} (h : StreamOk smmu d sid (some c)) :
    (∃ a, steOf smmu d.level1 sid = some a) ∧
      ∃ k < d.count, (d.master k).smmu = true ∧ (d.master k).sid = sid := by
  cases c with
  | stage1 ssidBits ssid pgt =>
    obtain ⟨a, k, p, c, ha, hat⟩ := h
    exact ⟨⟨a, ha⟩, k, hat.master, hat.used, hat.stream⟩
  | stage2 pgt =>
    obtain ⟨a, k, ha, hat⟩ := h
    exact ⟨⟨a, ha⟩, k, hat.master, hat.used, hat.stream⟩

/-! ## Entries -/

section

variable {ssid : Nat} {ste : Words}

theorem group_lt (hs : smmu.Ok) (hl : smmu.stLevel2lvl = true) (hsid : sid < 2 ^ smmu.sidBits) :
    sid / 256 < 2 ^ (smmu.sidBits - 8) := by
  have hbits := hs.twoLevel hl
  rw [Nat.div_lt_iff_lt_mul (by decide), show 256 = 2 ^ 8 from rfl, ← pow_add,
    Nat.sub_add_cancel (by omega)]
  exact hsid

theorem level1Word_span (p : Nat) : getField 5 0 (level1Word p) = 9 := by
  rw [level1Word, strtabL1DescL2PtrMask, and_mask_eq_setField, strtabL1DescSpan]
  simp (disch := decide)

theorem level1Word_ptr (hal : p % 2 ^ 14 = 0) (hroom : p + 2 ^ 14 ≤ 2 ^ 52) :
    level1Word p &&& strtabL1DescL2PtrMask = p := by
  rw [strtabL1DescL2PtrMask, and_mask_eq_getField, level1Word, strtabL1DescL2PtrMask,
    and_mask_eq_setField, strtabL1DescSpan]
  simp (disch := decide)
  omega

/-- The SMMU finds the level 2 table behind the descriptor the driver writes. -/
theorem entryAddr_of_desc (hs : smmu.Ok) (hl : smmu.stLevel2lvl = true) {mem : Nat → Nat}
    (hdesc : mem (smmu.strtab64 + sid / 256 * 8) = level1Word p) (hal : p % 2 ^ 14 = 0)
    (hroom : p + 2 ^ 14 ≤ 2 ^ 52) : entryAddr smmu mem sid = some (p + sid % 256 * 64) := by
  have hspan : ¬ spanInvalid (level1Word p) := by
    rw [spanInvalid, level1Word_span]
    decide
  have hlt : sid % 256 < 2 ^ (9 - 1) := mod_lt sid (by decide)
  rw [entryAddr, strtabBase_eq hs, hl, if_pos rfl]
  simp only [hdesc, if_neg hspan, level1Word_span, if_pos hlt, level1Word_ptr hal hroom]

structure Located (smmu : SmmuDev) (d : State) (sid a : Nat) : Prop where
  strtab : d.heap.Owns .strtab smmu.strtab64 smmu.strtabWords
  ste : steOf smmu d.level1 sid = some a
  table : smmu.stLevel2lvl = true → ∀ p, d.level1 (sid / 256) = some p →
    Level2Table smmu d.heap (sid / 256) p

variable {a i : Nat}

theorem Core.located (hs : smmu.Ok) (hc : Core smmu d) (hsid : sid < 2 ^ smmu.sidBits)
    (ha : steOf smmu d.level1 sid = some a) : Located smmu d sid a :=
  ⟨hc.strtab, ha, fun hl p hp => hc.present hl (sid / 256) (group_lt hs hl hsid) p hp⟩

theorem Located.entryAddr_eq (hs : smmu.Ok) (h : Located smmu d sid a) :
    entryAddr smmu d.heap.mem sid = some a := by
  have hste := h.ste
  rw [steOf] at hste
  cases hl : smmu.stLevel2lvl with
  | false =>
    rw [entryAddr, strtabBase_eq hs, ← hste, hl]
    rfl
  | true =>
    rw [hl] at hste
    obtain ⟨p, hp, hpa⟩ := map_eq_some_iff.mp hste
    have ht := h.table hl p hp
    rw [entryAddr_of_desc hs hl ht.desc ht.aligned ht.room, hpa]

theorem Located.own_entry (h : Located smmu d sid a) (hsid : sid < 2 ^ smmu.sidBits) (hi : i < 8) :
    d.heap.own (a + 8 * i) = some (if smmu.stLevel2lvl then .level2 (sid / 256) else .strtab) := by
  have hste := h.ste
  rw [steOf] at hste
  cases hl : smmu.stLevel2lvl with
  | false =>
    rw [hl, if_neg (by decide), some_inj] at hste
    have howns := h.strtab (sid * 8 + i) (by
      rw [SmmuDev.strtabWords, hl, if_neg (by decide)]
      omega)
    rw [← hste, show smmu.strtab64 + sid * 64 + 8 * i = smmu.strtab64 + 8 * (sid * 8 + i) by omega,
      howns]
    rfl
  | true =>
    rw [hl] at hste
    obtain ⟨p, hp, hpa⟩ := map_eq_some_iff.mp hste
    have ht := h.table hl p hp
    have howns := ht.owns (sid % 256 * 8 + i) (by omega)
    rw [← hpa, show p + sid % 256 * 64 + 8 * i = p + 8 * (sid % 256 * 8 + i) by omega, howns]
    rfl

section

variable (hs : smmu.Ok) (hc : Core smmu d) (hsid : sid < 2 ^ smmu.sidBits)
include hs hc hsid

theorem entryAddr_eq : entryAddr smmu d.heap.mem sid = steOf smmu d.level1 sid := by
  cases ha : steOf smmu d.level1 sid with
  | some a => exact (hc.located hs hsid ha).entryAddr_eq hs
  | none =>
    rw [steOf] at ha
    cases hl : smmu.stLevel2lvl with
    | false =>
      rw [hl] at ha
      cases ha
    | true =>
      rw [hl, if_pos rfl, map_eq_none_iff] at ha
      have hspan := hc.absent hl (sid / 256) (group_lt hs hl hsid) ha
      rw [entryAddr, strtabBase_eq hs, hl]
      simp [if_pos hspan]

theorem own_entry (ha : steOf smmu d.level1 sid = some a) (hi : i < 8) :
    d.heap.own (a + 8 * i) = some (if smmu.stLevel2lvl then .level2 (sid / 256) else .strtab) :=
  (hc.located hs hsid ha).own_entry hsid hi

theorem entry_ne {sid' a' : Nat} (hsid' : sid' < 2 ^ smmu.sidBits) (hne : sid ≠ sid')
    (ha : steOf smmu d.level1 sid = some a) (ha' : steOf smmu d.level1 sid' = some a') {j : Nat}
    (hi : i < 8) (hj : j < 8) : a + 8 * i ≠ a' + 8 * j := by
  have hown := own_entry hs hc hsid ha hi
  have hown' := own_entry hs hc hsid' ha' hj
  intro heq
  rw [← heq, hown, some_inj] at hown'
  cases hl : smmu.stLevel2lvl with
  | false =>
    rw [steOf, hl, if_neg (by decide), some_inj] at ha ha'
    omega
  | true =>
    rw [hl, if_pos rfl, if_pos rfl, Owner.level2.injEq] at hown'
    rw [steOf, hl] at ha ha'
    obtain ⟨p, hp, hpa⟩ := map_eq_some_iff.mp ha
    obtain ⟨p', hp', hpa'⟩ := map_eq_some_iff.mp ha'
    rw [← hown', hp, some_inj] at hp'
    omega

theorem fetch_eq (ha : steOf smmu d.level1 sid = some a) :
    fetch smmu d.heap.mem sid =
      if getField 1 0 (d.heap.mem a) = 0 ∨ getField 3 1 (d.heap.mem a) =
        strtabSte0ConfigAbort then none
      else some (wordsAt d.heap.mem a) := by
  rw [fetch, entryAddr_eq hs hc hsid, ha]
  rfl

theorem fetch_of_steOf_none (ha : steOf smmu d.level1 sid = none) :
    fetch smmu d.heap.mem sid = none := by
  rw [fetch, entryAddr_eq hs hc hsid, ha]

end

variable {s1cdmax : Nat}

theorem twoLevel_pow (h2 : smmu.cdTwoLevel s1cdmax = true) :
    2 ^ s1cdmax = 2 ^ (s1cdmax - 10) * 1024 := by
  have hlt : 2 ^ 10 < 2 ^ s1cdmax := by
    rw [SmmuDev.cdTwoLevel, Bool.and_eq_true, decide_eq_true_eq, one_shiftLeft] at h2
    exact h2.2
  have hmax : 10 ≤ s1cdmax := by
    by_contra hn
    have hpow : 2 ^ s1cdmax ≤ 2 ^ 10 := Nat.pow_le_pow_right (by decide) (by omega)
    omega
  rw [show 1024 = 2 ^ 10 from rfl, ← pow_add, Nat.sub_add_cancel hmax]

theorem leafIndex_lt (h2 : smmu.cdTwoLevel s1cdmax = true) (hssid : ssid < 2 ^ s1cdmax) :
    ssid / 1024 < 2 ^ (s1cdmax - 10) := by
  rw [Nat.div_lt_iff_lt_mul (by decide), ← twoLevel_pow h2]
  exact hssid

section

variable (ht : CdTable smmu h k m p)
include ht

theorem CdTable.fmt_linear (h2 : smmu.cdTwoLevel m.s1cdmax = false) :
    m.s1fmt = strtabSte0S1FmtLinear := by
  rw [ht.fmt, h2, if_neg (by decide)]

theorem CdTable.fmt_twoLevel (h2 : smmu.cdTwoLevel m.s1cdmax = true) :
    m.s1fmt ≠ strtabSte0S1FmtLinear := by
  rw [ht.fmt, h2]
  decide

theorem CdTable.cdAddr_linear (hp : m.cdtab64 = some p)
    (h2 : smmu.cdTwoLevel m.s1cdmax = false) (ssid : Nat) :
    cdAddr m ssid = some (p + ssid * 64) := by
  rw [cdAddr, hp]
  exact if_pos (ht.fmt_linear h2)

theorem CdTable.cdAddr_twoLevel (hp : m.cdtab64 = some p)
    (h2 : smmu.cdTwoLevel m.s1cdmax = true) (ssid : Nat) :
    cdAddr m ssid = (m.l1Desc (ssid / 1024)).map (fun q => q + ssid % 1024 * 64) := by
  rw [cdAddr, hp]
  exact if_neg (ht.fmt_twoLevel h2)

end

variable {c : Nat}

section

variable (ht : CdTable smmu h k m p) (hp : m.cdtab64 = some p) (hssid : ssid < 2 ^ m.s1cdmax)
include ht hp hssid

theorem own_cd (hcd : cdAddr m ssid = some c) (hi : i < 8) :
    h.own (c + 8 * i) =
      some (if smmu.cdTwoLevel m.s1cdmax then .leaf k (ssid / 1024) else .cdtab k) := by
  have howns := ht.owns
  cases h2 : smmu.cdTwoLevel m.s1cdmax with
  | false =>
    rw [ht.cdAddr_linear hp h2, some_inj] at hcd
    rw [SmmuDev.cdtabSize, h2, if_neg (by decide),
      show cdtabCdDwords <<< 3 = 8 * 8 from rfl]
      at howns
    rw [← hcd, show p + ssid * 64 + 8 * i = p + 8 * (ssid * 8 + i) by omega]
    exact howns (ssid * 8 + i) (by omega)
  | true =>
    rw [ht.cdAddr_twoLevel hp h2] at hcd
    obtain ⟨q, hq, hqc⟩ := map_eq_some_iff.mp hcd
    have hleaf := ht.leaf h2 (ssid / 1024) (leafIndex_lt h2 hssid) q hq
    rw [← hqc, show q + ssid % 1024 * 64 + 8 * i = q + 8 * (ssid % 1024 * 8 + i) by omega]
    exact hleaf.owns (ssid % 1024 * 8 + i) (by omega)

theorem cd_ne {c' : Nat} {ssid' : Nat} (hssid' : ssid' < 2 ^ m.s1cdmax) (hne : ssid ≠ ssid')
    (hcd : cdAddr m ssid = some c) (hcd' : cdAddr m ssid' = some c') {j : Nat} (hi : i < 8)
    (hj : j < 8) : c + 8 * i ≠ c' + 8 * j := by
  have hown := own_cd ht hp hssid hcd hi
  have hown' := own_cd ht hp hssid' hcd' hj
  intro heq
  rw [← heq, hown, some_inj] at hown'
  cases h2 : smmu.cdTwoLevel m.s1cdmax with
  | false =>
    rw [ht.cdAddr_linear hp h2, some_inj] at hcd hcd'
    omega
  | true =>
    rw [h2, if_pos rfl, if_pos rfl, Owner.leaf.injEq] at hown'
    rw [ht.cdAddr_twoLevel hp h2] at hcd hcd'
    obtain ⟨q, hq, hqc⟩ := map_eq_some_iff.mp hcd
    obtain ⟨q', hq', hqc'⟩ := map_eq_some_iff.mp hcd'
    rw [← hown'.2, hq, some_inj] at hq'
    omega

end

theorem leafWord_valid {q : Nat} (hal : q % 2 ^ 16 = 0) (hroom : q + 2 ^ 16 ≤ 2 ^ 52) :
    getField 1 0 (leafWord q) = 1 ∧ leafWord q &&& cdtabL1DescL2PtrMask = q := by
  have hword : leafWord q = setField 40 12 (q / 2 ^ 12) ||| setField 1 0 1 := by
    rw [leafWord, cdtabL1DescL2PtrMask, and_mask_eq_setField]
    rfl
  constructor
  · rw [hword]
    simp (disch := decide)
  · rw [cdtabL1DescL2PtrMask, and_mask_eq_getField, hword]
    simp (disch := decide)
    omega

theorem CdTable.fields (ht : CdTable smmu h k m p) (h0 : ste 0 = stage1Word0 p m.s1cdmax m.s1fmt) :
    ste 0 &&& strtabSte0S1ContextPtrMask = p ∧ getField 2 4 (ste 0) = m.s1fmt := by
  have hsize : 0 < smmu.cdtabSize m.s1cdmax := by
    have hpow := Nat.two_pow_pos m.s1cdmax
    rw [SmmuDev.cdtabSize, one_shiftLeft]
    split
    · refine Nat.mul_pos (Nat.div_pos ?_ (by decide)) (by decide)
      omega
    · exact Nat.mul_pos hpow (by decide)
  have hroom := ht.room
  constructor
  · rw [h0, stage1Word0_ptr ht.aligned (by omega)]
  · rw [h0, stage1Word0_fmt]
    rw [ht.fmt]
    split <;> decide

section

variable (ht : CdTable smmu h k m p) (hp : m.cdtab64 = some p)
include ht hp

theorem fetchCd_at (hssid : ssid < 2 ^ m.s1cdmax) (hcd : cdAddr m ssid = some c)
    (h0 : ste 0 = stage1Word0 p m.s1cdmax m.s1fmt) :
    fetchCd h.mem ste ssid = if getField 1 31 (h.mem c) = 0 then none
      else some (wordsAt h.mem c) := by
  obtain ⟨hptr, hfmt⟩ := ht.fields h0
  rw [fetchCd, hptr, hfmt]
  cases h2 : smmu.cdTwoLevel m.s1cdmax with
  | false =>
    rw [ht.cdAddr_linear hp h2] at hcd
    simp [if_pos (ht.fmt_linear h2), hcd]
  | true =>
    have hne := ht.fmt_twoLevel h2
    rw [ht.cdAddr_twoLevel hp h2] at hcd
    obtain ⟨q, hq, hqc⟩ := map_eq_some_iff.mp hcd
    have hleaf := ht.leaf h2 (ssid / 1024) (leafIndex_lt h2 hssid) q hq
    obtain ⟨hv, hq'⟩ := leafWord_valid hleaf.aligned hleaf.room
    have hv' : ¬ getField 1 0 (leafWord q) = 0 := by
      rw [hv]
      decide
    simp only [if_neg hne, hleaf.desc, if_neg hv', hq', hqc]

theorem fetchCd_absent
    (hcd : cdAddr m ssid = none) (hdesc : getField 1 0 (h.mem (p + ssid / 1024 * 8)) = 0)
    (h0 : ste 0 = stage1Word0 p m.s1cdmax m.s1fmt) : fetchCd h.mem ste ssid = none := by
  obtain ⟨hptr, hfmt⟩ := ht.fields h0
  cases h2 : smmu.cdTwoLevel m.s1cdmax with
  | false =>
    rw [ht.cdAddr_linear hp h2] at hcd
    cases hcd
  | true =>
    rw [fetchCd, hptr, hfmt]
    simp only [if_neg (ht.fmt_twoLevel h2), if_pos hdesc]

theorem fetchCd_eq (hssid : ssid < 2 ^ m.s1cdmax) (hcd : cdAddr m ssid = some c)
    (hvalid : getField 1 31 (h.mem c) = 1) (h0 : ste 0 = stage1Word0 p m.s1cdmax m.s1fmt) :
    fetchCd h.mem ste ssid = some (wordsAt h.mem c) := by
  rw [fetchCd_at ht hp hssid hcd h0, if_neg]
  rw [hvalid]
  decide

end

theorem fetch_of_streamOk_none (hs : smmu.Ok) (hc : Core smmu d) (hsid : sid < 2 ^ smmu.sidBits)
    (h : StreamOk smmu d sid none) : fetch smmu d.heap.mem sid = none := by
  cases ha : steOf smmu d.level1 sid with
  | none => exact fetch_of_steOf_none hs hc hsid ha
  | some a =>
    rw [fetch_eq hs hc hsid ha, (h a ha).1]
    rfl

theorem refines_of_streamOk (hs : smmu.Ok) (hc : Core smmu d) {table : Nat → Option Config}
    (h : ∀ sid < 2 ^ smmu.sidBits, StreamOk smmu d sid (table sid)) :
    Refines smmu d.heap.mem table := by
  intro sid hsid
  have hok := h sid hsid
  cases htab : table sid with
  | none =>
    rw [htab] at hok
    exact fetch_of_streamOk_none hs hc hsid hok
  | some c =>
    rw [htab] at hok
    cases c with
    | stage1 ssidBits ssid pgt =>
      obtain ⟨a, k, p, cd, ha, hat⟩ := hok
      have ht := (hc.masters k hat.master).table p hat.table
      have hword := hat.word0
      rw [← hat.max] at hword
      have hfits : ssidBits < 2 ^ 5 := by
        have hmax := ht.max
        have hle := ht.fits
        have heq := hat.max
        omega
      refine ⟨wordsAt d.heap.mem a, ?_, ?_, wordsAt d.heap.mem cd, ?_, ?_⟩
      · rw [fetch_eq hs hc hsid ha, hword, stage1Word0_valid, stage1Word0_config]
        rfl
      · exact stage1Entry_of_words hat.word0 hat.word1 hfits
      · refine fetchCd_eq ht hat.table (hat.max.symm ▸ hat.bound) hat.desc ?_ hword
        rw [hat.cd0, cdWord0_valid]
      · exact ctxDescFor_of_words hat.cd0 hat.cd1 hat.cd3
    | stage2 pgt =>
      obtain ⟨a, k, ha, hat⟩ := hok
      refine ⟨wordsAt d.heap.mem a, ?_, ?_⟩
      · rw [fetch_eq hs hc hsid ha, hat.word0]
        rfl
      · exact stage2Entry_of_words hat.word0 hat.word1 hat.word2 hat.word3

end

/-! ## What a change of the memory keeps -/

structure SameTables (m m' : Master) : Prop where
  cdtab64 : m'.cdtab64 = m.cdtab64
  l1Desc : m'.l1Desc = m.l1Desc
  s1fmt : m'.s1fmt = m.s1fmt
  s1cdmax : m'.s1cdmax = m.s1cdmax

structure SameMaster (m m' : Master) : Prop where
  used : m.smmu = true → m'.smmu = true ∧ m'.sid = m.sid
  tables : m.cdtab64 ≠ none → SameTables m m'

theorem SameMaster.refl (m : Master) : SameMaster m m :=
  ⟨fun h => ⟨h, rfl⟩, fun _ => ⟨rfl, rfl, rfl, rfl⟩⟩

def CdOwned (h : Heap Owner) (k a : Nat) : Prop :=
  h.own a = some (.cdtab k) ∨ ∃ i, h.own a = some (.leaf k i)

theorem CdOwned.ne_none (ha : CdOwned h k a) : h.own a ≠ none := by
  rcases ha with ha | ⟨i, ha⟩ <;> simp [ha]

theorem CdOwned.unique {j : Nat} (hj : CdOwned h j a) (hk : CdOwned h k a) : j = k := by
  rcases hj with hj | ⟨i, hj⟩ <;> rcases hk with hk | ⟨i', hk⟩ <;> rw [hj] at hk
  · cases hk
    rfl
  · cases hk
  · cases hk
  · cases hk
    rfl

theorem CdOwned.ne_strtab (ha : CdOwned h k a) : h.own a ≠ some .strtab := by
  rcases ha with ha | ⟨i, ha⟩ <;> simp [ha]

theorem Located.not_cdOwned (h : Located smmu d sid a) (hsid : sid < 2 ^ smmu.sidBits) {i : Nat}
    (hi : i < 8) (k : Nat) : ¬ CdOwned d.heap k (a + 8 * i) := by
  intro hcd
  have hown := h.own_entry hsid hi
  cases h2 : smmu.stLevel2lvl with
  | false =>
    rw [h2] at hown
    exact hcd.ne_strtab hown
  | true =>
    rw [h2] at hown
    rcases hcd with ha | ⟨i, ha⟩ <;> simp [ha] at hown

theorem cdOwned_cd {c : Nat} (ht : CdTable smmu h k m p) (hp : m.cdtab64 = some p) {ssid : Nat}
    (hssid : ssid < 2 ^ m.s1cdmax) (hcd : cdAddr m ssid = some c) {i : Nat} (hi : i < 8) :
    CdOwned h k (c + 8 * i) := by
  have hown := own_cd ht hp hssid hcd hi
  cases h2 : smmu.cdTwoLevel m.s1cdmax with
  | false =>
    rw [h2] at hown
    exact .inl hown
  | true =>
    rw [h2] at hown
    exact .inr ⟨_, hown⟩

section

variable {d' : State} {W : Nat → Prop}

/-- A stream keeps its configuration when its entry stays, the words of the entry stay,
and the masters of the stream stay with the words of their tables. -/
theorem StreamOk.frame (hs : smmu.Ok) (hc : Core smmu d) (hsid : sid < 2 ^ smmu.sidBits)
    {c : Option Config} (h : StreamOk smmu d sid c) (hf : d.heap.Frame W d'.heap)
    (hste : steOf smmu d'.level1 sid = steOf smmu d.level1 sid) (hcount : d.count ≤ d'.count)
    (hsame : ∀ k < d.count, (d.master k).sid = sid → SameMaster (d.master k) (d'.master k))
    (hentry : ∀ a, steOf smmu d.level1 sid = some a → ∀ i < 4, ¬ W (a + 8 * i))
    (hcd : ∀ k < d.count, (d.master k).sid = sid → ∀ a, CdOwned d.heap k a → ¬ W a) :
    StreamOk smmu d' sid c := by
  have hword : ∀ a, steOf smmu d.level1 sid = some a → ∀ i < 4,
      d'.heap.mem (a + 8 * i) = d.heap.mem (a + 8 * i) := by
    intro a ha i hi
    refine hf.mem _ ?_ (hentry a ha i hi)
    rw [own_entry hs hc hsid ha (by omega)]
    exact some_ne_none _
  cases c with
  | none =>
    intro a ha
    rw [hste] at ha
    obtain ⟨h0, h1⟩ := h a ha
    exact ⟨(hword a ha 0 (by decide)).trans h0, (hword a ha 1 (by decide)).trans h1⟩
  | some c =>
    cases c with
    | stage1 ssidBits ssid pgt =>
      obtain ⟨a, k, p, cd, ha, hat⟩ := h
      have hsome : (d.master k).cdtab64 ≠ none := by
        rw [hat.table]
        exact some_ne_none p
      obtain ⟨hused, hstream⟩ := (hsame k hat.master hat.stream).used hat.used
      have hm := (hsame k hat.master hat.stream).tables hsome
      have ht := (hc.masters k hat.master).table p hat.table
      have hcdword : ∀ i < 8, d'.heap.mem (cd + 8 * i) = d.heap.mem (cd + 8 * i) := by
        intro i hi
        have hown := cdOwned_cd ht hat.table (hat.max.symm ▸ hat.bound) hat.desc hi
        exact hf.mem _ hown.ne_none (hcd k hat.master hat.stream _ hown)
      refine ⟨a, k, p, cd, hste.trans ha, hat.master.trans_le hcount, hused,
        hstream.trans hat.stream, ?_, ?_, ?_, ?_, hat.bound, ?_, ?_, ?_, ?_⟩
      · rw [hm.cdtab64, hat.table]
      · rw [hm.s1cdmax, hat.max]
      · rw [hm.s1fmt, ← hat.word0]
        exact hword a ha 0 (by decide)
      · exact (hword a ha 1 (by decide)).trans hat.word1
      · rw [cdAddr, hm.cdtab64, hm.s1fmt, hm.l1Desc]
        exact hat.desc
      · exact (hcdword 0 (by decide)).trans hat.cd0
      · exact (hcdword 1 (by decide)).trans hat.cd1
      · exact (hcdword 3 (by decide)).trans hat.cd3
    | stage2 pgt =>
      obtain ⟨a, k, ha, hat⟩ := h
      obtain ⟨hused, hstream⟩ := (hsame k hat.master hat.stream).used hat.used
      exact ⟨a, k, hste.trans ha, hat.master.trans_le hcount, hused,
        hstream.trans hat.stream, (hword a ha 0 (by decide)).trans hat.word0,
        (hword a ha 1 (by decide)).trans hat.word1, (hword a ha 2 (by decide)).trans hat.word2,
        (hword a ha 3 (by decide)).trans hat.word3⟩

theorem fetch_frame (hs : smmu.Ok) (hc : Core smmu d) (hc' : Core smmu d')
    (hsid : sid < 2 ^ smmu.sidBits) (hf : d.heap.Frame W d'.heap)
    (hste : steOf smmu d'.level1 sid = steOf smmu d.level1 sid)
    (hentry : ∀ a, steOf smmu d.level1 sid = some a → ∀ i < 8, ¬ W (a + 8 * i)) :
    fetch smmu d'.heap.mem sid = fetch smmu d.heap.mem sid := by
  cases ha : steOf smmu d.level1 sid with
  | none =>
    rw [fetch_of_steOf_none hs hc hsid ha, fetch_of_steOf_none hs hc' hsid (hste.trans ha)]
  | some a =>
    have hword : ∀ i < 8, d'.heap.mem (a + 8 * i) = d.heap.mem (a + 8 * i) := by
      intro i hi
      refine hf.mem _ ?_ (hentry a ha i hi)
      rw [own_entry hs hc hsid ha hi]
      exact some_ne_none _
    have h0 : d'.heap.mem a = d.heap.mem a := hword 0 (by decide)
    have hwords : wordsAt d'.heap.mem a = wordsAt d.heap.mem a := by
      funext i
      exact hword i i.isLt
    rw [fetch_eq hs hc hsid ha, fetch_eq hs hc' hsid (hste.trans ha), h0, hwords]

end

end ServerSoc.Smmu
