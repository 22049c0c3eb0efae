/-
The steps of a map call, and what each of them keeps.

A step keeps the invariant, and for the streams in `P` the configuration and the entry
the SMMU fetches (`Keeps`).  Steps that prepare tables keep every stream, the ones that
write a context descriptor or an entry keep all but the stream they are for.
-/
import ServerSoc.Smmu.Owned

namespace ServerSoc.Smmu

open Base Function Nat Option

structure Fresh (h : Heap Owner) (p len : Nat) : Prop where
  free : h.Free p len
  room : p + len ≤ 2 ^ 52

structure Keeps (smmu : SmmuDev) (P : Nat → Prop) (d d' : State) : Prop where
  core : Core smmu d'
  streams : ∀ t < 2 ^ smmu.sidBits, P t → ∀ c, StreamOk smmu d t c → StreamOk smmu d' t c
  entries : ∀ t < 2 ^ smmu.sidBits, P t →
    fetch smmu d'.heap.mem t = fetch smmu d.heap.mem t

variable {smmu : SmmuDev} {d : State} {h : Heap Owner} {k : Nat}

section

variable {d' d'' : State} {P Q : Nat → Prop} {W : Nat → Prop} {h' : Heap Owner} {m : Master}
  {p i : Nat}

theorem Keeps.refl (h : Core smmu d) : Keeps smmu P d d :=
  ⟨h, fun _ _ _ _ hok => hok, fun _ _ _ => rfl⟩

theorem Keeps.trans (h1 : Keeps smmu P d d') (h2 : Keeps smmu P d' d'') : Keeps smmu P d d'' :=
  ⟨h2.core, fun t ht hp c hok => h2.streams t ht hp c (h1.streams t ht hp c hok),
    fun t ht hp => (h2.entries t ht hp).trans (h1.entries t ht hp)⟩

theorem Keeps.mono (h : Keeps smmu P d d') (hPQ : ∀ t, Q t → P t) : Keeps smmu Q d d' :=
  ⟨h.core, fun t ht hq => h.streams t ht (hPQ t hq), fun t ht hq => h.entries t ht (hPQ t hq)⟩

theorem Keeps.of_frame (hs : smmu.Ok) (hc : Core smmu d) (hc' : Core smmu d')
    (hf : d.heap.Frame W d'.heap) (hl : d'.level1 = d.level1) (hcount : d.count ≤ d'.count)
    (hsame : ∀ k < d.count, P (d.master k).sid → SameMaster (d.master k) (d'.master k))
    (hentry : ∀ t < 2 ^ smmu.sidBits, P t → ∀ a, steOf smmu d.level1 t = some a →
      ∀ i < 8, ¬ W (a + 8 * i))
    (hcd : ∀ k < d.count, P (d.master k).sid → ∀ a, CdOwned d.heap k a → ¬ W a) :
    Keeps smmu P d d' := by
  refine ⟨hc', fun t ht hp c hok => ?_, fun t ht hp => ?_⟩
  · refine hok.frame hs hc ht hf (by rw [hl]) hcount ?_ ?_ ?_
    · intro k hk hsid
      exact hsame k hk (hsid.symm ▸ hp)
    · intro a ha i hi
      exact hentry t ht hp a ha i (by omega)
    · intro k hk hsid
      exact hcd k hk (hsid.symm ▸ hp)
  · exact fetch_frame hs hc hc' ht hf (by rw [hl]) (hentry t ht hp)

theorem cdtabWords_twoLevel {s1cdmax : Nat} (h2 : smmu.cdTwoLevel s1cdmax = true) :
    smmu.cdtabSize s1cdmax = 2 ^ (s1cdmax - 10) * 8 := by
  rw [SmmuDev.cdtabSize, h2, one_shiftLeft, twoLevel_pow h2]
  show (2 ^ (s1cdmax - 10) * 1024 + 1024 - 1) / 1024 * 8 = _
  omega

section

variable (ht : CdTable smmu h k m p)
include ht

theorem CdTable.own_desc (h2 : smmu.cdTwoLevel m.s1cdmax = true)
    (hi : i < 2 ^ (m.s1cdmax - 10)) : h.own (p + i * 8) = some (.cdtab k) := by
  have hown := ht.owns i (by
    rw [cdtabWords_twoLevel h2, Nat.mul_div_cancel _ (by decide)]
    exact hi)
  rwa [mul_comm 8 i] at hown

theorem CdTable.transfer
    (hown : ∀ a o, h.own a = some o → (o = .cdtab k ∨ ∃ i, o = .leaf k i) → h'.own a = some o)
    (hmem : smmu.cdTwoLevel m.s1cdmax = true → ∀ a, h.own a = some (.cdtab k) →
      h'.mem a = h.mem a) : CdTable smmu h' k m p := by
  refine ⟨ht.aligned, ht.room, ht.max, ht.fits, ht.fmt,
    fun i hi => hown _ _ (ht.owns i hi) (.inl rfl), fun h2 i hi q hq => ?_⟩
  have hleaf := ht.leaf h2 i hi q hq
  refine ⟨hleaf.aligned, hleaf.room, ?_, fun n hn => hown _ _ (hleaf.owns n hn) (.inr ⟨i, rfl⟩)⟩
  rw [hmem h2 _ (ht.own_desc h2 hi), hleaf.desc]

theorem CdTable.frame (hf : h.Frame W h')
    (hW : smmu.cdTwoLevel m.s1cdmax = true → ∀ a, h.own a = some (.cdtab k) → ¬ W a) :
    CdTable smmu h' k m p :=
  ht.transfer (fun a o ho _ => hf.own a o ho)
    (fun h2 a ha => hf.mem a (by simp [ha]) (hW h2 a ha))

end

theorem MasterOk.frame (hm : MasterOk smmu h k m) (hf : h.Frame W h')
    (hW : ∀ a, CdOwned h k a → ¬ W a) : MasterOk smmu h' k m :=
  ⟨hm.idle, fun p hp => (hm.table p hp).frame hf (fun _ a ha => hW a (.inl ha))⟩

theorem own_level1 (hst : d.heap.Owns .strtab smmu.strtab64 smmu.strtabWords)
    (h2 : smmu.stLevel2lvl = true) {g : Nat} (hg : g < 2 ^ (smmu.sidBits - 8)) :
    d.heap.own (smmu.strtab64 + g * 8) = some .strtab := by
  have hown := hst g (by rwa [SmmuDev.strtabWords, h2, if_pos rfl])
  rwa [mul_comm 8] at hown

/-- The invariant stays with the owners of the stream table and with the descriptors of the
level 1 table, when the masters are seen to be right. -/
theorem Core.transfer (hc : Core smmu d) (hl : d'.level1 = d.level1)
    (hown : ∀ a o, d.heap.own a = some o →
      (o = .strtab ∨ ∃ g < 2 ^ (smmu.sidBits - 8), o = .level2 g) → d'.heap.own a = some o)
    (hdesc : smmu.stLevel2lvl = true → ∀ g < 2 ^ (smmu.sidBits - 8),
      d'.heap.mem (smmu.strtab64 + g * 8) = d.heap.mem (smmu.strtab64 + g * 8))
    (hmasters : ∀ k < d'.count, MasterOk smmu d'.heap k (d'.master k)) : Core smmu d' := by
  refine ⟨fun i hi => hown _ _ (hc.strtab i hi) (.inl rfl), fun h2 g hg hnone => ?_,
    fun h2 g hg p hp => ?_, hmasters⟩
  · rw [hl] at hnone
    rw [hdesc h2 g hg]
    exact hc.absent h2 g hg hnone
  · rw [hl] at hp
    have ht := hc.present h2 g hg p hp
    exact ⟨ht.aligned, ht.room, (hdesc h2 g hg).trans ht.desc,
      fun i hi => hown _ _ (ht.owns i hi) (.inr ⟨g, hg, rfl⟩)⟩

theorem Core.of_frame (hc : Core smmu d) (hf : d.heap.Frame W d'.heap) (hl : d'.level1 = d.level1)
    (hW : smmu.stLevel2lvl = true → ∀ g < 2 ^ (smmu.sidBits - 8), ¬ W (smmu.strtab64 + g * 8))
    (hmasters : ∀ k < d'.count, MasterOk smmu d'.heap k (d'.master k)) : Core smmu d' :=
  hc.transfer hl (fun a o ho _ => hf.own a o ho)
    (fun h2 g hg => hf.mem _ (by simp [own_level1 hc.strtab h2 hg]) (hW h2 g hg)) hmasters

theorem MasterOk.zero : MasterOk smmu h k Master.zero := ⟨fun _ => rfl, fun _ hp => by cases hp⟩

section

variable (hs : smmu.Ok) (hc : Core smmu d)
include hs hc

theorem Keeps.of_same (hf : d.heap.Frame (fun _ => False) d'.heap) (hl : d'.level1 = d.level1)
    (hcount : d.count ≤ d'.count) (hm : ∀ k < d.count, d'.master k = d.master k)
    (hnew : ∀ k < d'.count, d.count ≤ k → d'.master k = Master.zero) :
    Keeps smmu (fun _ => True) d d' := by
  have hc' : Core smmu d' := by
    apply hc.of_frame hf hl fun _ _ _ h => h
    intro k hk
    by_cases hlt : k < d.count
    · rw [hm k hlt]
      exact (hc.masters k hlt).frame hf fun _ _ h => h
    · rw [hnew k hk (not_lt.mp hlt)]
      exact .zero
  apply Keeps.of_frame hs hc hc' hf hl hcount
  · intro k hk _
    rw [hm k hk]
    exact .refl _
  · exact fun _ _ _ _ _ _ _ h => h
  · exact fun _ _ _ _ _ h => h

theorem not_cdOwned_entry {sid a : Nat}
    (hsid : sid < 2 ^ smmu.sidBits) (ha : steOf smmu d.level1 sid = some a) (hi : i < 8) (k : Nat) :
    ¬ CdOwned d.heap k (a + 8 * i) :=
  (hc.located hs hsid ha).not_cdOwned hsid hi k

/-- A change of master `k` and of words of its tables keeps the streams of the others.
Its own stream is kept if its words stay and the change is none its stream sees. -/
theorem keeps_master (hf : d.heap.Frame W h')
    (hW : ∀ a, W a → CdOwned d.heap k a) (hm : MasterOk smmu h' k m)
    (hsame : P (d.master k).sid → SameMaster (d.master k) m ∧ ∀ a, ¬ W a) :
    Keeps smmu P d { d with heap := h', master := update d.master k m } := by
  have hother : ∀ j ≠ k, ∀ a, CdOwned d.heap j a → ¬ W a :=
    fun j hj a ha hwa => hj (ha.unique (hW a hwa))
  have hc' : Core smmu { d with heap := h', master := update d.master k m } := by
    refine hc.of_frame hf rfl (fun h2 g hg hwa => (hW _ hwa).ne_strtab (own_level1 hc.strtab h2 hg))
      (fun j hj => ?_)
    show MasterOk smmu h' j (update d.master k m j)
    by_cases hjk : j = k
    · rw [hjk, update_self]
      exact hm
    · rw [update_of_ne hjk]
      exact (hc.masters j hj).frame hf (hother j hjk)
  refine .of_frame hs hc hc' hf rfl le_rfl (fun j hj hp => ?_) (fun t ht _ a ha i hi hwa =>
    not_cdOwned_entry hs hc ht ha hi k (hW _ hwa)) fun j hj hp a ha => ?_
  · show SameMaster (d.master j) (update d.master k m j)
    by_cases hjk : j = k
    · subst hjk
      rw [update_self]
      exact (hsame hp).1
    · rw [update_of_ne hjk]
      exact .refl _
  · by_cases hjk : j = k
    · subst hjk
      exact (hsame hp).2 a
    · exact hother j hjk a ha

end

end

/-! ## Masters -/

variable {sid : Nat}

section

variable {master : Nat → Master} {n : Nat}

theorem findMaster_some (h : findMaster master sid n = some k) : k < n ∧ (master k).sid = sid := by
  induction n with
  | zero => cases h
  | succ n ih =>
    rw [findMaster] at h
    split_ifs at h with hsid
    · cases h
      exact ⟨lt_succ_self _, hsid⟩
    · obtain ⟨hlt, hsid⟩ := ih h
      exact ⟨lt_succ_of_lt hlt, hsid⟩

theorem findMaster_ne_none (hk : k < n) (hsid : (master k).sid = sid) :
    findMaster master sid n ≠ none := by
  induction n with
  | zero => exact absurd hk (Nat.not_lt_zero k)
  | succ n ih =>
    rw [findMaster]
    split_ifs with hne
    · exact some_ne_none n
    · refine ih (Nat.lt_of_le_of_ne (le_of_lt_succ hk) ?_)
      intro hkn
      rw [← hkn] at hne
      exact hne hsid

theorem setMaster_keeps (hs : smmu.Ok) (hc : Core smmu d) {m : Master}
    (hm : MasterOk smmu d.heap k m) (hsame : SameMaster (d.master k) m) :
    Keeps smmu (fun _ => True) d (d.setMaster k m) :=
  keeps_master hs hc (.refl (fun _ => False) _) (fun _ h => h.elim) hm
    (fun _ => ⟨hsame, fun _ h => h⟩)

def InUse (d : State) (sid k : Nat) : Prop :=
  findMaster d.master sid d.count = some k ∧ (d.master k).smmu = true

/-- The master a call works on: of its stream, or one not in use. -/
structure MasterFor (smmu : SmmuDev) (d d' : State) (sid k : Nat) : Prop where
  keeps : Keeps smmu (fun _ => True) d d'
  lt : k < d'.count
  found : (d'.master k).smmu = true → InUse d sid k ∧ d' = d

theorem masterFor_smmuMasterAt (hs : smmu.Ok) (hc : Core smmu d) (sid : Nat) :
    MasterFor smmu d (smmuMasterAt d sid).2 sid (smmuMasterAt d sid).1 := by
  rw [smmuMasterAt]
  cases hfind : findMaster d.master sid d.count with
  | some k => exact ⟨.refl hc, (findMaster_some hfind).1, fun hu => ⟨⟨hfind, hu⟩, rfl⟩⟩
  | none =>
    refine ⟨.of_same hs hc (.refl _ _) rfl (le_succ _)
      (fun j hj => update_of_ne (Nat.ne_of_lt hj) _ _) (fun j hj hge => ?_), lt_succ_self _,
      fun hu => ?_⟩
    · obtain rfl : j = d.count := Nat.le_antisymm (le_of_lt_succ hj) hge
      exact update_self _ _ _
    · simp only [update_self] at hu
      cases hu

structure Taken (smmu : SmmuDev) (d d' : State) (attr : MasterAttributes) (k : Nat) : Prop where
  keeps : Keeps smmu (fun _ => True) d d'
  lt : k < d'.count
  used : (d'.master k).smmu = true
  sid : (d'.master k).sid = attr.streamid
  ssidBits : (∀ j, InUse d attr.streamid j → (d.master j).ssidBits = attr.ssidBits) →
    (d'.master k).ssidBits = attr.ssidBits

theorem taken_takeMaster (hs : smmu.Ok) (hc : Core smmu d) (attr : MasterAttributes) :
    Taken smmu d (takeMaster d attr).2 attr (takeMaster d attr).1 := by
  have hfor := masterFor_smmuMasterAt hs hc attr.streamid
  rw [takeMaster]
  generalize (smmuMasterAt d attr.streamid).1 = k at *
  generalize (smmuMasterAt d attr.streamid).2 = d' at *
  cases hu : (d'.master k).smmu with
  | true =>
    obtain ⟨hin, rfl⟩ := hfor.found hu
    exact ⟨hfor.keeps, hfor.lt, hu, (findMaster_some hin.1).2, fun hbits => hbits k hin⟩
  | false =>
    have hzero := (hfor.keeps.core.masters k hfor.lt).idle hu
    have hnone : (d'.master k).cdtab64 = none := by
      rw [hzero]
      rfl
    have hset : Keeps smmu (fun _ => True) d' (d'.setMaster k
        { d'.master k with smmu := true, sid := attr.streamid, ssidBits := attr.ssidBits }) := by
      refine setMaster_keeps hs hfor.keeps.core ⟨fun h => ?_, fun p hp => ?_⟩ ⟨fun h => ?_,
        fun hne => ?_⟩
      · cases h
      · cases hnone.symm.trans hp
      · cases hu.symm.trans h
      · exact absurd hnone hne
    simp only [Bool.false_eq_true, if_false]
    refine ⟨hfor.keeps.trans hset, hfor.lt, ?_, ?_, fun _ => ?_⟩
    all_goals simp only [State.setMaster, update_self]

end

/-! ## Entries -/

theorem writes_writeSte (cfg : Option StageConfig) (ste : Nat) (h : Heap Owner) :
    h.Writes (fun a => ∃ i < 4, a = ste + 8 * i) (smmuStrtabWriteSte cfg ste h) := by
  have h0 : h.Writes (fun a => ∃ i < 4, a = ste + 8 * i) h := .refl _ _
  cases cfg with
  | none =>
    exact ((h0.set ⟨0, by decide, rfl⟩ _).set ⟨1, by decide, rfl⟩ _).set ⟨2, by decide, rfl⟩ _
  | some cfg =>
    cases cfg with
    | stage1 cdtabPhys s1cdmax s1fmt =>
      exact (h0.set ⟨1, by decide, rfl⟩ _).set ⟨0, by decide, rfl⟩ _
    | stage2 vmid vttbr vtcr =>
      exact (((h0.set ⟨1, by decide, rfl⟩ _).set ⟨2, by decide, rfl⟩ _).set ⟨3, by decide, rfl⟩
        _).set ⟨0, by decide, rfl⟩ _

theorem writeSte_outside {cfg : Option StageConfig} {ste a : Nat}
    (hout : ∀ i < 4, a ≠ ste + 8 * i) : (smmuStrtabWriteSte cfg ste h).mem a = h.mem a :=
  (writes_writeSte cfg ste h).mem a fun ⟨i, hi, heq⟩ => hout i hi heq

structure EntryAt (mem : Nat → Nat) (a w0 w1 w2 w3 : Nat) : Prop where
  word0 : mem a = w0
  word1 : mem (a + 8) = w1
  word2 : mem (a + 16) = w2
  word3 : mem (a + 24) = w3

abbrev AbortedAt (h h' : Heap Owner) (a : Nat) : Prop :=
  EntryAt h'.mem a abortWord0 abortWord1 0 (h.mem (a + 24))

theorem writeSte_abort (ste : Nat) (h : Heap Owner) :
    AbortedAt h (smmuStrtabWriteSte none ste h) ste := by
  rw [smmuStrtabWriteSte]
  constructor
  · rw [Heap.mem_set_of_ne (by omega), Heap.mem_set_of_ne (by omega), Heap.mem_set_self]
    rfl
  · rw [Heap.mem_set_of_ne (by omega), Heap.mem_set_self]
    rfl
  · rw [Heap.mem_set_self]
  · rw [Heap.mem_set_of_ne (by omega), Heap.mem_set_of_ne (by omega), Heap.mem_set_of_ne (by omega)]

theorem writeSte_stage1 (ste p s1cdmax s1fmt : Nat) (h : Heap Owner) :
    (smmuStrtabWriteSte (some (.stage1 p s1cdmax s1fmt)) ste h).mem ste =
        stage1Word0 p s1cdmax s1fmt ∧
      (smmuStrtabWriteSte (some (.stage1 p s1cdmax s1fmt)) ste h).mem (ste + 8) = stage1Word1 ∧
      ∀ a, a ≠ ste → a ≠ ste + 8 →
        (smmuStrtabWriteSte (some (.stage1 p s1cdmax s1fmt)) ste h).mem a = h.mem a := by
  rw [smmuStrtabWriteSte]
  refine ⟨?_, ?_, fun a h0 h1 => ?_⟩
  · rw [Heap.mem_set_self]
    rfl
  · rw [Heap.mem_set_of_ne (by omega), Heap.mem_set_self]
    rfl
  · rw [Heap.mem_set_of_ne h0, Heap.mem_set_of_ne h1]

theorem writeSte_stage2 (ste vttbr : Nat) (tcr : Tcr) (h : Heap Owner) :
    EntryAt (smmuStrtabWriteSte (some (.stage2 0 vttbr (stage2Vtcr tcr))) ste h).mem ste
      stage2Word0 (h.mem (ste + 8) ||| (strtabSte1Strw 2 ||| strtabSte1Eats 1)) (stage2Word2 tcr)
      (vttbr % 2 ^ 48) := by
  rw [smmuStrtabWriteSte]
  refine ⟨?_, ?_, ?_, ?_⟩
  · rw [Heap.mem_set_self]
    rfl
  · rw [Heap.mem_set_of_ne (by omega), Heap.mem_set_of_ne (by omega),
      Heap.mem_set_of_ne (by omega), Heap.mem_set_self]
  · rw [Heap.mem_set_of_ne (by omega), Heap.mem_set_of_ne (by omega), Heap.mem_set_self]
    rfl
  · rw [Heap.mem_set_of_ne (by omega), Heap.mem_set_self, strtabSte3S2TtbMask, and_low]

theorem abortEntries_succ (base n : Nat) (h : Heap Owner) :
    abortEntries base (n + 1) h = smmuStrtabWriteSte none (base + n * 64)
      (abortEntries base n h) := by
  rw [abortEntries, List.range_succ, List.foldl_append]
  rfl

theorem own_abortEntries (base n : Nat) (h : Heap Owner) : (abortEntries base n h).own = h.own := by
  induction n with
  | zero => rfl
  | succ n ih => rw [abortEntries_succ, (writes_writeSte none _ _).own, ih]

theorem abortEntries_outside {base n a : Nat} (hout : ¬ (base ≤ a ∧ a < base + n * 64)) :
    (abortEntries base n h).mem a = h.mem a := by
  induction n with
  | zero => rfl
  | succ n ih => rw [abortEntries_succ, writeSte_outside (by omega), ih (by omega)]

theorem abortEntries_inside {base n i : Nat} (hi : i < n) :
    AbortedAt h (abortEntries base n h) (base + i * 64) := by
  induction n with
  | zero => exact absurd hi (Nat.not_lt_zero i)
  | succ n ih =>
    rw [abortEntries_succ]
    rcases Nat.lt_or_eq_of_le (le_of_lt_succ hi) with hlt | rfl
    · obtain ⟨h0, h1, h2, h3⟩ := ih hlt
      exact ⟨(writeSte_outside (by omega)).trans h0, (writeSte_outside (by omega)).trans h1,
        (writeSte_outside (by omega)).trans h2, (writeSte_outside (by omega)).trans h3⟩
    · obtain ⟨h0, h1, h2, h3⟩ := writeSte_abort (base + i * 64) (abortEntries base i h)
      exact ⟨h0, h1, h2, h3.trans (abortEntries_outside (by omega))⟩

/-! ## Level 2 tables -/

section

variable {l2ptr g a : Nat}

theorem shiftRight_split (sid : Nat) : sid >>> strtabSplit = sid / 256 :=
  shiftRight_eq_div_pow sid 8

def withLevel2 (smmu : SmmuDev) (h : Heap Owner) (g l2ptr : Nat) : Heap Owner :=
  (abortEntries (alignToSize l2ptr (2 ^ 14)) 256
    ((h.claim l2ptr (2 ^ 15) (.level2 g)).zero l2ptr (2 ^ 15))).set (smmu.strtab64 + g * 8)
    (level1Word (alignToSize l2ptr (2 ^ 14)))

theorem own_withLevel2 (h : Heap Owner) (g a : Nat) :
    (withLevel2 smmu h g l2ptr).own a =
      if l2ptr ≤ a ∧ a < l2ptr + 2 ^ 15 then some (.level2 g) else h.own a := by
  rw [withLevel2, Heap.set, own_abortEntries]
  rfl

theorem level2_bounds (hroom : l2ptr + 2 ^ 15 ≤ 2 ^ 52) :
    l2ptr ≤ alignToSize l2ptr (2 ^ 14) ∧
      alignToSize l2ptr (2 ^ 14) + 2 ^ 14 ≤ l2ptr + 2 ^ 15 ∧
      alignToSize l2ptr (2 ^ 14) % 2 ^ 14 = 0 :=
  alignToSize_bounds (by decide) hroom

theorem mem_withLevel2_outside (hroom : l2ptr + 2 ^ 15 ≤ 2 ^ 52)
    (hout : ¬ (l2ptr ≤ a ∧ a < l2ptr + 2 ^ 15)) (hne : a ≠ smmu.strtab64 + g * 8) :
    (withLevel2 smmu h g l2ptr).mem a = h.mem a := by
  obtain ⟨hlo, hhi, -⟩ := level2_bounds hroom
  rw [withLevel2, Heap.mem_set_of_ne hne, abortEntries_outside (by omega),
    Heap.mem_zero_outside hout, Heap.mem_claim]

theorem frame_withLevel2 (smmu : SmmuDev) (hfresh : Fresh h l2ptr (2 ^ 15)) (g : Nat) :
    h.Frame (fun a => a = smmu.strtab64 + g * 8) (withLevel2 smmu h g l2ptr) := by
  have hnotin : ∀ a, h.own a ≠ none → ¬ (l2ptr ≤ a ∧ a < l2ptr + 2 ^ 15) :=
    fun a ha hin => ha (hfresh.free a hin.1 hin.2)
  refine ⟨fun a o ho => ?_, fun a ho hne => ?_⟩
  · rw [own_withLevel2, if_neg (hnotin a (by simp [ho])), ho]
  · exact mem_withLevel2_outside hfresh.room (hnotin a ho) hne

theorem entry_withLevel2 (hfresh : Fresh h l2ptr (2 ^ 15))
    (hdst : h.own (smmu.strtab64 + g * 8) ≠ none) {i : Nat} (hi : i < 256) :
    (withLevel2 smmu h g l2ptr).mem (alignToSize l2ptr (2 ^ 14) + i * 64) = abortWord0 ∧
      (withLevel2 smmu h g l2ptr).mem (alignToSize l2ptr (2 ^ 14) + i * 64 + 8) = abortWord1 := by
  obtain ⟨hlo, hhi, -⟩ := level2_bounds hfresh.room
  have hnotin : ¬ (l2ptr ≤ smmu.strtab64 + g * 8 ∧ smmu.strtab64 + g * 8 < l2ptr + 2 ^ 15) :=
    fun hin => hdst (hfresh.free _ hin.1 hin.2)
  rw [withLevel2, Heap.mem_set_of_ne (by omega), Heap.mem_set_of_ne (by omega)]
  exact ⟨(abortEntries_inside hi).word0, (abortEntries_inside hi).word1⟩

theorem smmuStrtabInitLevel2_of_none (hl : d.level1 (sid / 256) = none) :
    smmuStrtabInitLevel2 smmu d sid l2ptr =
      { d with
        heap := withLevel2 smmu d.heap (sid / 256) l2ptr
        level1 := update d.level1 (sid / 256) (some (alignToSize l2ptr (2 ^ 14))) } := by
  rw [smmuStrtabInitLevel2, shiftRight_split, hl]
  simp only [show strtabL1DescDwords = 1 from rfl, mul_one]
  rfl

theorem level2Table_withLevel2 (smmu : SmmuDev) (hfresh : Fresh h l2ptr (2 ^ 15)) (g : Nat) :
    Level2Table smmu (withLevel2 smmu h g l2ptr) g (alignToSize l2ptr (2 ^ 14)) := by
  have hroom := hfresh.room
  obtain ⟨hlo, hhi, hal⟩ := level2_bounds hroom
  refine ⟨hal, by omega, Heap.mem_set_self _ _ _, fun i hi => ?_⟩
  rw [own_withLevel2, if_pos (by omega)]

theorem mem_withLevel2_of_free (hroom : l2ptr + 2 ^ 15 ≤ 2 ^ 52)
    (hdst : h.own (smmu.strtab64 + g * 8) ≠ none)
    (hfree : (withLevel2 smmu h g l2ptr).own a = none) :
    (withLevel2 smmu h g l2ptr).mem a = h.mem a := by
  rw [own_withLevel2] at hfree
  split at hfree
  · cases hfree
  · have hne : a ≠ smmu.strtab64 + g * 8 := by
      intro heq
      rw [heq] at hfree
      exact hdst hfree
    exact mem_withLevel2_outside hroom (by assumption) hne

theorem core_withLevel2 (hc : Core smmu d) (h2 : smmu.stLevel2lvl = true)
    (hg : g < 2 ^ (smmu.sidBits - 8)) (hfresh : Fresh d.heap l2ptr (2 ^ 15)) :
    Core smmu { d with
      heap := withLevel2 smmu d.heap g l2ptr
      level1 := update d.level1 g (some (alignToSize l2ptr (2 ^ 14))) } := by
  have hf := frame_withLevel2 smmu hfresh g
  have hdst := own_level1 hc.strtab h2 hg
  have hothers : ∀ g' < 2 ^ (smmu.sidBits - 8), g' ≠ g →
      (withLevel2 smmu d.heap g l2ptr).mem (smmu.strtab64 + g' * 8) =
        d.heap.mem (smmu.strtab64 + g' * 8) :=
    fun g' hg' hne => hf.mem _ (by simp [own_level1 hc.strtab h2 hg']) (by omega)
  refine ⟨hc.strtab.frame hf, fun _ g' hg' hnone => ?_, fun _ g' hg' q hq => ?_, fun k hk =>
    (hc.masters k hk).frame hf (fun a ha hwa => ha.ne_strtab (hwa ▸ hdst))⟩
  · by_cases hgs : g' = g
    · simp only [hgs, update_self] at hnone
      cases hnone
    · simp only [update_of_ne hgs] at hnone
      rw [hothers g' hg' hgs]
      exact hc.absent h2 g' hg' hnone
  · by_cases hgs : g' = g
    · simp only [hgs, update_self, some_inj] at hq
      rw [hgs, ← hq]
      exact level2Table_withLevel2 smmu hfresh g
    · simp only [update_of_ne hgs] at hq
      have ht := hc.present h2 g' hg' q hq
      exact ⟨ht.aligned, ht.room, (hothers g' hg' hgs).trans ht.desc, ht.owns.frame hf⟩

structure HasEntry (smmu : SmmuDev) (d d' : State) (sid : Nat) : Prop where
  keeps : Keeps smmu (fun _ => True) d d'
  located : ∃ a, steOf smmu d'.level1 sid = some a
  count : d'.count = d.count
  master : d'.master = d.master

theorem steOf_update (h2 : smmu.stLevel2lvl = true) (level1 : Nat → Option Nat) (g p t : Nat) :
    steOf smmu (update level1 g (some p)) t =
      if t / 256 = g then some (p + t % 256 * 64) else steOf smmu level1 t := by
  rw [steOf, steOf, h2, if_pos rfl, if_pos rfl]
  by_cases htg : t / 256 = g
  · rw [htg, update_self, if_pos rfl]
    rfl
  · rw [update_of_ne htg, if_neg htg]

theorem keeps_withLevel2 (hs : smmu.Ok) (hc : Core smmu d) (h2 : smmu.stLevel2lvl = true)
    (hg : g < 2 ^ (smmu.sidBits - 8)) (hl : d.level1 g = none)
    (hfresh : Fresh d.heap l2ptr (2 ^ 15)) :
    Keeps smmu (fun _ => True) d { d with
      heap := withLevel2 smmu d.heap g l2ptr
      level1 := update d.level1 g (some (alignToSize l2ptr (2 ^ 14))) } := by
  have hf := frame_withLevel2 smmu hfresh g
  have hc' := core_withLevel2 hc h2 hg hfresh
  have hdst := own_level1 hc.strtab h2 hg
  have hste := steOf_update h2 d.level1 g (alignToSize l2ptr (2 ^ 14))
  have hentry : ∀ t, (withLevel2 smmu d.heap g l2ptr).mem
        (alignToSize l2ptr (2 ^ 14) + t % 256 * 64) = abortWord0 ∧
      (withLevel2 smmu d.heap g l2ptr).mem
        (alignToSize l2ptr (2 ^ 14) + t % 256 * 64 + 8) = abortWord1 :=
    fun t => entry_withLevel2 hfresh (by simp [hdst]) (mod_lt t (by decide))
  have hunloc : ∀ t, t / 256 = g → steOf smmu d.level1 t = none := by
    intro t htg
    rw [steOf, h2, htg, hl]
    rfl
  have hstay : ∀ t < 2 ^ smmu.sidBits, ∀ a, steOf smmu d.level1 t = some a → ∀ i < 8,
      a + 8 * i ≠ smmu.strtab64 + g * 8 := by
    intro t ht a ha i hi hne
    have hown := own_entry hs hc ht ha hi
    rw [hne, hdst, h2] at hown
    cases hown
  refine ⟨hc', fun t ht _ c hok => ?_, fun t ht _ => ?_⟩
  · by_cases htg : t / 256 = g
    · cases c with
      | none =>
        intro a ha
        rw [hste t, if_pos htg, some_inj] at ha
        rw [← ha]
        exact hentry t
      | some c =>
        -- without an entry before, so not mapped
        obtain ⟨⟨a, ha⟩, -⟩ := hok.of_some
        rw [hunloc t htg] at ha
        cases ha
    · exact hok.frame hs hc ht hf (by rw [hste t, if_neg htg]) le_rfl
        (fun k _ _ => .refl _) (fun a ha i hi => hstay t ht a ha i (by omega))
        (fun k _ _ a ha hwa => ha.ne_strtab (hwa ▸ hdst))
  · by_cases htg : t / 256 = g
    · rw [fetch_of_steOf_none hs hc ht (hunloc t htg),
        fetch_eq hs hc' ht (by rw [hste t, if_pos htg]), (hentry t).1]
      rfl
    · exact fetch_frame hs hc hc' ht hf (by rw [hste t, if_neg htg])
        (fun a ha i hi => hstay t ht a ha i hi)

theorem hasEntry_prepareLevel2 (hs : smmu.Ok) (hc : Core smmu d) (hsid : sid < 2 ^ smmu.sidBits)
    (hfresh : smmu.stLevel2lvl = true → d.level1 (sid / 256) = none →
      Fresh d.heap l2ptr (2 ^ 15)) : HasEntry smmu d (prepareLevel2 smmu d sid l2ptr) sid := by
  cases h2 : smmu.stLevel2lvl with
  | false =>
    rw [prepareLevel2, h2]
    refine ⟨.refl hc, ⟨smmu.strtab64 + sid * 64, ?_⟩, rfl, rfl⟩
    rw [steOf, h2, if_neg (by decide)]
  | true =>
    rw [prepareLevel2, h2, if_pos rfl]
    cases hl : d.level1 (sid / 256) with
    | some p =>
      rw [smmuStrtabInitLevel2, shiftRight_split, hl]
      refine ⟨.refl hc, ⟨p + sid % 256 * 64, ?_⟩, rfl, rfl⟩
      rw [steOf, h2, hl]
      rfl
    | none =>
      rw [smmuStrtabInitLevel2_of_none hl]
      refine ⟨keeps_withLevel2 hs hc h2 (group_lt hs h2 hsid) hl (hfresh h2 hl),
        ⟨alignToSize l2ptr (2 ^ 14) + sid % 256 * 64, ?_⟩, rfl, rfl⟩
      rw [steOf_update h2, if_pos rfl]

end

end ServerSoc.Smmu
