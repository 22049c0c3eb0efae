/-
What a stream table entry keeps of the past, in a linear stream table.

A stage 2 map joins its bits to the second word, a stage 1 map leaves the words of stage 2 alone
and takes the substream width from the call that took the master.  Two runs that end with the same
call have the same entry exactly if their pasts agree on it (`sameEntry_iff_samePast`).
-/
import ServerSoc.Smmu.StreamTable

namespace ServerSoc.Smmu

open Base Function Nat Bool

/-! ## Histories -/

def State.call (smmu : SmmuDev) (d : State) : Call → State
  | .map attr pgt al => (valSmmuMap smmu d attr pgt al).2
  | .unmap attr => valSmmuUnmap smmu d attr

def Succeeds (smmu : SmmuDev) (d : State) : Call → Prop
  | .map attr pgt al => (valSmmuMap smmu d attr pgt al).1 = 0 ∧
      AllocOk smmu (mapState d attr) (takeMaster d attr).1 al
  | .unmap _ => True

structure Serves (d : State) (sid k : Nat) : Prop where
  lt : k < d.count
  used : (d.master k).smmu = true
  sid : (d.master k).sid = sid

/-- A master in use for the stream is in front of all masters with this stream id.  It
always is, but for stream 0, which the masters not in use have too. -/
def Front (d : State) (sid : Nat) : Prop := (∃ k, Serves d sid k) → ∃ k, InUse d sid k

def Inside (smmu : SmmuDev) (d : State) : Call → Prop
  | .map attr _ al => Front d attr.streamid ∧
      Contained smmu (mapState d attr) (takeMaster d attr).1 al
  | .unmap attr => Front d attr.streamid

/-- The calls of a run from the initialisation on, the last one first. -/
inductive History (smmu : SmmuDev) (mem : Nat → Nat) : List Call → State → Prop
  | start : History smmu mem [] (start smmu mem).dev
  | call {hist : List Call} {d : State} {c : Call} (run : History smmu mem hist d)
      (succeeds : Succeeds smmu d c) (inside : Inside smmu d c) :
      History smmu mem (c :: hist) (d.call smmu c)

/-- What the entry and the master of a stream keep of the calls: the substream width of
the map that took the master, whether there was a stage 1 map since then, and the last
words of stage 2. -/
structure Past where
  bits : Option Nat
  stage1 : Bool
  word2 : Nat
  word3 : Nat
  deriving DecidableEq, Repr

def Past.after (p : Past) (attr : MasterAttributes) (pgt : PgtDescriptor) : Past where
  bits := some (p.bits.getD attr.ssidBits)
  stage1 := p.stage1 || !attr.stage2
  word2 := if attr.stage2 then stage2Word2 pgt.tcr else p.word2
  word3 := if attr.stage2 then pgt.pgtBase % 2 ^ 48 else p.word3

/-- An unmap call does not clear the fourth word. -/
def Past.cleared (p : Past) : Past := { p with bits := none, stage1 := false, word2 := 0 }

def past (sid : Nat) : List Call → Past
  | [] => ⟨none, false, 0, 0⟩
  | .map attr pgt _ :: hist =>
    if attr.streamid = sid then (past sid hist).after attr pgt else past sid hist
  | .unmap attr :: hist => if attr.streamid = sid then (past sid hist).cleared else past sid hist

/-! ## Masters -/

variable {smmu : SmmuDev} {d d' : State} {sid k : Nat}

section

variable {bits : Option Nat}

theorem InUse.serves (h : InUse d sid k) : Serves d sid k :=
  ⟨(findMaster_some h.1).1, h.2, (findMaster_some h.1).2⟩

structure Served (d : State) (sid : Nat) (bits : Option Nat) : Prop where
  unique : ∀ j k, Serves d sid j → Serves d sid k → j = k
  ssidBits : ∀ k, Serves d sid k → bits = some (d.master k).ssidBits
  exists_of_bits : bits ≠ none → ∃ k, Serves d sid k

structure SameBut (k : Nat) (d d' : State) : Prop where
  lt : ∀ j, j ≠ k → (j < d'.count ↔ j < d.count)
  master : ∀ j, j ≠ k → d'.master j = d.master j

theorem served_none (hnone : ∀ k, ¬ Serves d sid k) : Served d sid none :=
  ⟨fun j _ hj => absurd hj (hnone j), fun k hk => absurd hk (hnone k), fun h => absurd rfl h⟩

theorem Served.bits_eq_none (h : Served d sid bits) (hnone : ∀ k, ¬ Serves d sid k) :
    bits = none := by
  by_contra hb
  obtain ⟨k, hk⟩ := h.exists_of_bits hb
  exact hnone k hk

theorem SameBut.trans {d'' : State} (h1 : SameBut k d d') (h2 : SameBut k d' d'') :
    SameBut k d d'' :=
  ⟨fun j hj => (h2.lt j hj).trans (h1.lt j hj), fun j hj => (h2.master j hj).trans (h1.master j hj)⟩

theorem SameBut.serves_iff {j : Nat} (h : SameBut k d d') (hj : j ≠ k) :
    Serves d' sid j ↔ Serves d sid j := by
  have hlt := h.lt j hj
  have hm := h.master j hj
  constructor
  · intro hs
    exact ⟨hlt.mp hs.lt, hm ▸ hs.used, hm ▸ hs.sid⟩
  · intro hs
    exact ⟨hlt.mpr hs.lt, hm.symm ▸ hs.used, hm.symm ▸ hs.sid⟩

theorem Served.of_sameBut (h : Served d sid bits) (hsame : SameBut k d d')
    (hbefore : ¬ Serves d sid k) (hafter : ¬ Serves d' sid k) : Served d' sid bits := by
  have hne : ∀ j, Serves d' sid j → j ≠ k := by
    intro j hj hjk
    rw [hjk] at hj
    exact hafter hj
  have hback : ∀ j, Serves d' sid j → Serves d sid j := by
    intro j hj
    exact (hsame.serves_iff (hne j hj)).mp hj
  refine ⟨fun i j hi hj => h.unique i j (hback i hi) (hback j hj), fun j hj => ?_, fun hb => ?_⟩
  · rw [hsame.master j (hne j hj)]
    exact h.ssidBits j (hback j hj)
  · obtain ⟨j, hj⟩ := h.exists_of_bits hb
    have hjk : j ≠ k := by
      intro hjk
      rw [hjk] at hj
      exact hbefore hj
    exact ⟨j, (hsame.serves_iff hjk).mpr hj⟩

theorem front_of_ne_zero (hc : Core smmu d) (hne : sid ≠ 0) : Front d sid := by
  rintro ⟨j, hj⟩
  exact exists_inUse hc hne hj.lt hj.sid

theorem smmuMasterAt_cases (hc : Core smmu d) (hfront : Front d sid) :
    (∃ k, Serves d sid k ∧ smmuMasterAt d sid = (k, d)) ∨
      ((∀ k, ¬ Serves d sid k) ∧ ∃ k d', smmuMasterAt d sid = (k, d') ∧ d'.heap = d.heap ∧
        d'.level1 = d.level1 ∧ SameBut k d d' ∧ k < d'.count ∧ d'.master k = Master.zero ∧
        ∀ t, ¬ Serves d t k) := by
  by_cases hserved : ∃ k, Serves d sid k
  · left
    obtain ⟨k, hk⟩ := hfront hserved
    exact ⟨k, hk.serves, smmuMasterAt_of_inUse hk⟩
  · right
    have hnone : ∀ k, ¬ Serves d sid k := fun k hk => hserved ⟨k, hk⟩
    refine ⟨hnone, ?_⟩
    rw [smmuMasterAt]
    cases hfind : findMaster d.master sid d.count with
    | some k =>
      obtain ⟨hk, hsid⟩ := findMaster_some hfind
      have hidle : (d.master k).smmu = false := by
        by_contra hused
        exact hnone k ⟨hk, of_not_eq_false hused, hsid⟩
      refine ⟨k, d, rfl, rfl, rfl, ⟨fun _ _ => Iff.rfl, fun _ _ => rfl⟩, hk,
        (hc.masters k hk).idle hidle, fun t ht => ?_⟩
      cases hidle.symm.trans ht.used
    | none =>
      refine ⟨d.count, _, rfl, rfl, rfl, ⟨fun j hj => ?_, fun j hj => ?_⟩, lt_succ_self _, ?_,
        fun t ht => ?_⟩
      · show j < d.count + 1 ↔ j < d.count
        omega
      · exact update_of_ne hj _ _
      · exact update_self _ _ _
      · exact absurd ht.lt (lt_irrefl _)

structure Prepared (d : State) (attr : MasterAttributes) (width : Nat) (k : Nat) (d' : State) :
    Prop where
  heap : d'.heap = d.heap
  level1 : d'.level1 = d.level1
  same : SameBut k d d'
  serves : Serves d' attr.streamid k
  bits : (d'.master k).ssidBits = width
  others : ∀ t, t ≠ attr.streamid → ¬ Serves d t k
  before : ∀ j, Serves d attr.streamid j → j = k
  stage : (d'.master k).stage = if attr.stage2 then .s2 else .s1

def takenMaster (attr : MasterAttributes) : Master :=
  { Master.zero with smmu := true, sid := attr.streamid, ssidBits := attr.ssidBits }

theorem setStage_sameBut (d : State) (k : Nat) (attr : MasterAttributes) :
    SameBut k d (setStage d k attr) :=
  ⟨fun _ _ => Iff.rfl, fun _ hj => update_of_ne hj _ _⟩

theorem prepared_mapState (hc : Core smmu d) {attr : MasterAttributes}
    (hserved : Served d attr.streamid bits) (hfront : Front d attr.streamid) :
    Prepared d attr (bits.getD attr.ssidBits) (takeMaster d attr).1 (mapState d attr) := by
  have hstage := setStage_master (takeMaster d attr).2 (takeMaster d attr).1 attr
  have hset := setStage_sameBut (takeMaster d attr).2 (takeMaster d attr).1 attr
  rw [mapState]
  cases smmuMasterAt_cases hc hfront with
  | inl hfound =>
    obtain ⟨k, hk, hat⟩ := hfound
    have htake : takeMaster d attr = (k, d) := by
      rw [takeMaster, hat]
      simp [hk.used]
    rw [htake] at hstage hset ⊢
    refine ⟨rfl, rfl, hset, ⟨hk.lt, ?_, ?_⟩, ?_, fun t ht hs => ?_, fun j hj =>
      hserved.unique j k hj hk, ?_⟩
    · rw [hstage]
      exact hk.used
    · rw [hstage]
      exact hk.sid
    · rw [hstage, hserved.ssidBits k hk]
      rfl
    · exact ht (hs.sid.symm.trans hk.sid)
    · rw [hstage]
  | inr hnew =>
    obtain ⟨hnone, k, d', hat, hheap, hlevel1, hsame, hlt, hzero, hidle⟩ := hnew
    have htake : takeMaster d attr = (k, d'.setMaster k (takenMaster attr)) := by
      rw [takeMaster, hat]
      simp only [hzero]
      rfl
    rw [htake] at hstage hset ⊢
    have hself : (d'.setMaster k (takenMaster attr)).master k = takenMaster attr :=
      update_self _ _ _
    have htaken : SameBut k d' (d'.setMaster k (takenMaster attr)) :=
      ⟨fun _ _ => Iff.rfl, fun _ hj => update_of_ne hj _ _⟩
    rw [hself] at hstage
    refine ⟨hheap, hlevel1, (hsame.trans htaken).trans hset, ⟨hlt, ?_, ?_⟩, ?_,
      fun t _ hs => hidle t hs, fun j hj => absurd hj (hnone j), ?_⟩
    · rw [hstage]
      rfl
    · rw [hstage]
      rfl
    · rw [hstage, hserved.bits_eq_none hnone]
      rfl
    · rw [hstage]

end

/-! ## Entries -/

def stage2Bits : Nat := strtabSte1Strw 2 ||| strtabSte1Eats 1

def Past.word1 (p : Past) : Nat := if p.stage1 then stage1Word1 else abortWord1

structure Remembers (mem : Nat → Nat) (a : Nat) (p : Past) : Prop where
  word1 : mem (a + 8) ||| stage2Bits = p.word1 ||| stage2Bits
  word2 : mem (a + 16) = p.word2
  word3 : mem (a + 24) = p.word3

section

variable {i : Nat}

def SmmuDev.entry (smmu : SmmuDev) (sid : Nat) : Nat := smmu.strtab64 + sid * 64

theorem steOf_linear (h2 : smmu.stLevel2lvl = false) (level1 : Nat → Option Nat) (sid : Nat) :
    steOf smmu level1 sid = some (smmu.entry sid) := by
  rw [steOf, h2]
  rfl

section

variable (hs : smmu.Ok) (hc : Core smmu d) (h2 : smmu.stLevel2lvl = false)
include hs hc h2

theorem not_touched_entry
    {t : Nat} (ht : t < 2 ^ smmu.sidBits) (hsid : sid < 2 ^ smmu.sidBits) (hne : t ≠ sid)
    (k : Nat) (hi : i < 8) : ¬ Touched smmu d k sid (smmu.entry t + 8 * i) := by
  have ha := steOf_linear h2 d.level1
  rintro (hentry | hcd | hdesc)
  · obtain ⟨ste, hste, j, hj, heq⟩ := hentry
    exact entry_ne hs hc ht hsid hne (ha t) hste hi (by omega) heq
  · exact not_cdOwned_entry hs hc ht (ha t) hi k hcd
  · rw [h2] at hdesc
    cases hdesc.1

theorem own_entry_linear
    (hsid : sid < 2 ^ smmu.sidBits) (hi : i < 8) : d.heap.own (smmu.entry sid + 8 * i) ≠ none := by
  rw [own_entry hs hc hsid (steOf_linear h2 d.level1 sid) hi]
  exact Option.some_ne_none _

end

end

/-! ## The invariant -/

/-- What a run leaves: at most one master for each stream, and entries that remember the
calls. -/
structure Recorded (smmu : SmmuDev) (hist : List Call) (d : State) : Prop where
  core : Core smmu d
  range : ∀ sid k, Serves d sid k → sid < 2 ^ smmu.sidBits
  served : ∀ sid, Served d sid (past sid hist).bits
  entries : ∀ sid < 2 ^ smmu.sidBits, Remembers d.heap.mem (smmu.entry sid) (past sid hist)

variable {hist : List Call}

section

variable {c : Call}

theorem Remembers.congr {p : Past} {mem mem' : Nat → Nat} {a : Nat} (h : Remembers mem a p)
    (heq : ∀ i < 8, mem' (a + 8 * i) = mem (a + 8 * i)) : Remembers mem' a p := by
  refine ⟨?_, (heq 2 (by decide)).trans h.word2, (heq 3 (by decide)).trans h.word3⟩
  rw [← h.word1]
  exact congrArg (fun w => w ||| stage2Bits) (heq 1 (by decide))

theorem Recorded.step (hrec : Recorded smmu hist d) (sid : Nat) (hcore : Core smmu d')
    (hsame : SameBut k d d') (hbefore : ∀ t, t ≠ sid → ¬ Serves d t k)
    (hafter : ∀ t, t ≠ sid → ¬ Serves d' t k)
    (hpast : ∀ t, t ≠ sid → past t (c :: hist) = past t hist)
    (hwords : ∀ t < 2 ^ smmu.sidBits, t ≠ sid → ∀ i < 8,
      d'.heap.mem (smmu.entry t + 8 * i) = d.heap.mem (smmu.entry t + 8 * i))
    (hlt : Serves d' sid k → sid < 2 ^ smmu.sidBits)
    (hserved : Served d' sid (past sid (c :: hist)).bits)
    (hentry : sid < 2 ^ smmu.sidBits →
      Remembers d'.heap.mem (smmu.entry sid) (past sid (c :: hist))) :
    Recorded smmu (c :: hist) d' := by
  refine ⟨hcore, fun t j hj => ?_, fun t => ?_, fun t ht => ?_⟩
  · by_cases hjk : j = k
    · rw [hjk] at hj
      by_cases hts : t = sid
      · rw [hts] at hj ⊢
        exact hlt hj
      · exact absurd hj (hafter t hts)
    · exact hrec.range t j ((hsame.serves_iff hjk).mp hj)
  · by_cases hts : t = sid
    · rw [hts]
      exact hserved
    · rw [hpast t hts]
      exact (hrec.served t).of_sameBut hsame (hbefore t hts) (hafter t hts)
  · by_cases hts : t = sid
    · rw [hts] at ht ⊢
      exact hentry ht
    · rw [hpast t hts]
      exact (hrec.entries t ht).congr (hwords t ht hts)

end

theorem recorded_start (hs : smmu.Ok) (h2 : smmu.stLevel2lvl = false) (mem : Nat → Nat) :
    Recorded smmu [] (start smmu mem).dev := by
  have hclear : ClearLevel1 smmu mem := by
    intro h
    rw [h2] at h
    cases h
  have hnone : ∀ sid k, ¬ Serves (start smmu mem).dev sid k := fun _ k hk => Nat.not_lt_zero k hk.lt
  refine ⟨core_strtabInit hs hclear, fun sid k hk => ?_, fun sid => ?_, fun sid hsid => ?_⟩
  · exact absurd hk (hnone sid k)
  · exact served_none (hnone sid)
  · have hcount : sid < smmu.l1EntCount := by
      rwa [SmmuDev.l1EntCount, h2, if_neg (by decide), one_shiftLeft]
    obtain ⟨hsize, hlt, hlo, hhi⟩ := strtab_bounds hs
    have hwords : smmu.strtabWords = 2 ^ smmu.sidBits * 8 := by
      rw [SmmuDev.strtabWords, h2, if_neg (by decide)]
    rw [start, smmuStrtabInit, h2]
    simp only [false_eq_true, if_false, calloc, mod_eq_of_lt hlt, SmmuDev.entry]
    have hin := @abortEntries_inside
      (Heap.zero (Heap.claim { mem := mem, own := fun _ => none } smmu.strtabPtr
        (2 * smmu.strtabSize) .strtab) smmu.strtabPtr (2 * smmu.strtabSize))
          smmu.strtab64 _ _ hcount
    refine ⟨?_, hin.word2, hin.word3.trans (Heap.mem_zero_inside ⟨by omega, by omega⟩)⟩
    rw [hin.word1, Past.word1, past, if_neg (by decide)]

variable {attr : MasterAttributes}

section

variable {pgt : PgtDescriptor} {al : Allocations}

theorem core_mapState (hs : smmu.Ok) (hc : Core smmu d) (attr : MasterAttributes) :
    Core smmu (mapState d attr) := by
  have htaken := taken_takeMaster hs hc attr
  exact (setStage_keeps hs htaken.keeps.core htaken.lt htaken.used attr).core

structure MapDone (smmu : SmmuDev) (d : State) (attr : MasterAttributes) (pgt : PgtDescriptor)
    (al : Allocations) (width : Nat) (k : Nat) (d0 d' : State) : Prop where
  sid_lt : attr.streamid < 2 ^ smmu.sidBits
  core : Core smmu d0
  prepared : Prepared d attr width k d0
  effect : Effect smmu d0 k d'
  wrote : Wrote smmu d0 k pgt al (smmu.entry attr.streamid) d'

theorem mapDone_of_succeeds (hs : smmu.Ok) (h2 : smmu.stLevel2lvl = false)
    (hrec : Recorded smmu hist d) (hok : Succeeds smmu d (.map attr pgt al))
    (hin : Inside smmu d (.map attr pgt al)) :
    MapDone smmu d attr pgt al ((past attr.streamid hist).bits.getD attr.ssidBits)
      (takeMaster d attr).1 (mapState d attr) (d.call smmu (.map attr pgt al)) := by
  obtain ⟨hzero, halloc⟩ := hok
  obtain ⟨hfront, hcontained⟩ := hin
  obtain ⟨hsid, heq⟩ := @valSmmuMap_eq_mapStream smmu d pgt attr al hzero
  have hprep := prepared_mapState hrec.core (hrec.served attr.streamid) hfront
  have hcore := core_mapState hs hrec.core attr
  have hres := @mapResult_mapStream smmu _ attr pgt al _ hs hcore hprep.serves.lt
    hprep.serves.used hprep.serves.sid hsid hcontained halloc
  rw [← heq] at hres
  obtain ⟨a, ha, hwrote⟩ := hres.success hzero
  rw [steOf_linear h2, Option.some_inj, hprep.serves.sid] at ha
  rw [← ha] at hwrote
  have hprep2 : prepareLevel2 smmu (mapState d attr)
      ((mapState d attr).master (takeMaster d attr).1).sid al.level2 = mapState d attr := by
    rw [prepareLevel2, h2, if_neg (by decide)]
  rw [hprep2] at hwrote
  exact ⟨hsid, hcore, hprep, hres.effect, hwrote⟩

variable {width : Nat} {d0 : State}

section

variable (h : MapDone smmu d attr pgt al width k d0 d')
include h

theorem MapDone.sameBut : SameBut k d d' := by
  refine h.prepared.same.trans ⟨fun j _ => ?_, fun j hj => h.effect.others j hj⟩
  rw [h.effect.count]

theorem MapDone.serves : Serves d' attr.streamid k := by
  have hs := h.prepared.serves
  refine ⟨?_, ?_, ?_⟩
  · rw [h.effect.count]
    exact hs.lt
  · rw [h.effect.used]
    exact hs.used
  · rw [h.effect.sid]
    exact hs.sid

theorem MapDone.served : Served d' attr.streamid (some width) := by
  have honly : ∀ j, Serves d' attr.streamid j → j = k := by
    intro j hj
    by_contra hne
    exact hne (h.prepared.before j ((h.sameBut.serves_iff hne).mp hj))
  refine ⟨fun i j hi hj => (honly i hi).trans (honly j hj).symm, fun j hj => ?_, fun _ =>
    ⟨k, h.serves⟩⟩
  rw [honly j hj, h.effect.ssidBits, h.prepared.bits]

end

theorem MapDone.entry_other (hs : smmu.Ok) (h2 : smmu.stLevel2lvl = false)
    (h : MapDone smmu d attr pgt al width k d0 d') {t : Nat} (htlt : t < 2 ^ smmu.sidBits)
    (ht : t ≠ attr.streamid) {i : Nat} (hi : i < 8) :
    d'.heap.mem (smmu.entry t + 8 * i) = d.heap.mem (smmu.entry t + 8 * i) := by
  rw [← h.prepared.heap]
  apply h.effect.frame.mem _ (own_entry_linear hs h.core h2 htlt hi)
  rw [h.prepared.serves.sid]
  exact not_touched_entry hs h.core h2 htlt h.sid_lt ht k hi

structure Stage1Word0 (smmu : SmmuDev) (width w : Nat) : Prop where
  low : getField 6 0 w = getField 6 0 (stage1Word0 0 width
    (if smmu.cdTwoLevel width then strtabSte0S1Fmt64kL2 else strtabSte0S1FmtLinear))
  high : getField 12 52 w = getField 12 52 (stage1Word0 0 width
    (if smmu.cdTwoLevel width then strtabSte0S1Fmt64kL2 else strtabSte0S1FmtLinear))

theorem stage1Word0_fields (p s1cdmax s1fmt : Nat) :
    getField 6 0 (stage1Word0 p s1cdmax s1fmt) = getField 6 0 (stage1Word0 0 s1cdmax s1fmt) ∧
      getField 12 52 (stage1Word0 p s1cdmax s1fmt) =
        getField 12 52 (stage1Word0 0 s1cdmax s1fmt) := by
  rw [stage1Word0_eq, stage1Word0_eq]
  constructor <;> simp (disch := decide) only [getField_or, getField_setField_of_disjoint]

inductive EntryAfter (smmu : SmmuDev) (attr : MasterAttributes) (pgt : PgtDescriptor) (width : Nat)
    (mem mem' : Nat → Nat) (a : Nat) : Prop
  | stage2 (hstage : attr.stage2 = true) (h0 : mem' a = stage2Word0)
      (h1 : mem' (a + 8) = mem (a + 8) ||| stage2Bits) (h2 : mem' (a + 16) = stage2Word2 pgt.tcr)
      (h3 : mem' (a + 24) = pgt.pgtBase % 2 ^ 48)
  | stage1 (hstage : attr.stage2 = false) (hwidth : width ≤ 20)
      (h0 : Stage1Word0 smmu width (mem' a)) (h1 : mem' (a + 8) = stage1Word1)
      (h2 : mem' (a + 16) = mem (a + 16)) (h3 : mem' (a + 24) = mem (a + 24))

theorem MapDone.entryAfter (hs : smmu.Ok) (h2 : smmu.stLevel2lvl = false)
    (h : MapDone smmu d attr pgt al width k d0 d') :
    EntryAfter smmu attr pgt width d.heap.mem d'.heap.mem (smmu.entry attr.streamid) := by
  have hheap := h.prepared.heap
  have hstage := h.prepared.stage
  cases h.wrote with
  | stage2 hst heq =>
    have hattr : attr.stage2 = true := by
      by_contra hne
      rw [if_neg hne, hst] at hstage
      cases hstage
    obtain ⟨h0, h1, h2, h3⟩ :=
      writeSte_stage2 (smmu.entry attr.streamid) pgt.pgtBase pgt.tcr d0.heap
    rw [heq]
    refine .stage2 hattr h0 ?_ h2 h3
    rw [← hheap]
    exact h1
  | stage1 d2 p hst hprep hready hbits hframe heq =>
    have hattr : attr.stage2 = false := by
      by_contra hne
      rw [if_pos (of_not_eq_false hne), hst] at hstage
      cases hstage
    have ht := hready.cdTable
    have hwidth : (d2.master k).s1cdmax = width := by rw [ht.max, hbits, h.prepared.bits]
    have hfits := ht.fits
    rw [← ht.max, hwidth] at hfits
    obtain ⟨h0, h1, hrest⟩ := writeSte_stage1 (smmu.entry attr.streamid) p (d2.master k).s1cdmax
      (d2.master k).s1fmt (writeContext d2 k al.leaf pgt).heap
    have hkeep : ∀ i < 8, (writeContext d2 k al.leaf pgt).heap.mem
        (smmu.entry attr.streamid + 8 * i) = d.heap.mem (smmu.entry attr.streamid + 8 * i) := by
      intro i hi
      rw [← hheap]
      apply hframe.mem _ (own_entry_linear hs h.core h2 h.sid_lt hi)
      exact not_cdOwned_entry hs h.core h.sid_lt (steOf_linear h2 _ _) hi k
    obtain ⟨hlow, hhigh⟩ := stage1Word0_fields p (d2.master k).s1cdmax (d2.master k).s1fmt
    rw [ht.fmt, hwidth] at hlow hhigh h0
    have hword : d'.heap.mem (smmu.entry attr.streamid) = stage1Word0 p width
        (if smmu.cdTwoLevel width then strtabSte0S1Fmt64kL2 else strtabSte0S1FmtLinear) := by
      rw [← h0, heq, ht.fmt, hwidth]
      rfl
    refine .stage1 hattr hfits ⟨?_, ?_⟩ ?_ ?_ ?_
    · rw [hword, hlow]
    · rw [hword, hhigh]
    · rw [heq]
      exact h1
    · rw [heq]
      exact (hrest _ (by omega) (by omega)).trans (hkeep 2 (by decide))
    · rw [heq]
      exact (hrest _ (by omega) (by omega)).trans (hkeep 3 (by decide))

theorem Remembers.after {p : Past} {mem mem' : Nat → Nat} {a : Nat} (h : Remembers mem a p)
    (hentry : EntryAfter smmu attr pgt width mem mem' a) : Remembers mem' a (p.after attr pgt) := by
  cases hentry with
  | stage2 hstage _ h1 h2 h3 =>
    have hsame : (p.after attr pgt).word1 = p.word1 := by
      simp [Past.word1, Past.after, hstage]
    refine ⟨?_, ?_, ?_⟩
    · rw [hsame, ← h.word1, h1, Nat.or_assoc, Nat.or_self]
    · simp [Past.after, hstage, h2]
    · simp [Past.after, hstage, h3]
  | stage1 hstage _ _ h1 h2 h3 =>
    have hword1 : (p.after attr pgt).word1 = stage1Word1 := by
      simp [Past.word1, Past.after, hstage]
    refine ⟨?_, ?_, ?_⟩
    · rw [hword1, h1]
    · simp [Past.after, hstage, h2, h.word2]
    · simp [Past.after, hstage, h3, h.word3]

theorem recorded_map (hs : smmu.Ok) (h2 : smmu.stLevel2lvl = false) (hrec : Recorded smmu hist d)
    (hok : Succeeds smmu d (.map attr pgt al)) (hin : Inside smmu d (.map attr pgt al)) :
    Recorded smmu (.map attr pgt al :: hist) (d.call smmu (.map attr pgt al)) := by
  have hdone := mapDone_of_succeeds hs h2 hrec hok hin
  have hself : past attr.streamid (.map attr pgt al :: hist) =
      (past attr.streamid hist).after attr pgt := if_pos rfl
  refine hrec.step _ hdone.effect.core hdone.sameBut hdone.prepared.others (fun t ht hk => ?_)
    (fun t ht => if_neg (Ne.symm ht)) (fun t ht hts i hi => hdone.entry_other hs h2 ht hts hi)
    (fun _ => hdone.sid_lt) ?_ fun _ => ?_
  · exact ht (hk.sid.symm.trans hdone.serves.sid)
  · rw [hself]
    exact hdone.served
  · rw [hself]
    exact (hrec.entries _ hdone.sid_lt).after (hdone.entryAfter hs h2)

end

theorem past_of_bits_none : (past sid hist).bits = none →
    (past sid hist).stage1 = false ∧ (past sid hist).word2 = 0 := by
  induction hist with
  | nil => exact fun _ => ⟨rfl, rfl⟩
  | cons c hist ih =>
    cases c with
    | map attr pgt al =>
      rw [past]
      split
      · intro h
        cases h
      · exact ih
    | unmap attr =>
      rw [past]
      split
      · exact fun _ => ⟨rfl, rfl⟩
      · exact ih

theorem Past.word1_cleared (p : Past) : p.cleared.word1 = abortWord1 := if_neg Bool.false_ne_true

theorem cleared_of_bits_none {p : Past} (hb : p.bits = none) (h1 : p.stage1 = false)
    (h2 : p.word2 = 0) : p.cleared = p := by
  cases p
  simp only at hb h1 h2
  rw [hb, h1, h2]
  rfl

section

variable (hs : smmu.Ok) (h2 : smmu.stLevel2lvl = false) (hrec : Recorded smmu hist d)
include hs h2 hrec

theorem recorded_free (hk : Serves d attr.streamid k) :
    Recorded smmu (.unmap attr :: hist)
      (freeMaster (d.writeEntry (smmu.entry attr.streamid) none) k) := by
  have hsid := hrec.range _ k hk
  have hself : past attr.streamid (.unmap attr :: hist) = (past attr.streamid hist).cleared :=
    if_pos rfl
  have hwrite := keeps_writeSte hs hrec.core hsid (steOf_linear h2 _ _) none
  have hsame : SameBut k d (freeMaster (d.writeEntry (smmu.entry attr.streamid) none) k) :=
    ⟨fun _ _ => Iff.rfl, fun j hj => freeMaster_of_ne hj⟩
  have hfreed : ∀ t,
      ¬ Serves (freeMaster (d.writeEntry (smmu.entry attr.streamid) none) k) t k := by
    intro t ht
    have hused := ht.used
    rw [freeMaster_self] at hused
    cases hused
  have hnone : ∀ j, ¬ Serves (freeMaster (d.writeEntry (smmu.entry attr.streamid) none) k)
      attr.streamid j := by
    intro j hj
    have hjk : j ≠ k := by
      intro heq
      rw [heq] at hj
      exact hfreed _ hj
    exact hjk ((hrec.served _).unique j k ((hsame.serves_iff hjk).mp hj) hk)
  refine hrec.step _ (core_freeMaster hwrite.core k)
    hsame (fun t hts h => hts (h.sid.symm.trans hk.sid))
    (fun t _ => hfreed t) (fun t hts => if_neg (Ne.symm hts)) (fun t ht hts i hi => ?_)
    (fun _ => hsid) ?_ fun _ => ?_
  · show (smmuStrtabWriteSte none (smmu.entry attr.streamid) d.heap).mem _ = _
    apply writeSte_outside
    intro j hj
    exact entry_ne hs hrec.core ht hsid hts (steOf_linear h2 d.level1 t)
      (steOf_linear h2 d.level1 attr.streamid) hi (by omega)
  · rw [hself]
    exact served_none hnone
  · rw [hself]
    have habort := writeSte_abort (smmu.entry attr.streamid) d.heap
    refine ⟨?_, habort.word2, habort.word3.trans (hrec.entries _ hsid).word3⟩
    rw [Past.word1_cleared, ← habort.word1]
    rfl

theorem recorded_unmap (hfront : Front d attr.streamid) :
    Recorded smmu (.unmap attr :: hist) (d.call smmu (.unmap attr)) := by
  rw [State.call, valSmmuUnmap]
  cases smmuMasterAt_cases hrec.core hfront with
  | inl hfound =>
    obtain ⟨k, hk, hat⟩ := hfound
    have hsid := hrec.range _ k hk
    rw [hat]
    simp only [hk.used, if_true]
    rw [if_neg (by omega), linear_entry hs hsid h2]
    exact recorded_free hs h2 hrec hk
  | inr hnew =>
    obtain ⟨hnone, k, d', hat, hheap, hlevel1, hsame, hlt, hzero, hidle⟩ := hnew
    have hfor := masterFor_smmuMasterAt hs hrec.core attr.streamid
    have hbits := (hrec.served _).bits_eq_none hnone
    have hpast : ∀ t, past t (.unmap attr :: hist) = past t hist := by
      intro t
      rw [past]
      split_ifs with hts
      · rw [← hts]
        obtain ⟨h1, hw2⟩ := past_of_bits_none hbits
        exact cleared_of_bits_none hbits h1 hw2
      · rfl
    have hunused : (d'.master k).smmu = false := by
      rw [hzero]
      rfl
    have hafter : ∀ t, ¬ Serves d' t k := by
      intro t ht
      cases hunused.symm.trans ht.used
    rw [hat] at hfor ⊢
    simp only [hunused, false_eq_true, if_false]
    refine hrec.step attr.streamid hfor.keeps.core hsame (fun t _ => hidle t)
      (fun t _ => hafter t) (fun t _ => hpast t) (fun t _ _ i _ => by rw [hheap])
      (fun hk => absurd hk (hafter _)) ?_ fun ht => ?_
    · rw [hpast]
      exact (hrec.served _).of_sameBut hsame (hidle _) (hafter _)
    · rw [hpast, hheap]
      exact hrec.entries _ ht

end

section

variable {mem mem' : Nat → Nat} {hist' : List Call}

theorem History.recorded (hs : smmu.Ok) (h2 : smmu.stLevel2lvl = false)
    (h : History smmu mem hist d) : Recorded smmu hist d := by
  induction h with
  | start => exact recorded_start hs h2 mem
  | @call hist d c run succeeds inside ih =>
    cases c with
    | map attr pgt al => exact recorded_map hs h2 ih succeeds inside
    | unmap attr => exact recorded_unmap hs h2 ih inside

/-- The entry after a run that ends with a map call. -/
theorem History.entryAfter (hs : smmu.Ok) (h2 : smmu.stLevel2lvl = false) {pgt : PgtDescriptor}
    {al : Allocations} (h : History smmu mem (.map attr pgt al :: hist) d) :
    ∃ d0 : State, Remembers d0.heap.mem (smmu.entry attr.streamid) (past attr.streamid hist) ∧
      EntryAfter smmu attr pgt ((past attr.streamid hist).bits.getD attr.ssidBits) d0.heap.mem
        d.heap.mem (smmu.entry attr.streamid) := by
  cases h with
  | @call _ d0 _ run hok hin =>
    have hrec := run.recorded hs h2
    have hdone := mapDone_of_succeeds hs h2 hrec hok hin
    exact ⟨d0, hrec.entries _ hdone.sid_lt, hdone.entryAfter hs h2⟩

structure SameEntry (ste ste' : Words) : Prop where
  low : getField 6 0 (ste 0) = getField 6 0 (ste' 0)
  high : getField 12 52 (ste 0) = getField 12 52 (ste' 0)
  word1 : ste 1 = ste' 1
  word2 : ste 2 = ste' 2
  word3 : ste 3 = ste' 3

/-- The pasts agree on what is left to a map call: for stage 2 whether there was a stage 1
map, for stage 1 the substream width and the words of stage 2. -/
def SamePast (attr attr' : MasterAttributes) (p p' : Past) : Prop :=
  if attr.stage2 then p.stage1 = p'.stage1
  else p.bits.getD attr.ssidBits = p'.bits.getD attr'.ssidBits ∧ p.word2 = p'.word2 ∧
    p.word3 = p'.word3

theorem word1_eq_iff (p p' : Past) :
    p.word1 ||| stage2Bits = p'.word1 ||| stage2Bits ↔ p.stage1 = p'.stage1 := by
  have hne : stage1Word1 ||| stage2Bits ≠ abortWord1 ||| stage2Bits := by decide
  unfold Past.word1
  cases p.stage1 <;> cases p'.stage1 <;> simp [hne, hne.symm]

theorem Stage1Word0.width_eq {width width' w w' : Nat} (h : Stage1Word0 smmu width w)
    (h' : Stage1Word0 smmu width' w') (hw : width ≤ 20) (hw' : width' ≤ 20)
    (heq : getField 12 52 w = getField 12 52 w') : width = width' := by
  have hfield : ∀ x, getField 5 59 x = getField 5 7 (getField 12 52 x) := by
    intro x
    rw [getField_eq, getField_eq, getField_eq]
    omega
  rw [h.high, h'.high] at heq
  have hmax := congrArg (getField 5 7) heq
  rw [← hfield, ← hfield, stage1Word0_cdMax 0 (by omega), stage1Word0_cdMax 0 (by omega)] at hmax
  exact hmax

/-- Two runs that end with the same map call have the same entry exactly if their pasts
agree on what is left to the call. -/
theorem sameEntry_iff_samePast (hs : smmu.Ok) (h2 : smmu.stLevel2lvl = false)
    {attr attr' : MasterAttributes} {pgt : PgtDescriptor} {al al' : Allocations}
    (hsid : attr'.streamid = attr.streamid) (hstage : attr'.stage2 = attr.stage2)
    (h : History smmu mem (.map attr pgt al :: hist) d)
    (h' : History smmu mem' (.map attr' pgt al' :: hist') d') :
    SameEntry (wordsAt d.heap.mem (smmu.strtabBase + attr.streamid * 64))
        (wordsAt d'.heap.mem (smmu.strtabBase + attr.streamid * 64)) ↔
      SamePast attr attr' (past attr.streamid hist) (past attr.streamid hist') := by
  obtain ⟨d0, hmem, hentry⟩ := h.entryAfter hs h2
  obtain ⟨d0', hmem', hentry'⟩ := h'.entryAfter hs h2
  rw [hsid] at hmem' hentry'
  rw [strtabBase_eq hs]
  cases hentry with
  | stage2 hst h0 h1 hw2 hw3 =>
    cases hentry' with
    | stage1 hst' => cases hst'.symm.trans (hstage.trans hst)
    | stage2 hst' h0' h1' hw2' hw3' =>
      rw [SamePast, if_pos hst, ← word1_eq_iff, ← hmem.word1, ← hmem'.word1, ← h1, ← h1']
      constructor
      · exact fun hsame => hsame.word1
      · intro heq
        refine ⟨?_, ?_, heq, hw2.trans hw2'.symm, hw3.trans hw3'.symm⟩
        · exact congrArg (getField 6 0) (h0.trans h0'.symm)
        · exact congrArg (getField 12 52) (h0.trans h0'.symm)
  | stage1 hst hw h0 h1 hw2 hw3 =>
    cases hentry' with
    | stage2 hst' => cases hst.symm.trans (hstage.symm.trans hst')
    | stage1 hst' hw' h0' h1' hw2' hw3' =>
      rw [SamePast, if_neg (by rw [hst]; decide), ← hmem.word2, ← hmem.word3, ← hmem'.word2,
        ← hmem'.word3, ← hw2, ← hw3, ← hw2', ← hw3']
      constructor
      · intro hsame
        exact ⟨h0.width_eq h0' hw hw' hsame.high, hsame.word2, hsame.word3⟩
      · rintro ⟨hwidth, hs2, hs3⟩
        refine ⟨?_, ?_, h1.trans h1'.symm, hs2, hs3⟩
        · exact h0.low.trans (hwidth ▸ h0'.low.symm)
        · exact h0.high.trans (hwidth ▸ h0'.high.symm)

end

/-! ## Left-over bits -/

def stage2Call : Call := .map ⟨1, 0, 0, true⟩ samplePgt ⟨0, 0, 0⟩

def stage1Call : Call := .map ⟨1, 0, 0, false⟩ samplePgt ⟨0, 0x2000, 0⟩

def afterStage2 : State := linearStart.dev.call linearSmmu stage2Call

def afterStage1 : State := linearStart.dev.call linearSmmu stage1Call

theorem linearSmmu_ok : linearSmmu.Ok := ⟨by decide, by decide, by decide, by decide⟩

theorem history_stage2 : History linearSmmu (fun _ => 0) [stage2Call] afterStage2 := by
  have hrec := recorded_start linearSmmu_ok rfl fun _ => 0
  apply History.call .start
  · refine ⟨by decide, fun h => ?_, fun h => ?_, fun h => ?_⟩
    all_goals cases h
  · refine ⟨front_of_ne_zero hrec.core (by decide), fun h => ?_, fun h => ?_, fun h => ?_⟩
    all_goals cases h

theorem history_stage1 : History linearSmmu (fun _ => 0) [stage1Call] afterStage1 := by
  have hrec := recorded_start linearSmmu_ok rfl fun _ => 0
  apply History.call .start
  · refine ⟨by decide, fun h => ?_, fun _ _ => ⟨fun a hlo _ => ?_, by decide⟩, fun _ _ hneed => ?_⟩
    · cases h
    · show linearStart.dev.heap.own a = none
      rw [linearStart, own_start, if_neg]
      have hsize : 0x1000 + 2 * linearSmmu.strtabSize % 2 ^ 32 ≤ 0x2000 := by decide
      intro hin
      exact absurd (hin.2.trans_le hsize) (not_lt.mpr hlo)
    · exact absurd rfl hneed.1
  · exact ⟨front_of_ne_zero hrec.core (by decide), fun _ => by decide, fun _ => by decide,
      fun _ _ => by decide⟩

theorem History.stage2 (h : History linearSmmu (fun _ => 0) hist d)
    (hzero : (valSmmuMap linearSmmu d ⟨1, 0, 0, true⟩ samplePgt ⟨0, 0, 0⟩).1 = 0) :
    History linearSmmu (fun _ => 0) (stage2Call :: hist) (d.call linearSmmu stage2Call) := by
  have hrec := h.recorded linearSmmu_ok rfl
  have hstage : ((mapState d ⟨1, 0, 0, true⟩).master (takeMaster d ⟨1, 0, 0, true⟩).1).stage =
      .s2 := by
    rw [mapState, setStage_master]
    rfl
  apply h.call
  · refine ⟨hzero, fun h => ?_, fun h => ?_, fun h => ?_⟩
    · cases h
    · cases hstage.symm.trans h
    · cases hstage.symm.trans h
  · refine ⟨front_of_ne_zero hrec.core (by decide), fun h => ?_, fun h => ?_, fun h => ?_⟩
    all_goals cases hstage.symm.trans h

/-- A second stage 2 map leaves the entry of the first. -/
theorem sameEntry_stage2_again :
    SameEntry (wordsAt afterStage2.heap.mem (linearSmmu.strtabBase + 1 * 64))
      (wordsAt (afterStage2.call linearSmmu stage2Call).heap.mem
        (linearSmmu.strtabBase + 1 * 64)) :=
  (sameEntry_iff_samePast linearSmmu_ok rfl rfl rfl history_stage2
    (history_stage2.stage2 (by decide))).mpr rfl

/-- After a stage 1 map the entry of a stage 2 map still has the bits of stage 1. -/
theorem stage1_bits_left :
    History linearSmmu (fun _ => 0) [stage2Call] afterStage2 ∧
      History linearSmmu (fun _ => 0) [stage2Call, stage1Call]
        (afterStage1.call linearSmmu stage2Call) ∧
      ¬ SameEntry (wordsAt afterStage2.heap.mem (linearSmmu.strtabBase + 1 * 64))
        (wordsAt (afterStage1.call linearSmmu stage2Call).heap.mem
          (linearSmmu.strtabBase + 1 * 64)) := by
  refine ⟨history_stage2, history_stage1.stage2 (by decide), fun h => ?_⟩
  have hword := h.word1
  have hne : wordsAt afterStage2.heap.mem (linearSmmu.strtabBase + 1 * 64) 1 ≠
      wordsAt (afterStage1.call linearSmmu stage2Call).heap.mem
        (linearSmmu.strtabBase + 1 * 64) 1 := by
    decide +kernel
  exact hne hword

end ServerSoc.Smmu
