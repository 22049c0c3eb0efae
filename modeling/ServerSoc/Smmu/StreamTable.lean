/-
The stream table over whole runs of map and unmap calls.

`Sys.table` is the configuration of the last successful map of a stream, or nothing.  In every
state reached the SMMU fetches the entries of this table, as long as the calls meet `Allowed` and
the memory of a level 1 table, which is not cleared, has no valid spans.
-/
import ServerSoc.Base.Run
import ServerSoc.Smmu.Effect

namespace ServerSoc.Smmu

open Base Function Nat Option

structure Sys where
  dev : State
  table : Nat → Option Config

inductive Call where
  | map (attr : MasterAttributes) (pgt : PgtDescriptor) (al : Allocations)
  | unmap (attr : MasterAttributes)
  deriving DecidableEq, Repr

def Call.streamid : Call → Nat
  | .map attr _ _ => attr.streamid
  | .unmap attr => attr.streamid

def step (smmu : SmmuDev) (s : Sys) : Call → Sys
  | .map attr pgt al =>
    { dev := (valSmmuMap smmu s.dev attr pgt al).2
      table := if (valSmmuMap smmu s.dev attr pgt al).1 = 0 then
          update s.table attr.streamid (some (config attr pgt))
        else s.table }
  | .unmap attr =>
    { dev := valSmmuUnmap smmu s.dev attr
      table := update s.table attr.streamid none }

/-- The SMMU after its initialisation, with what the memory held before. -/
def start (smmu : SmmuDev) (mem : Nat → Nat) : Sys where
  dev := smmuStrtabInit smmu { mem := mem, own := fun _ => none }
  table := fun _ => none

def Allocates (smmu : SmmuDev) (s : Sys) : Call → Prop
  | .map attr _ al => attr.streamid < 2 ^ smmu.sidBits →
      AllocOk smmu (mapState s.dev attr) (takeMaster s.dev attr).1 al
  | .unmap _ => True

/-- What has to hold for an unmap call.  In a table of two levels no stream whose master
is in use can be unmapped, and stream 0 only if its master is in front of all masters that
are not in use, which have stream id 0 too. -/
structure UnmapOk (smmu : SmmuDev) (s : Sys) (attr : MasterAttributes) : Prop where
  linear : attr.streamid < 2 ^ smmu.sidBits → (∃ k, InUse s.dev attr.streamid k) →
    smmu.stLevel2lvl = false
  zero : attr.streamid = 0 → s.table 0 ≠ none → ∃ k, InUse s.dev 0 k

def CallOk (smmu : SmmuDev) (s : Sys) : Call → Prop
  | .map attr pgt al => MapOk smmu s.dev (s.table attr.streamid) attr pgt al
  | .unmap attr => UnmapOk smmu s attr

def Allowed (smmu : SmmuDev) (s : Sys) (c : Call) : Prop := Allocates smmu s c ∧ CallOk smmu s c

def ClearLevel1 (smmu : SmmuDev) (mem : Nat → Nat) : Prop :=
  smmu.stLevel2lvl = true →
    ∀ g < 2 ^ (smmu.sidBits - 8), spanInvalid (mem (smmu.strtab64 + g * 8))

structure Inv (smmu : SmmuDev) (s : Sys) : Prop where
  core : Core smmu s.dev
  streams : ∀ sid < 2 ^ smmu.sidBits, StreamOk smmu s.dev sid (s.table sid)

/-! ## The start -/

variable {smmu : SmmuDev}

section

variable {mem : Nat → Nat} {h : Heap Owner}

theorem own_strtabInit (smmu : SmmuDev) (h : Heap Owner) (a : Nat) :
    (smmuStrtabInit smmu h).heap.own a =
      if smmu.strtabPtr ≤ a ∧ a < smmu.strtabPtr + 2 * smmu.strtabSize % 2 ^ 32 then some .strtab
      else h.own a := by
  rw [smmuStrtabInit]
  cases smmu.stLevel2lvl with
  | false =>
    rw [if_neg (by decide), own_abortEntries]
    rfl
  | true => rfl

theorem own_start (smmu : SmmuDev) (mem : Nat → Nat) (a : Nat) :
    (start smmu mem).dev.heap.own a =
      if smmu.strtabPtr ≤ a ∧ a < smmu.strtabPtr + 2 * smmu.strtabSize % 2 ^ 32 then some .strtab
      else none :=
  own_strtabInit smmu _ a

theorem strtab_strtabInit (hs : smmu.Ok) (h : Heap Owner) :
    (smmuStrtabInit smmu h).heap.Owns .strtab smmu.strtab64 smmu.strtabWords := by
  obtain ⟨hsize, hlt, hlo, hhi⟩ := strtab_bounds hs
  have hmod := mod_eq_of_lt hlt
  intro i hi
  rw [own_strtabInit, if_pos (by omega)]

theorem core_strtabInit (hs : smmu.Ok) (hclear : ClearLevel1 smmu h.mem) :
    Core smmu (smmuStrtabInit smmu h) := by
  refine ⟨strtab_strtabInit hs h, fun h2 g hg _ => ?_, fun _ g _ p hp => ?_,
    fun k hk => absurd hk (Nat.not_lt_zero k)⟩
  · rw [smmuStrtabInit, h2]
    exact hclear h2 g hg
  · cases hp

theorem streamOk_strtabInit (smmu : SmmuDev) (h : Heap Owner) {sid : Nat}
    (hsid : sid < 2 ^ smmu.sidBits) : StreamOk smmu (smmuStrtabInit smmu h) sid none := by
  intro a ha
  cases h2 : smmu.stLevel2lvl with
  | false =>
    rw [steOf, h2, if_neg (by decide), some_inj] at ha
    rw [← ha, smmuStrtabInit, h2]
    have hlt : sid < smmu.l1EntCount := by
      rwa [SmmuDev.l1EntCount, h2, if_neg (by decide), one_shiftLeft]
    exact ⟨(abortEntries_inside hlt).word0, (abortEntries_inside hlt).word1⟩
  | true =>
    rw [steOf, h2] at ha
    cases ha

theorem frame_strtabInit (hs : smmu.Ok) (hfree : h.Free smmu.strtabPtr (2 * smmu.strtabSize)) :
    h.Frame (fun _ => False) (smmuStrtabInit smmu h).heap := by
  obtain ⟨hsize, hlt, hlo, hhi⟩ := strtab_bounds hs
  have hmod := mod_eq_of_lt hlt
  have hout : ∀ a, h.own a ≠ none →
      ¬ (smmu.strtabPtr ≤ a ∧ a < smmu.strtabPtr + 2 * smmu.strtabSize) :=
    fun a ha hin => ha (hfree a hin.1 hin.2)
  refine ⟨fun a o ho => ?_, fun a ha _ => ?_⟩
  · rw [own_strtabInit, hmod, if_neg (hout a (by simp [ho])), ho]
  · have hnot := hout a ha
    cases h2 : smmu.stLevel2lvl with
    | true =>
      rw [smmuStrtabInit, h2]
      rfl
    | false =>
      have hcount : smmu.l1EntCount * 64 = smmu.strtabSize := by
        rw [hsize, SmmuDev.strtabWords, SmmuDev.l1EntCount, h2, if_neg (by decide),
          if_neg (by decide), one_shiftLeft, Nat.mul_assoc]
      rw [smmuStrtabInit, h2]
      show (abortEntries smmu.strtab64 smmu.l1EntCount
        (calloc h 2 smmu.strtabSize smmu.strtabPtr .strtab)).mem a = h.mem a
      rw [abortEntries_outside (by omega), calloc, hmod, Heap.mem_zero_outside hnot, Heap.mem_claim]

theorem inv_start (hs : smmu.Ok) (hclear : ClearLevel1 smmu mem) : Inv smmu (start smmu mem) :=
  ⟨core_strtabInit hs hclear, fun _ hsid => streamOk_strtabInit smmu _ hsid⟩

end

/-! ## Unmapping -/

section

variable {d : State} {k sid j : Nat}

theorem smmuMasterAt_of_inUse (h : InUse d sid k) : smmuMasterAt d sid = (k, d) := by
  rw [smmuMasterAt, h.1]

/-- A stream other than 0 with a master in use has one in front, since the masters not in
use have stream id 0. -/
theorem exists_inUse (hc : Core smmu d) (hne : sid ≠ 0) (hj : j < d.count)
    (hjs : (d.master j).sid = sid) : ∃ k, InUse d sid k := by
  obtain ⟨k, hfind⟩ := ne_none_iff_exists'.mp (findMaster_ne_none hj hjs)
  obtain ⟨hk, hsid⟩ := findMaster_some hfind
  refine ⟨k, hfind, ?_⟩
  by_contra hidle
  rw [(hc.masters k hk).idle (Bool.of_not_eq_true hidle)] at hsid
  exact hne hsid.symm

def freeMaster (d : State) (k : Nat) : State :=
  ({ d with heap := smmuCdtabFree d.heap k }).setMaster k Master.zero

theorem freeMaster_self (d : State) (k : Nat) : (freeMaster d k).master k = Master.zero :=
  update_self _ _ _

theorem freeMaster_of_ne (hjk : j ≠ k) : (freeMaster d k).master j = d.master j :=
  update_of_ne hjk _ _

theorem core_freeMaster (hc : Core smmu d) (k : Nat) : Core smmu (freeMaster d k) := by
  refine hc.transfer rfl (fun a o ho h => ?_) (fun _ _ _ => rfl) fun j hj => ?_
  · rcases h with rfl | ⟨g, -, rfl⟩ <;> exact Heap.own_release ho rfl
  · by_cases hjk : j = k
    · rw [hjk, freeMaster_self]
      exact .zero
    · rw [freeMaster_of_ne hjk]
      refine ⟨(hc.masters j hj).idle, fun p hp => ?_⟩
      refine ((hc.masters j hj).table p hp).transfer (fun a o ho h => ?_) fun _ _ _ => rfl
      rcases h with rfl | ⟨i, rfl⟩ <;> exact Heap.own_release ho (decide_eq_false hjk)

theorem keeps_freeMaster (hc : Core smmu d) (k : Nat) :
    Keeps smmu (fun t => t ≠ (d.master k).sid) d (freeMaster d k) := by
  refine ⟨core_freeMaster hc k, fun t _ hne c hok => ?_, fun _ _ _ => rfl⟩
  cases c with
  | none => exact hok
  | some c =>
    -- the master of the stream is another one
    have hother : ∀ j, (d.master j).sid = t → (freeMaster d k).master j = d.master j := by
      intro j hj
      refine freeMaster_of_ne fun hjk => ?_
      rw [hjk] at hj
      exact hne hj.symm
    cases c with
    | stage1 ssidBits ssid pgt =>
      obtain ⟨a, j, p, cd, ha, hat⟩ := hok
      have hm := hother j hat.stream
      exact ⟨a, j, p, cd, ha, hat.master, hm.symm ▸ hat.used, hm.symm ▸ hat.stream,
        hm.symm ▸ hat.table, hm.symm ▸ hat.max, hm.symm ▸ hat.word0, hat.word1, hat.bound,
        hm.symm ▸ hat.desc, hat.cd0, hat.cd1, hat.cd3⟩
    | stage2 pgt =>
      obtain ⟨a, j, ha, hat⟩ := hok
      have hm := hother j hat.stream
      exact ⟨a, j, ha, hat.master, hm.symm ▸ hat.used, hm.symm ▸ hat.stream, hat.word0, hat.word1,
        hat.word2, hat.word3⟩

structure Unmapped (smmu : SmmuDev) (d : State) (sid : Nat) (d' : State) : Prop where
  others : Keeps smmu (fun t => t ≠ sid) d d'
  entry : sid < 2 ^ smmu.sidBits → StreamOk smmu d' sid none

theorem unmapped_valSmmuUnmap (hs : smmu.Ok) (hc : Core smmu d) {attr : MasterAttributes}
    {cur : Option Config}
    (hok : attr.streamid < 2 ^ smmu.sidBits → StreamOk smmu d attr.streamid cur)
    (hmapped : attr.streamid < 2 ^ smmu.sidBits → cur ≠ none → ∃ k, InUse d attr.streamid k)
    (hlinear : attr.streamid < 2 ^ smmu.sidBits → (∃ k, InUse d attr.streamid k) →
      smmu.stLevel2lvl = false) : Unmapped smmu d attr.streamid (valSmmuUnmap smmu d attr) := by
  have hfor := masterFor_smmuMasterAt hs hc attr.streamid
  rw [valSmmuUnmap]
  cases hu : ((smmuMasterAt d attr.streamid).2.master (smmuMasterAt d attr.streamid).1).smmu with
  | false =>
    refine ⟨hfor.keeps.mono (fun _ _ => trivial), fun hsid => ?_⟩
    cases cur with
    | none => exact hfor.keeps.streams _ hsid trivial _ (hok hsid)
    | some c =>
      obtain ⟨k, hk⟩ := hmapped hsid (some_ne_none c)
      rw [smmuMasterAt_of_inUse hk] at hu
      cases hu.symm.trans hk.2
  | true =>
    obtain ⟨hin, hd⟩ := hfor.found hu
    rw [if_pos rfl, hd]
    generalize (smmuMasterAt d attr.streamid).1 = k at *
    by_cases hsid : attr.streamid < 2 ^ smmu.sidBits
    · have h2 := hlinear hsid ⟨k, hin⟩
      have ha : steOf smmu d.level1 attr.streamid = some (smmu.strtab64 + attr.streamid * 64) := by
        rw [steOf, h2, if_neg (by decide)]
      rw [if_neg (by omega), linear_entry hs hsid h2]
      have hwrite := keeps_writeSte hs hc hsid ha none
      have hfree := keeps_freeMaster hwrite.core k
      rw [show ((d.writeEntry (smmu.strtab64 + attr.streamid * 64) none).master k).sid =
        attr.streamid from (findMaster_some hin.1).2] at hfree
      exact ⟨hwrite.trans hfree, fun _ => streamOk_abort ha⟩
    · rw [if_pos (by omega)]
      exact ⟨.refl hc, fun h => absurd h hsid⟩

end

/-! ## Runs -/

section

variable {s s' : Sys} {c : Call}

theorem streams_update (hinv : Inv smmu s) {d : State} {t : Nat} {c : Option Config}
    (hkeeps : Keeps smmu (fun sid => sid ≠ t) s.dev d)
    (hentry : t < 2 ^ smmu.sidBits → StreamOk smmu d t c) :
    ∀ sid < 2 ^ smmu.sidBits, StreamOk smmu d sid (update s.table t c sid) := by
  intro sid hsid
  by_cases hst : sid = t
  · rw [hst, update_self]
    exact hentry (hst ▸ hsid)
  · rw [update_of_ne hst]
    exact hkeeps.streams sid hsid hst _ (hinv.streams sid hsid)

theorem step_keeps (hs : smmu.Ok) (hinv : Inv smmu s) (hc : Allowed smmu s c) :
    Keeps smmu (fun t => t ≠ c.streamid) s.dev (step smmu s c).dev ∧
      ∀ sid < 2 ^ smmu.sidBits, StreamOk smmu (step smmu s c).dev sid
        ((step smmu s c).table sid) := by
  cases c with
  | map attr pgt al =>
    have hmap := mapped_valSmmuMap hs hinv.core (hinv.streams attr.streamid) hc.2 hc.1
    refine ⟨hmap.others, ?_⟩
    by_cases h0 : (valSmmuMap smmu s.dev attr pgt al).1 = 0
    · rw [step, if_pos h0]
      exact streams_update hinv hmap.others fun _ => (hmap.success h0).2
    · rw [step, if_neg h0]
      exact fun sid hsid => (hmap.failure h0).streams sid hsid trivial _ (hinv.streams sid hsid)
  | unmap attr =>
    have hok := hc.2
    have hmapped : attr.streamid < 2 ^ smmu.sidBits → s.table attr.streamid ≠ none →
        ∃ k, InUse s.dev attr.streamid k := by
      intro hsid hne
      by_cases hzero : attr.streamid = 0
      · rw [hzero] at hne ⊢
        exact hok.zero hzero hne
      · obtain ⟨cfg, hcfg⟩ := ne_none_iff_exists'.mp hne
        have hok := hinv.streams _ hsid
        rw [hcfg] at hok
        obtain ⟨-, j, hj, -, hjs⟩ := hok.of_some
        exact exists_inUse hinv.core hzero hj hjs
    have hunmap :=
      unmapped_valSmmuUnmap hs hinv.core (hinv.streams attr.streamid) hmapped hok.linear
    exact ⟨hunmap.others, streams_update hinv hunmap.others hunmap.entry⟩

theorem inv_step (hs : smmu.Ok) (hinv : Inv smmu s) (hc : Allowed smmu s c) :
    Inv smmu (step smmu s c) :=
  ⟨(step_keeps hs hinv hc).1.core, (step_keeps hs hinv hc).2⟩

/-- In every state reached the SMMU fetches what the calls asked for, and the next call
changes no entry of another stream. -/
theorem valSmmuMap_unmap_refine {mem : Nat → Nat} (hs : smmu.Ok) (hclear : ClearLevel1 smmu mem)
    (hrun : Reaches (fun s c => some (step smmu s c)) (Allowed smmu) (start smmu mem) s) :
    Refines smmu s.dev.heap.mem s.table ∧
      ∀ c, Allowed smmu s c → ∀ sid < 2 ^ smmu.sidBits, sid ≠ c.streamid →
        fetch smmu (step smmu s c).dev.heap.mem sid = fetch smmu s.dev.heap.mem sid := by
  have hinv : Inv smmu s := by
    refine hrun.invariant (inv_start hs hclear) fun s c s' hinv hc hstep => ?_
    cases hstep
    exact inv_step hs hinv hc
  exact ⟨refines_of_streamOk hs hinv.core hinv.streams, fun c hc sid hsid hne =>
    (step_keeps hs hinv hc).1.entries sid hsid hne⟩

end

/-! ## Two SMMUs -/

def linearSmmu : SmmuDev := ⟨2, false, false, true, true, 0x1000⟩

def linearStart : Sys := start linearSmmu (fun _ => 0)

def linearStage1 : Sys :=
  step linearSmmu linearStart (.map ⟨1, 0, 0, false⟩ samplePgt ⟨0, 0x2000, 0⟩)

def linearStage2 : Sys := step linearSmmu linearStage1 (.map ⟨0, 0, 0, true⟩ samplePgt ⟨0, 0, 0⟩)

def linearEnd : Sys := step linearSmmu linearStage2 (.unmap ⟨1, 0, 0, false⟩)

theorem valSmmuMap_unmap_refine_linear :
    Reaches (fun s c => some (step linearSmmu s c)) (Allowed linearSmmu)
        linearStart linearEnd ∧
      linearEnd.table 0 = some (.stage2 samplePgt) ∧ linearEnd.table 1 = none ∧
      Refines linearSmmu linearEnd.dev.heap.mem linearEnd.table := by
  have h1 : Allowed linearSmmu linearStart (.map ⟨1, 0, 0, false⟩ samplePgt ⟨0, 0x2000, 0⟩) := by
    refine ⟨fun _ => ⟨fun h => ?_, fun _ _ => ⟨fun a hlo _ => ?_, by decide⟩, fun _ _ hneed => ?_⟩,
      by decide, fun _ => by decide, fun _ => by decide, fun _ k hk => ?_, fun _ => by decide,
      fun h => ?_⟩
    · cases h
    · show linearStart.dev.heap.own a = none
      rw [linearStart, own_start, if_neg]
      have hsize : 0x1000 + 2 * linearSmmu.strtabSize % 2 ^ 32 ≤ 0x2000 := by decide
      rintro ⟨-, hlt⟩
      exact absurd (hlt.trans_le hsize) (not_lt.mpr hlo)
    · exact absurd rfl hneed.1
    · cases hk.1
    · cases h
  have h2 : Allowed linearSmmu linearStage1 (.map ⟨0, 0, 0, true⟩ samplePgt ⟨0, 0, 0⟩) := by
    refine ⟨fun _ => ⟨fun h => ?_, fun h => ?_, fun h => ?_⟩, by decide, fun h => ?_, fun h => ?_,
      fun h => ?_, fun h => ?_, fun _ ssidBits ssid pgt' h => ?_⟩
    all_goals cases h
  have h3 : Allowed linearSmmu linearStage2 (.unmap ⟨1, 0, 0, false⟩) :=
    ⟨trivial, fun _ _ => rfl, fun h => by cases h⟩
  have hrun : Reaches (fun s c => some (step linearSmmu s c)) (Allowed linearSmmu)
      linearStart linearEnd :=
    .tail (.tail (.tail .start h1 rfl) h2 rfl) h3 rfl
  have hok : linearSmmu.Ok := ⟨by decide, by decide, by decide, by decide⟩
  have hclear : ClearLevel1 linearSmmu (fun _ => 0) := fun h => by cases h
  exact ⟨hrun, by decide, by decide, (valSmmuMap_unmap_refine hok hclear hrun).1⟩

def twoLevelSmmu : SmmuDev := ⟨16, true, false, true, true, 0x10000⟩

def twoLevelStart : Sys := start twoLevelSmmu (fun _ => 0)

def twoLevelMapped : Sys :=
  step twoLevelSmmu twoLevelStart (.map ⟨1, 0, 0, true⟩ samplePgt ⟨0x20000, 0, 0⟩)

def twoLevelEnd : Sys := step twoLevelSmmu twoLevelMapped (.unmap ⟨1, 0, 0, true⟩)

/-- The entry of stream 1 still translates. -/
theorem valSmmuUnmap_twoLevel :
    Reaches (fun s c => some (step twoLevelSmmu s c)) (Allocates twoLevelSmmu)
        twoLevelStart twoLevelEnd ∧
      ¬ Refines twoLevelSmmu twoLevelEnd.dev.heap.mem twoLevelEnd.table := by
  have h1 : Allocates twoLevelSmmu twoLevelStart
      (.map ⟨1, 0, 0, true⟩ samplePgt ⟨0x20000, 0, 0⟩) := by
    refine fun _ => ⟨fun _ _ => ⟨fun a hlo _ => ?_, by decide⟩, fun h => ?_, fun h => ?_⟩
    · show twoLevelStart.dev.heap.own a = none
      rw [twoLevelStart, own_start, if_neg]
      have hsize : 0x10000 + 2 * twoLevelSmmu.strtabSize % 2 ^ 32 ≤ 0x20000 := by decide
      rintro ⟨-, hlt⟩
      exact absurd (hlt.trans_le hsize) (not_lt.mpr hlo)
    · cases h
    · cases h
  have h2 : Allocates twoLevelSmmu twoLevelMapped (.unmap ⟨1, 0, 0, true⟩) := trivial
  refine ⟨.tail (.tail .start h1 rfl) h2 rfl, fun h => ?_⟩
  have hvalid : (fetch twoLevelSmmu twoLevelEnd.dev.heap.mem 1).isSome = true := by
    decide +kernel
  have hnone : fetch twoLevelSmmu twoLevelEnd.dev.heap.mem 1 = none := h 1 (by decide)
  rw [hnone] at hvalid
  cases hvalid

/-! ## The fields of the entry and of the descriptor that a map call writes

Read at the positions the SMMU has for them, they are those of the call, whatever the memory
held before.  The exception is a page table above 2 ^ 48: the masks of its two fields are
used without the shift, so the upper four bits of the address are lost. -/

/-- What the SMMU reads for the stream of master `k` is what a call with `pgt` asked for.  The
second word of a stage 2 entry has no field of the page table and is left out. -/
def Decodes (smmu : SmmuDev) (d : State) (k : Nat) (pgt : PgtDescriptor) : Prop :=
  let a := smmuStrtabGetSteForSid smmu d (d.master k).sid
  let ste := wordsAt d.heap.mem a
  match (d.master k).stage with
  | .s2 => Stage2Entry pgt fun i => if i.val = 1 then stage2Word1 else ste i
  | .s1 => Stage1Entry (d.master k).s1cdmax ste ∧
      getField 2 4 (d.heap.mem a) = (d.master k).s1fmt ∧
      getField 46 6 (d.heap.mem a) = (d.master k).cdtab64.getD 0 / 2 ^ 6 ∧
      CtxDescFor pgt (wordsAt d.heap.mem (smmuCdtabGetCtxDesc d k 0).1)

/-- The context table of master `k` has a format, a width and an address that the entry can
hold, and its descriptor is not inside the entry. -/
structure Representable (smmu : SmmuDev) (d : State) (k : Nat) : Prop where
  width : (d.master k).s1cdmax < 2 ^ 5
  format : (d.master k).s1fmt < 2 ^ 2
  room : (d.master k).cdtab64.getD 0 < 2 ^ 52
  apart : ∀ i < 4, ∀ j < 2, (smmuCdtabGetCtxDesc d k 0).1 + 8 * i ≠
    smmuStrtabGetSteForSid smmu d (d.master k).sid + 8 * j

section

variable {smmu : SmmuDev} {d d' : State} {k : Nat} {pgt : PgtDescriptor} {al : Allocations}

theorem stage_prepareStage1 (smmu : SmmuDev) (d : State) (k ptr : Nat) :
    ((prepareStage1 smmu d k ptr).master k).stage = (d.master k).stage := by
  rw [prepareStage1]
  split <;> simp only [smmuCdtabAlloc, State.setMaster, update_self]

theorem getCtxDesc_again (d : State) (k leafPtr : Nat) (h : Heap Owner) :
    (smmuCdtabGetCtxDesc { (smmuCdtabGetCtxDesc d k leafPtr).2 with heap := h } k 0).1 =
        (smmuCdtabGetCtxDesc d k leafPtr).1 ∧
      ((smmuCdtabGetCtxDesc d k leafPtr).2.master k).stage = (d.master k).stage := by
  by_cases hfmt : (d.master k).s1fmt = strtabSte0S1FmtLinear
  · simp [smmuCdtabGetCtxDesc, hfmt]
  · cases hl : (d.master k).l1Desc ((d.master k).ssid >>> cdtabSplit) with
    | none =>
      simp [smmuCdtabGetCtxDesc, hfmt, hl, State.setMaster]
    | some q => simp only [smmuCdtabGetCtxDesc, hfmt, if_false, hl, and_self]

theorem lt_of_mod_eq {n b : Nat} (hn : 0 < n) (h : b % n = b) : b < n := by
  rw [← h]
  exact Nat.mod_lt b hn

theorem decodes_stage2 (hstage : (d.master k).stage = .s2) :
    Decodes smmu (d.writeStream smmu (d.master k).sid
      (.stage2 0 pgt.pgtBase (stage2Vtcr pgt.tcr))) k pgt ↔ pgt.pgtBase < 2 ^ 48 := by
  obtain ⟨h0, -, h2, h3⟩ := writeSte_stage2
    (smmuStrtabGetSteForSid smmu d (d.master k).sid) pgt.pgtBase pgt.tcr d.heap
  simp only [Decodes, State.writeStream, hstage]
  constructor
  · intro h
    exact lt_of_mod_eq (by decide) (h3.symm.trans h.ttb)
  · intro h
    exact stage2Entry_of_words h0 rfl h2 (h3.trans (Nat.mod_eq_of_lt h))

theorem decodes_stage1 {d1 : State} (hstage : (d1.master k).stage = .s1)
    (hwrite : smmuCdtabWriteCtxDesc d1 k (d1.master k).ssid al.leaf
      ⟨0, pgt.pgtBase, stage1Tcr pgt.tcr, pgt.mair⟩ = some d)
    (hd : d' = d.writeStream smmu (d.master k).sid (.stage1 ((d.master k).cdtab64.getD 0)
      (d.master k).s1cdmax (d.master k).s1fmt))
    (hrep : (d'.master k).stage = .s1 → Representable smmu d' k) :
    Decodes smmu d' k pgt ↔ pgt.pgtBase < 2 ^ 48 := by
  subst hd
  have hagain : ∀ h, (smmuCdtabGetCtxDesc { d with heap := h } k 0).1 =
        (smmuCdtabGetCtxDesc d1 k al.leaf).1 ∧ (d.master k).stage = .s1 ∧
      d.heap = withCtxDesc (smmuCdtabGetCtxDesc d1 k al.leaf).2.heap
        (smmuCdtabGetCtxDesc d1 k al.leaf).1 pgt := by
    rw [smmuCdtabWriteCtxDesc, cdtabCd1Ttb0Mask, and_low] at hwrite
    split at hwrite
    · cases hwrite
    · cases hwrite
      have hget := getCtxDesc_again d1 k al.leaf
      exact fun h => ⟨(hget h).1, (hget h).2.trans hstage, rfl⟩
  obtain ⟨-, hst, hheap⟩ := hagain d.heap
  have hrep := hrep hst
  obtain ⟨h0, h1, hrest⟩ := writeSte_stage1 (smmuStrtabGetSteForSid smmu d (d.master k).sid)
    ((d.master k).cdtab64.getD 0) (d.master k).s1cdmax (d.master k).s1fmt d.heap
  obtain ⟨hw0, hw1, hw3⟩ := withCtxDesc_words (smmuCdtabGetCtxDesc d1 k al.leaf).2.heap
    (smmuCdtabGetCtxDesc d1 k al.leaf).1 pgt
  rw [← hheap] at hw0 hw1 hw3
  have hkeep : ∀ i < 4, _ := fun i hi => hrest ((smmuCdtabGetCtxDesc d1 k al.leaf).1 + 8 * i)
    ((hagain _).1 ▸ hrep.apart i hi 0 (by decide)) ((hagain _).1 ▸ hrep.apart i hi 1 (by decide))
  simp only [Decodes, State.writeStream, hst]
  rw [(hagain _).1]
  constructor
  · rintro ⟨-, -, -, h⟩
    exact lt_of_mod_eq (by decide) (hw1.symm.trans ((hkeep 1 (by decide)).symm.trans h.ttb0))
  · intro h
    refine ⟨stage1Entry_of_words h0 h1 hrep.width, ?_, ?_, ?_⟩
    · exact (congrArg _ h0).trans (stage1Word0_fmt _ _ hrep.format)
    · exact (congrArg _ h0).trans (stage1Word0_ptrField hrep.room _ _)
    · exact ctxDescFor_of_words ((hkeep 0 (by decide)).trans hw0)
        ((hkeep 1 (by decide)).trans (hw1.trans (Nat.mod_eq_of_lt h)))
          ((hkeep 3 (by decide)).trans hw3)

/-- A map call that succeeds writes what the SMMU reads back, exactly if the page table is
below 2 ^ 48. -/
theorem valSmmuMap_decodes_iff {attr : MasterAttributes}
    (hcall : valSmmuMap smmu d attr pgt al = (0, d'))
    (hrep : (d'.master (takeMaster d attr).1).stage = .s1 →
      Representable smmu d' (takeMaster d attr).1) :
    Decodes smmu d' (takeMaster d attr).1 pgt ↔ pgt.pgtBase < 2 ^ 48 := by
  obtain ⟨-, heq⟩ := @valSmmuMap_eq_mapStream smmu d pgt attr al (by rw [hcall])
  rw [heq, mapStream] at hcall
  generalize (takeMaster d attr).1 = k at *
  split at hcall
  · cases hcall
  · dsimp only at hcall
    split at hcall
    · rename_i hstage
      cases hcall
      exact decodes_stage2 hstage
    · split at hcall
      · cases hcall
      · rename_i hstage _ d2 hwrite
        cases hcall
        exact decodes_stage1 ((stage_prepareStage1 smmu _ k al.cdtab).trans hstage) hwrite rfl hrep

end

/-- A stage 1 map, with a descriptor behind the stream table. -/
theorem valSmmuMap_decodes_linear : Decodes linearSmmu linearStage1.dev 0 samplePgt := by
  refine (@valSmmuMap_decodes_iff linearSmmu linearStart.dev linearStage1.dev samplePgt
    ⟨0, 0x2000, 0⟩ ⟨1, 0, 0, false⟩ (Prod.ext (by decide) rfl) (fun _ => ?_)).mpr (by decide)
  exact ⟨by decide, by decide, by decide, by decide⟩

/-- Of a page table at 2 ^ 48 the entry has the base 0. -/
theorem valSmmuMap_base_lost :
    (valSmmuMap linearSmmu linearStart.dev ⟨0, 0, 0, true⟩ ⟨2 ^ 48, 0, samplePgt.tcr⟩
      ⟨0, 0, 0⟩).1 = 0 ∧
      ¬ Decodes linearSmmu (valSmmuMap linearSmmu linearStart.dev ⟨0, 0, 0, true⟩
        ⟨2 ^ 48, 0, samplePgt.tcr⟩ ⟨0, 0, 0⟩).2 0 ⟨2 ^ 48, 0, samplePgt.tcr⟩ := by
  refine ⟨by decide, fun h => ?_⟩
  exact absurd (Stage2Entry.ttb h) (by decide)

end ServerSoc.Smmu
