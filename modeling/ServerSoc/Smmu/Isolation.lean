/-
Isolation of the SMMUs of a system.

As long as every call names the SMMU of the master it finds, a call keeps the tables and entries of
all other SMMUs, and an unmap call on a linear stream table leaves no entry for the stream
(`isolated_of_run`).  `System.only` is the part of one SMMU, with its own invariant.
-/
import ServerSoc.Smmu.System

namespace ServerSoc.Smmu

open Base Function Option Nat

/-! ## Parts of a system -/

variable {smmu : SmmuDev} {d : State} {s : System} {i k a : Nat} {t : Tag}

section

variable {d' : State} {o : Owner}

theorem own_only : (s.only i).heap.own a = some o ↔
    ∃ t, s.heap.own a = some t ∧ s.belongs i t = true ∧ t.seenBy i = o := by
  simp [System.only, and_assoc]

theorem own_view : (s.view i k).heap.own a = some o ↔
    ∃ t, s.heap.own a = some t ∧ t.seenBy i = o := by
  simp [System.view]

theorem own_view_of (ht : s.heap.own a = some t) (i k : Nat) :
    (s.view i k).heap.own a = some (t.seenBy i) :=
  own_view.mpr ⟨t, ht, rfl⟩

theorem System.uses_iff : s.uses i k = true ↔ (s.master k).smmu = true ∧ s.owner k = i := by
  rw [System.uses, Bool.and_eq_true, decide_eq_true_eq]

theorem System.belongs_mono {s' : System} (h : ∀ n, s.uses i n = true → s'.uses i n = true)
    (ht : s.belongs i t = true) : s'.belongs i t = true := by
  cases t with
  | strtab n => exact ht
  | level2 n g => exact ht
  | cdtab n => exact h n ht
  | leaf n q => exact h n ht

theorem Tag.seenBy_tag (i : Nat) (o : Owner) : (o.tag i).seenBy i = o := by
  cases o with
  | strtab => exact if_pos rfl
  | level2 g => exact if_pos rfl
  | cdtab k => rfl
  | leaf k n => rfl

theorem Tag.eq_of_seenBy (h : t.seenBy i = o) (hne : o ≠ .level2 (2 ^ 32)) : t = o.tag i := by
  subst h
  cases t
  case cdtab => rfl
  case leaf => rfl
  all_goals
    rw [Tag.seenBy] at hne ⊢
    split_ifs at hne with hj
    · rw [if_pos hj, hj]
      rfl
    · exact absurd rfl hne

theorem group_lt_pow (hs : smmu.Ok) {g : Nat} (hg : g < 2 ^ (smmu.sidBits - 8)) : g < 2 ^ 24 := by
  have hbits : smmu.sidBits - 8 ≤ 24 := by
    cases h2 : smmu.stLevel2lvl with
    | false =>
      have hle := hs.linear h2
      omega
    | true =>
      have hle := (hs.twoLevel h2).2
      omega
  exact hg.trans_le (Nat.pow_le_pow_right (by decide) hbits)

def Used (smmu : SmmuDev) (d : State) : Owner → Prop
  | .strtab => True
  | .level2 g => g < 2 ^ (smmu.sidBits - 8)
  | .cdtab k => k < d.count ∧ (d.master k).cdtab64 ≠ none
  | .leaf k _ => k < d.count ∧ (d.master k).cdtab64 ≠ none

theorem Core.restrict (hc : Core smmu d) (hmem : d'.heap.mem = d.heap.mem)
    (hl : d'.level1 = d.level1) (hcount : d'.count = d.count)
    (hm : ∀ k < d.count, d'.master k = d.master k)
    (hown : ∀ a o, d.heap.own a = some o → Used smmu d o → d'.heap.own a = some o) :
    Core smmu d' := by
  refine hc.transfer hl (fun a o ho h => hown a o ho ?_) (fun _ _ _ => by rw [hmem])
    (fun k hk => ?_)
  · rcases h with rfl | ⟨g, hg, rfl⟩
    · trivial
    · exact hg
  · rw [hcount] at hk
    rw [hm k hk]
    refine ⟨(hc.masters k hk).idle, fun p hp => ?_⟩
    refine ((hc.masters k hk).table p hp).transfer (fun a o ho h => hown a o ho ?_)
      (fun _ _ _ => by rw [hmem])
    rcases h with rfl | ⟨i, rfl⟩ <;> exact ⟨hk, by simp [hp]⟩

theorem core_view (hc : Core smmu (s.only i)) (hk : s.uses i k = true) :
    Core smmu (s.view i k) := by
  have hf : (s.only i).heap.Frame (fun _ => False) (s.view i k).heap := by
    refine ⟨fun a o ho => ?_, fun _ _ _ => rfl⟩
    obtain ⟨t, ht, -, hseen⟩ := own_only.mp ho
    exact own_view.mpr ⟨t, ht, hseen⟩
  apply hc.of_frame hf rfl fun _ _ _ h => h
  intro j hj
  have hm : (s.view i k).master j = (s.only i).master j := by
    simp only [System.view, System.only]
    by_cases hjk : j = k
    · rw [if_pos (.inl hjk), hjk, if_pos hk]
    · simp [hjk]
  rw [hm]
  exact (hc.masters j hj).frame hf fun _ _ h => h

end

/-! ## Putting a part back -/

variable {j : Nat}

section

variable {n : Nat}

theorem own_put_eq (s : System) (i k : Nat) (d : State) (a : Nat) :
    (s.put i k d).heap.own a = (d.heap.own a).bind fun o =>
      if (s.view i k).heap.own a = some o then s.heap.own a else some (o.tag i) := by
  simp only [System.put]
  cases d.heap.own a with
  | none => rfl
  | some o => rfl

theorem own_put_of_seen (ht : s.heap.own a = some t) (hd : d.heap.own a = some (t.seenBy i)) :
    (s.put i k d).heap.own a = some t := by
  have hview := own_view_of ht i k
  rw [own_put_eq, hd, bind_some, if_pos hview, ht]

theorem own_put {o : Owner} (hd : d.heap.own a = some o) (hne : o ≠ .level2 (2 ^ 32)) :
    (s.put i k d).heap.own a = some (o.tag i) := by
  by_cases hview : (s.view i k).heap.own a = some o
  · obtain ⟨t, ht, hseen⟩ := own_view.mp hview
    rw [← t.eq_of_seenBy hseen hne]
    apply own_put_of_seen ht
    rw [hd, hseen]
  · rw [own_put_eq, hd, bind_some, if_neg hview]

theorem master_put (s : System) (i k : Nat) (d : State) : (s.put i k d).master k = d.master k :=
  update_self _ _ _

theorem master_put_of_ne (hn : n ≠ k) : (s.put i k d).master n = s.master n := update_of_ne hn _ _

theorem uses_put_of_ne (hn : n ≠ k) (j : Nat) : (s.put i k d).uses j n = s.uses j n := by
  rw [System.uses, master_put_of_ne hn]
  rfl

theorem level1_only_put (s : System) (i k : Nat) (d : State) :
    ((s.put i k d).only i).level1 = d.level1 := by
  exact update_self _ _ _

theorem streamOk_put {t : Nat} (ht : StreamOk smmu d t none) :
    StreamOk smmu ((s.put i k d).only i) t none := by
  intro a ha
  rw [level1_only_put] at ha
  exact ht a ha

theorem core_put (hs : smmu.Ok) (hc : Core smmu d) (hcount : d.count = s.count)
    (hothers : ∀ n, n ≠ k → d.master n = (s.view i k).master n)
    (hused : (d.master k).smmu = true → s.owner k = i)
    (hidle : (d.master k).smmu = false → d.master k = Master.zero) :
    Core smmu ((s.put i k d).only i) := by
  have hm : ∀ n, ((s.put i k d).only i).master n = d.master n := by
    intro n
    show (if (s.put i k d).uses i n = true then (s.put i k d).master n else Master.zero) =
        d.master n
    by_cases hn : n = k
    · rw [hn, System.uses, master_put]
      cases hu : (d.master k).smmu with
      | true =>
        have howner : (s.put i k d).owner k = i := hused hu
        simp [howner]
      | false => simp [hidle hu]
    · rw [uses_put_of_ne hn, hothers n hn]
      simp [master_put_of_ne hn, System.view, hn]
  have htab : ∀ n, (d.master n).cdtab64 ≠ none → (s.put i k d).uses i n = true := by
    intro n hne
    by_contra hnot
    rw [← hm n] at hne
    simp only [System.only, if_neg hnot] at hne
    exact hne rfl
  refine hc.restrict rfl (level1_only_put s i k d) hcount.symm (fun n _ => hm n) fun a o ho hu =>
    own_only.mpr ?_
  refine ⟨o.tag i, own_put ho ?_, ?_, Tag.seenBy_tag i o⟩
  · intro heq
    rw [heq] at hu
    exact absurd (group_lt_pow hs hu) (by decide)
  · cases o with
    | strtab => exact decide_eq_true rfl
    | level2 g => exact decide_eq_true rfl
    | cdtab n => exact htab n hu.2
    | leaf n q => exact htab n hu.2

structure Spares (s : System) (i j : Nat) (d : State) : Prop where
  own : ∀ a t, s.heap.own a = some t → s.belongs j t = true → d.heap.own a = some (t.seenBy i)
  mem : ∀ a t, s.heap.own a = some t → s.belongs j t = true → d.heap.mem a = s.heap.mem a

theorem belongs_put (hk : s.uses j k = false) (ht : s.belongs j t = true) :
    (s.put i k d).belongs j t = true := by
  refine System.belongs_mono (fun n hn => ?_) ht
  by_cases hnk : n = k
  · rw [hnk, hk] at hn
    cases hn
  · rw [uses_put_of_ne hnk]
    exact hn

theorem keeps_put (hs : smmu.Ok) (hc : Core smmu (s.only j)) (hji : j ≠ i) (hk : s.uses j k = false)
    (hnew : ∀ n, s.count ≤ n → s.master n = Master.zero) (hspare : Spares s i j d)
    (hused : (d.master k).smmu = true → s.owner k = i) :
    Keeps smmu (fun _ => True) (s.only j) ((s.put i k d).only j) := by
  have hf : (s.only j).heap.Frame (fun _ => False) ((s.put i k d).only j).heap := by
    refine ⟨fun a o ho => ?_, fun a ho _ => ?_⟩
    · obtain ⟨t, ht, hb, hseen⟩ := own_only.mp ho
      exact own_only.mpr ⟨t, own_put_of_seen ht (hspare.own a t ht hb), belongs_put hk hb, hseen⟩
    · obtain ⟨o, ho⟩ := ne_none_iff_exists'.mp ho
      obtain ⟨t, ht, hb, -⟩ := own_only.mp ho
      exact hspare.mem a t ht hb
  have hm : ∀ n, ((s.put i k d).only j).master n = (s.only j).master n := by
    intro n
    show (if (s.put i k d).uses j n = true then (s.put i k d).master n else Master.zero) =
      if s.uses j n = true then s.master n else Master.zero
    by_cases hn : n = k
    · have hnot : (s.put i k d).uses j k = false := by
        rw [System.uses, master_put]
        cases hu : (d.master k).smmu with
        | false => rfl
        | true =>
          have howner : (s.put i k d).owner k = i := hused hu
          rw [howner]
          exact decide_eq_false fun heq => hji heq.symm
      rw [hn, hnot, hk]
      rfl
    · rw [uses_put_of_ne hn, master_put_of_ne hn]
  have hl : ((s.put i k d).only j).level1 = (s.only j).level1 := by
    show update s.level1 i d.level1 j = s.level1 j
    rw [update_of_ne hji]
  apply Keeps.of_same hs hc hf hl le_rfl fun n _ => hm n
  intro n _ hn
  rw [hm]
  simp [System.only, hnew n hn]

end

/-! ## The invariant -/

structure SysInv (dev : Nat → SmmuDev) (num : Nat) (s : System) : Prop where
  core : ∀ i < num, Core (dev i) (s.only i)
  idle : ∀ k, (s.master k).smmu = false → s.master k = Master.zero
  new : ∀ k, s.count ≤ k → s.master k = Master.zero
  owner : ∀ k, (s.master k).smmu = true → s.owner k < num
  unserved : ∀ i < num, ∀ sid < 2 ^ (dev i).sidBits, (∀ k, ¬ s.Serves i sid k) →
    StreamOk (dev i) (s.only i) sid none

/-- What the probes and the allocations of the stream tables have to give.  A level 1 table is
put where no word has a valid span. -/
structure Placed (dev : Nat → SmmuDev) (mem : Nat → Nat) (num : Nat) : Prop where
  ok : ∀ i < num, (dev i).Ok
  free : ∀ i < num, (System.init dev mem i).heap.Free (dev i).strtabPtr (2 * (dev i).strtabSize)
  clear : ∀ i < num, ClearLevel1 (dev i) (System.init dev mem i).heap.mem

variable {dev : Nat → SmmuDev} {num : Nat}

section

variable {mem : Nat → Nat}

theorem init_masters (dev : Nat → SmmuDev) (mem : Nat → Nat) (n : Nat) :
    (System.init dev mem n).count = 0 ∧ ∀ k, (System.init dev mem n).master k = Master.zero := by
  induction n with
  | zero => exact ⟨rfl, fun _ => rfl⟩
  | succ n ih =>
    refine ⟨ih.1, fun k => ?_⟩
    show update (System.init dev mem n).master 0 Master.zero k = Master.zero
    by_cases hk : k = 0
    · rw [hk, update_self]
    · rw [update_of_ne hk, ih.2]

theorem inv_init (h : Placed dev mem num) {n : Nat} (hn : n ≤ num) :
    SysInv dev n (System.init dev mem n) := by
  induction n with
  | zero =>
    exact ⟨fun i hi => absurd hi (Nat.not_lt_zero i), fun _ _ => rfl, fun _ _ => rfl,
      fun _ h => (Bool.false_ne_true h).elim, fun i hi => absurd hi (Nat.not_lt_zero i)⟩
  | succ n ih =>
    have ih := ih (le_of_succ_le hn)
    have hs := h.ok n hn
    have hfree := h.free n hn
    have hclear := h.clear n hn
    obtain ⟨hcount, hm⟩ := init_masters dev mem n
    have hzero := (init_masters dev mem (n + 1)).2
    rw [System.init] at hzero ⊢
    generalize System.init dev mem n = s at *
    have huses : ∀ j k, s.uses j k = false := by
      intro j k
      rw [System.uses, hm k]
      rfl
    have hfree' : (s.view n 0).heap.Free (dev n).strtabPtr (2 * (dev n).strtabSize) := by
      intro a hlo hhi
      show (s.heap.own a).map (Tag.seenBy n) = none
      rw [hfree a hlo hhi]
      rfl
    have hf := frame_strtabInit hs hfree'
    have hspare : ∀ j, Spares s n j (smmuStrtabInit (dev n) (s.view n 0).heap) := by
      refine fun j => ⟨fun a t ht _ => hf.own a _ (own_view_of ht _ _), fun a t ht _ => ?_⟩
      have hown := own_view_of ht n 0
      exact hf.mem a (by simp [hown]) fun h => h
    have hkeeps := fun j (hj : j < n) => keeps_put (h.ok j (hj.trans hn)) (ih.core j hj)
      (Nat.ne_of_lt hj) (huses j 0) ih.new (hspare j) fun hu => by cases hu
    have hcore : Core (dev n) ((s.put n 0 (smmuStrtabInit (dev n) (s.view n 0).heap)).only n) := by
      apply core_put hs (core_strtabInit hs hclear) hcount.symm
      · intro k hk
        simp only [System.view, huses, hk]
        rfl
      · intro hu
        cases hu
      · exact fun _ => rfl
    refine ⟨fun i hi => ?_, fun k _ => hzero k, fun k _ => hzero k, fun k hk => ?_,
      fun i hi sid hsid _ => ?_⟩
    · rcases Nat.lt_or_eq_of_le (le_of_lt_succ hi) with hlt | rfl
      · exact (hkeeps i hlt).core
      · exact hcore
    · rw [hzero k] at hk
      cases hk
    · rcases Nat.lt_or_eq_of_le (le_of_lt_succ hi) with hlt | rfl
      · apply (hkeeps i hlt).streams sid hsid trivial
        apply ih.unserved i hlt sid hsid
        intro k hk
        cases (huses i k).symm.trans hk.uses
      · exact streamOk_put (streamOk_strtabInit _ _ hsid)

end

variable {sid : Nat}

section

variable {o c : Nat} {s' : System} {m : Master}

def System.withMaster (s : System) (c k o : Nat) (m : Master) : System :=
  { s with count := c, master := update s.master k m, owner := update s.owner k o }

structure Replaces (s : System) (k o : Nat) (m : Master) : Prop where
  used : m.smmu = true
  owner : (s.master k).smmu = true → o = s.owner k
  sid : (s.master k).smmu = true → m.sid = (s.master k).sid
  tables : (s.master k).smmu = true → SameTables (s.master k) m
  width : (s.master k).smmu = true → m.ssidBits = (s.master k).ssidBits
  fresh : (s.master k).smmu = false → m.cdtab64 = none

theorem uses_withMaster (h : Replaces s k o m) {n : Nat} (hu : s.uses j n = true) :
    (s.withMaster c k o m).uses j n = true := by
  rw [System.uses_iff] at hu ⊢
  simp only [System.withMaster]
  by_cases hn : n = k
  · rw [hn] at hu ⊢
    rw [update_self, update_self]
    exact ⟨h.used, (h.owner hu.1).trans hu.2⟩
  · rw [update_of_ne hn, update_of_ne hn]
    exact hu

theorem belongs_withMaster (h : Replaces s k o m) (ht : s.belongs j t = true) :
    (s.withMaster c k o m).belongs j t = true :=
  System.belongs_mono (fun _ hn => uses_withMaster h hn) ht

theorem SysInv.withMaster (hinv : SysInv dev num s) (h : Replaces s k o m) (hk : k < c)
    (hc : s.count ≤ c) (ho : o < num) : SysInv dev num (s.withMaster c k o m) := by
  have hlt : (s.master k).smmu = true → k < s.count := by
    intro hu
    by_contra hge
    rw [hinv.new k (not_lt.mp hge)] at hu
    cases hu
  refine ⟨fun i hi => ?_, fun n hn => ?_, fun n hn => ?_, fun n hn => ?_,
    fun i hi sid hsid hnone => ?_⟩
  · have hcore := hinv.core i hi
    have hf : (s.only i).heap.Frame (fun _ => False) ((s.withMaster c k o m).only i).heap := by
      refine ⟨fun a o ho => ?_, fun _ _ _ => rfl⟩
      obtain ⟨t, ht, hb, hseen⟩ := own_only.mp ho
      exact own_only.mpr ⟨t, ht, belongs_withMaster h hb, hseen⟩
    apply hcore.of_frame hf rfl fun _ _ _ h => h
    intro n hn
    by_cases hu : (s.withMaster c k o m).uses i n = true
    · have hmn : ((s.withMaster c k o m).only i).master n = (s.withMaster c k o m).master n :=
        if_pos hu
      rw [hmn]
      by_cases hnk : n = k
      · rw [System.uses_iff] at hu
        simp only [System.withMaster, hnk, update_self] at hu ⊢
        refine ⟨fun hidle => ?_, fun p hp => ?_⟩
        · cases h.used.symm.trans hidle
        · have hused : (s.master k).smmu = true := by
            by_contra hidle
            rw [h.fresh (Bool.of_not_eq_true hidle)] at hp
            cases hp
          have hold : s.uses i k = true :=
            System.uses_iff.mpr ⟨hused, (h.owner hused).symm.trans hu.2⟩
          have hmk : (s.only i).master k = s.master k := if_pos hold
          have htab := h.tables hused
          have ht := (hcore.masters k (hlt hused)).table p (by rw [hmk, ← htab.cdtab64, hp])
          rw [hmk] at ht
          exact (ht.frame hf (fun _ _ _ h => h)).congr htab.s1cdmax (h.width hused) htab.s1fmt
            htab.l1Desc
      · have hsame : (s.withMaster c k o m).master n = s.master n := update_of_ne hnk _ _
        have hold : s.uses i n = true := by
          simp only [System.uses, System.withMaster, update_of_ne hnk] at hu
          exact hu
        have hmn' : (s.only i).master n = s.master n := if_pos hold
        rw [hsame, ← hmn']
        by_cases hlt' : n < s.count
        · exact (hcore.masters n hlt').frame hf fun _ _ h => h
        · rw [hmn', hinv.new n (not_lt.mp hlt')]
          exact .zero
    · have hzero : ((s.withMaster c k o m).only i).master n = Master.zero := if_neg hu
      rw [hzero]
      exact .zero
  · by_cases hnk : n = k
    · simp only [System.withMaster, hnk, update_self] at hn
      cases h.used.symm.trans hn
    · simp only [System.withMaster, update_of_ne hnk] at hn ⊢
      exact hinv.idle n hn
  · have hnk : n ≠ k := (hk.trans_le hn).ne'
    simp only [System.withMaster, update_of_ne hnk]
    exact hinv.new n (hc.trans hn)
  · by_cases hnk : n = k
    · simp only [System.withMaster, hnk, update_self]
      exact ho
    · simp only [System.withMaster, update_of_ne hnk] at hn ⊢
      exact hinv.owner n hn
  · apply hinv.unserved i hi sid hsid
    intro n hn
    apply hnone n
    refine ⟨hn.lt.trans_le hc, uses_withMaster h hn.uses, ?_⟩
    by_cases hnk : n = k
    · subst hnk
      simp only [System.withMaster, update_self]
      rw [h.sid (System.uses_iff.mp hn.uses).1, hn.sid]
    · simp only [System.withMaster, update_of_ne hnk]
      exact hn.sid

structure Acquired (dev : Nat → SmmuDev) (num : Nat) (s : System) (i sid k : Nat) (s' : System) :
    Prop where
  inv : SysInv dev num s'
  heap : s'.heap = s.heap
  belongs : ∀ j t, s.belongs j t = true → s'.belongs j t = true
  serves : s'.Serves i sid k

theorem Acquired.withMaster (hinv : SysInv dev num s) (h : Replaces s k i m) (hk : k < c)
    (hc : s.count ≤ c) (hi : i < num) (hsid : m.sid = sid) :
    Acquired dev num s i sid k (s.withMaster c k i m) := by
  refine ⟨hinv.withMaster h hk hc hi, rfl, fun j t ht => belongs_withMaster h ht, hk, ?_, ?_⟩
  · simp [System.uses, System.withMaster, h.used]
  · simp [System.withMaster, hsid]

theorem Replaces.of_idle (hu : (s.master k).smmu = false) (hused : m.smmu = true)
    (htab : m.cdtab64 = none) : Replaces s k o m := by
  refine ⟨hused, fun h => ?_, fun h => ?_, fun h => ?_, fun h => ?_, fun _ => htab⟩
  all_goals cases hu.symm.trans h

theorem acquired_taken (hinv : SysInv dev num s) (hi : i < num) {attr : MasterAttributes}
    (hmine : s.Mine i attr.streamid) :
    Acquired dev num s i attr.streamid (s.taken i attr).1 (s.taken i attr).2 := by
  rw [System.taken, System.masterAt]
  cases hfind : findMaster s.master attr.streamid s.count with
  | some k =>
    obtain ⟨hk, hsid⟩ := findMaster_some hfind
    simp only [System.take]
    cases hu : (s.master k).smmu with
    | true =>
      exact ⟨hinv, rfl, fun _ _ h => h, hk, System.uses_iff.mpr ⟨hu, hmine k hfind hu⟩, hsid⟩
    | false =>
      have hnone : (s.master k).cdtab64 = none := by
        rw [hinv.idle k hu]
        rfl
      exact Acquired.withMaster hinv (.of_idle hu rfl hnone) hk le_rfl hi rfl
  | none =>
    have hu : (s.master s.count).smmu = false := by
      rw [hinv.new s.count le_rfl]
      rfl
    simp only [System.take, update_self, update_idem]
    exact Acquired.withMaster hinv (.of_idle hu rfl rfl) (lt_succ_self _) (le_succ _) hi rfl

theorem acquired_setStage (hinv : SysInv dev num s) (hi : i < num) (hserves : s.Serves i sid k)
    (attr : MasterAttributes) : Acquired dev num s i sid k (s.setStage k attr) := by
  have huses := System.uses_iff.mp hserves.uses
  have hrep : Replaces s k i { s.master k with
      stage := if attr.stage2 then .s2 else .s1
      ssid := if attr.stage2 then (s.master k).ssid else attr.substreamid } :=
    ⟨huses.1, fun _ => huses.2.symm, fun _ => rfl, fun _ => ⟨rfl, rfl, rfl, rfl⟩, fun _ => rfl,
      fun h => by cases huses.1.symm.trans h⟩
  have hacq := Acquired.withMaster hinv hrep hserves.lt le_rfl hi hserves.sid
  rw [System.withMaster, ← huses.2, update_eq_self, huses.2] at hacq
  exact hacq

theorem Acquired.trans {s'' : System} (h1 : Acquired dev num s i sid k s')
    (h2 : Acquired dev num s' i sid k s'') : Acquired dev num s i sid k s'' :=
  ⟨h2.inv, h2.heap.trans h1.heap, fun j t ht => h2.belongs j t (h1.belongs j t ht), h2.serves⟩

theorem Untouched.refl (dev : Nat → SmmuDev) (j : Nat) (s : System) : Untouched dev j s s :=
  ⟨fun _ _ ht _ => ⟨ht, rfl⟩, fun _ _ => rfl⟩

theorem Acquired.untouched (h : Acquired dev num s i sid k s') : Untouched dev j s s' := by
  refine ⟨fun a t ht _ => ?_, fun t _ => ?_⟩
  · rw [h.heap]
    exact ⟨ht, rfl⟩
  · rw [h.heap]

end

/-! ## Calls -/

section

variable {attr : MasterAttributes}

structure Worked (smmu : SmmuDev) (s : System) (i k sid : Nat) (d : State) : Prop where
  core : Core smmu d
  count : d.count = s.count
  others : ∀ n, n ≠ k → d.master n = (s.view i k).master n
  stream : (d.master k).smmu = true → (d.master k).sid = sid
  idle : (d.master k).smmu = false → d.master k = Master.zero
  spares : ∀ j, j ≠ i → Spares s i j d
  streams : ∀ t < 2 ^ smmu.sidBits, t ≠ sid → StreamOk smmu (s.view i k) t none →
    StreamOk smmu d t none
  cleared : (d.master k).smmu = false → sid < 2 ^ smmu.sidBits → StreamOk smmu d sid none

theorem System.Serves.owner (h : s.Serves i sid k) : s.owner k = i := (System.uses_iff.mp h.uses).2

theorem System.Serves.not_uses (h : s.Serves i sid k) (hji : j ≠ i) : s.uses j k = false := by
  rw [System.uses, h.owner, decide_eq_false (fun heq => hji heq.symm), Bool.and_false]

theorem serves_put {t n : Nat} (hn : n ≠ k) (h : s.Serves j t n) : (s.put i k d).Serves j t n := by
  refine ⟨h.lt, ?_, ?_⟩
  · rw [uses_put_of_ne hn]
    exact h.uses
  · rw [master_put_of_ne hn]
    exact h.sid

section

variable (hs : ∀ i < num, (dev i).Ok) (hinv : SysInv dev num s) (hserves : s.Serves i sid k)
  (hw : Worked (dev i) s i k sid d)
include hs hinv hserves hw

theorem Worked.keeps (hj : j < num) (hji : j ≠ i) :
    Keeps (dev j) (fun _ => True) (s.only j) ((s.put i k d).only j) :=
  keeps_put (hs j hj) (hinv.core j hj) hji (hserves.not_uses hji) hinv.new (hw.spares j hji)
    (fun _ => hserves.owner)

theorem Worked.untouched (hj : j < num) (hji : j ≠ i) : Untouched dev j s (s.put i k d) :=
  ⟨fun a t ht hb => ⟨own_put_of_seen ht ((hw.spares j hji).own a t ht hb),
    (hw.spares j hji).mem a t ht hb⟩,
    fun t ht => (hw.keeps hs hinv hserves hj hji).entries t ht trivial⟩

theorem Worked.inv (hi : i < num) : SysInv dev num (s.put i k d) := by
  refine ⟨fun j hj => ?_, fun n hn => ?_, fun n hn => ?_, fun n hn => ?_,
    fun j hj t ht hnone => ?_⟩
  · by_cases hji : j = i
    · rw [hji]
      exact core_put (hs i hi) hw.core hw.count hw.others (fun _ => hserves.owner) hw.idle
    · exact (hw.keeps hs hinv hserves hj hji).core
  · by_cases hnk : n = k
    · rw [hnk, master_put] at hn ⊢
      exact hw.idle hn
    · rw [master_put_of_ne hnk] at hn ⊢
      exact hinv.idle n hn
  · have hnk : n ≠ k := (hserves.lt.trans_le hn).ne'
    rw [master_put_of_ne hnk]
    exact hinv.new n hn
  · by_cases hnk : n = k
    · rw [hnk]
      exact hserves.owner.symm ▸ hi
    · rw [master_put_of_ne hnk] at hn
      exact hinv.owner n hn
  · by_cases hji : j = i
    · rw [hji] at ht hnone ⊢
      apply streamOk_put
      by_cases hts : t = sid
      · rw [hts] at ht hnone ⊢
        apply hw.cleared _ ht
        -- a master still in use would serve the stream
        by_contra hused
        have hused := Bool.of_not_eq_false hused
        apply hnone k
        refine ⟨hserves.lt, System.uses_iff.mpr ⟨?_, hserves.owner⟩, ?_⟩
        · rw [master_put]
          exact hused
        · rw [master_put]
          exact hw.stream hused
      · apply hw.streams t ht hts
        apply hinv.unserved i hi t ht
        intro n hn
        have hnk : n ≠ k := by
          intro heq
          rw [heq] at hn
          exact hts (hn.sid.symm.trans hserves.sid)
        exact hnone n (serves_put hnk hn)
    · apply (hw.keeps hs hinv hserves hj hji).streams t ht trivial
      apply hinv.unserved j hj t ht
      intro n hn
      have hnk : n ≠ k := by
        intro heq
        rw [heq] at hn
        cases (hserves.not_uses hji).symm.trans hn.uses
      exact hnone n (serves_put hnk hn)

end

theorem not_belongs_of_entry (hs : smmu.Ok) {g : Nat}
    (hg : smmu.stLevel2lvl = true → g < 2 ^ (smmu.sidBits - 8))
    (h : t.seenBy i = if smmu.stLevel2lvl then .level2 g else .strtab) (hji : j ≠ i) :
    s.belongs j t = false := by
  cases h2 : smmu.stLevel2lvl with
  | false =>
    rw [h2] at h
    rw [t.eq_of_seenBy h (by simp)]
    exact decide_eq_false fun heq => hji heq.symm
  | true =>
    rw [h2, if_pos rfl] at h
    have hlt := group_lt_pow hs (hg h2)
    rw [t.eq_of_seenBy h (by rw [Ne, Owner.level2.injEq]; omega)]
    exact decide_eq_false fun heq => hji heq.symm

theorem not_belongs_of_cdOwned (hserves : s.Serves i sid k) (ht : s.heap.own a = some t)
    (h : CdOwned (s.view i k).heap k a) (hji : j ≠ i) : s.belongs j t = false := by
  have hview := own_view_of ht i k
  rw [CdOwned, hview] at h
  obtain h | ⟨n, h⟩ := h
  all_goals
    rw [t.eq_of_seenBy (some_inj.mp h) (by simp)]
    exact hserves.not_uses hji

theorem spares_of_effect (hs : smmu.Ok) (hc : Core smmu (s.view i k)) (hserves : s.Serves i sid k)
    (hsid : sid < 2 ^ smmu.sidBits) (heff : Effect smmu (s.view i k) k d) (hji : j ≠ i) :
    Spares s i j d := by
  have hm : (s.view i k).master k = s.master k := if_pos (.inl rfl)
  have hframe := heff.frame
  rw [hm, hserves.sid] at hframe
  refine ⟨fun a t ht _ => hframe.own a _ (own_view_of ht _ _), fun a t ht hb => ?_⟩
  have hview := own_view_of ht i k
  apply hframe.mem a (by simp [hview])
  rintro (⟨ste, hste, n, hn, rfl⟩ | hcd | ⟨h2, -, rfl⟩)
  · rw [own_entry hs hc hsid hste (by omega), some_inj] at hview
    rw [not_belongs_of_entry hs (fun h2 => group_lt hs h2 hsid) hview.symm hji] at hb
    cases hb
  · rw [not_belongs_of_cdOwned hserves ht hcd hji] at hb
    cases hb
  · rw [own_level1 hc.strtab h2 (group_lt hs h2 hsid), some_inj] at hview
    rw [t.eq_of_seenBy hview.symm (by simp)] at hb
    exact hji (of_decide_eq_true hb).symm

theorem worked_mapStream (hs : smmu.Ok) (hc : Core smmu (s.only i))
    (hserves : s.Serves i attr.streamid k) {al : Allocations}
    (hin : attr.streamid < 2 ^ smmu.sidBits → Contained smmu (s.view i k) k al)
    (hal : attr.streamid < 2 ^ smmu.sidBits → AllocOk smmu (s.view i k) k al)
    (pgt : PgtDescriptor) :
    Worked smmu s i k attr.streamid (mapStream smmu (s.view i k) k attr pgt al).2 := by
  have hcore := core_view hc hserves.uses
  have hm : (s.view i k).master k = s.master k := if_pos (.inl rfl)
  have huses := System.uses_iff.mp hserves.uses
  by_cases hsid : attr.streamid < 2 ^ smmu.sidBits
  · have heff := (@mapResult_mapStream smmu (s.view i k) attr pgt al k hs hcore hserves.lt
      (by rw [hm]; exact huses.1) (by rw [hm]; exact hserves.sid) hsid (hin hsid) (hal hsid)).effect
    generalize (mapStream smmu (s.view i k) k attr pgt al).2 = d at *
    have hused : (d.master k).smmu = true := by
      rw [heff.used, hm]
      exact huses.1
    refine ⟨heff.core, heff.count, heff.others, fun _ => ?_, fun h => ?_, fun j hji => ?_,
      fun t ht hne => ?_, fun h => ?_⟩
    · rw [heff.sid, hm, hserves.sid]
    · cases hused.symm.trans h
    · exact spares_of_effect hs hcore hserves hsid heff hji
    · apply heff.keeps.streams t ht
      rw [hm, hserves.sid]
      exact hne
    · cases hused.symm.trans h
  · rw [mapStream, one_shiftLeft, if_pos (not_lt.mp hsid)]
    refine ⟨hcore, rfl, fun _ _ => rfl, fun _ => ?_, fun h => ?_, fun j _ => ?_, fun _ _ _ h => h,
      fun h => ?_⟩
    · rw [hm, hserves.sid]
    · cases huses.1.symm.trans (hm ▸ h)
    · exact ⟨fun a t ht _ => own_view_of ht _ _, fun _ _ _ _ => rfl⟩
    · cases huses.1.symm.trans (hm ▸ h)

theorem own_smmuCdtabFree {h : Heap Owner} {o : Owner} (ho : h.own a = some o)
    (hcd : ¬ CdOwned h k a) : (smmuCdtabFree h k).own a = some o := by
  rw [CdOwned, ho] at hcd
  show (h.own a).filter _ = some o
  rw [ho, filter_eq_some_iff]
  refine ⟨rfl, ?_⟩
  cases o with
  | strtab => rfl
  | level2 g => rfl
  | cdtab n =>
    have hne : n ≠ k := fun heq => hcd (.inl (by rw [heq]))
    simp [hne]
  | leaf n q =>
    have hne : n ≠ k := fun heq => hcd (.inr ⟨q, by rw [heq]⟩)
    simp [hne]

theorem worked_free (hs : smmu.Ok) (hc : Core smmu (s.only i)) (hserves : s.Serves i sid k)
    (hsid : sid < 2 ^ smmu.sidBits) (ha : steOf smmu (s.level1 i) sid = some a) :
    Worked smmu s i k sid (freeMaster ((s.view i k).writeEntry a none) k) := by
  have hcore := core_view hc hserves.uses
  have hwrite := keeps_writeSte hs hcore hsid ha none
  have hzero := freeMaster_self ((s.view i k).writeEntry a none) k
  refine ⟨core_freeMaster hwrite.core k, rfl, fun n hn => freeMaster_of_ne hn, fun h => ?_,
    fun _ => hzero, fun j hji => ?_, fun t ht hne hok => ?_, fun _ _ => ?_⟩
  · rw [hzero] at h
    cases h
  · refine ⟨fun b t ht hb => ?_, fun b t ht hb => ?_⟩
    · have hview := own_view_of ht i k
      have hnot : ¬ CdOwned (s.view i k).heap k b := by
        intro hcd
        rw [not_belongs_of_cdOwned hserves ht hcd hji] at hb
        cases hb
      have hsame : ((s.view i k).writeEntry a none).heap.own = (s.view i k).heap.own :=
        (writes_writeSte none a _).own
      apply own_smmuCdtabFree
      · rw [hsame, hview]
      · rwa [CdOwned, hsame]
    · have hview := own_view_of ht i k
      show (smmuStrtabWriteSte none a (s.view i k).heap).mem b = s.heap.mem b
      apply writeSte_outside
      intro n hn heq
      rw [heq, own_entry hs hcore hsid ha (by omega), some_inj] at hview
      rw [not_belongs_of_entry hs (fun h2 => group_lt hs h2 hsid) hview.symm hji] at hb
      cases hb
  · exact hwrite.streams t ht hne none hok
  · exact streamOk_abort (show steOf smmu (s.view i k).level1 sid = some a from ha)

structure Stepped (dev : Nat → SmmuDev) (num : Nat) (s : System) (i : Nat) (s' : System) :
    Prop where
  inv : SysInv dev num s'
  others : ∀ j < num, j ≠ i → Untouched dev j s s'

theorem Stepped.of_acquired {s' : System} (h : Acquired dev num s i sid k s') :
    Stepped dev num s i s' :=
  ⟨h.inv, fun _ _ _ => h.untouched⟩

section

variable (hs : ∀ i < num, (dev i).Ok)
include hs

theorem Stepped.of_worked {s' : System} (hi : i < num)
    (h : Acquired dev num s i sid k s') (hw : Worked (dev i) s' i k sid d) :
    Stepped dev num s i (s'.put i k d) := by
  refine ⟨hw.inv hs h.inv h.serves hi, fun j hj hji => ?_⟩
  have hput := hw.untouched hs h.inv h.serves hj hji
  refine ⟨fun a t ht hb => ?_, fun t ht => ?_⟩
  · have hword := hput.words a t (h.heap.symm ▸ ht) (h.belongs j t hb)
    rw [h.heap] at hword
    exact hword
  · rw [hput.entries t ht, h.heap]

section

variable (hinv : SysInv dev num s)
include hinv

theorem stepped_map {pgt : PgtDescriptor}
    {al : Allocations} (hok : (SysCall.map i attr pgt al).Allowed dev s) :
    Stepped dev num s i (s.map dev num i attr pgt al).2 := by
  obtain ⟨hal, hmine, hin⟩ := hok
  rw [System.map]
  by_cases hi : num ≤ i
  · rw [if_pos hi]
    exact ⟨hinv, fun _ _ _ => .refl _ _ _⟩
  · rw [if_neg hi]
    have hi' := Nat.lt_of_not_le hi
    have hacq := acquired_taken hinv hi' hmine
    have hstaged : Acquired dev num s i attr.streamid (s.taken i attr).1 (s.staged i attr) :=
      hacq.trans (acquired_setStage hacq.inv hi' hacq.serves attr)
    have hdev : (s.staged i attr).devFor dev i (s.taken i attr).1 = dev i := by
      rw [System.devFor, hstaged.serves.owner]
    simp only [hdev]
    split
    · exact .of_acquired hacq
    · split
      · exact .of_acquired hacq
      · exact .of_worked hs hi' hstaged
          (worked_mapStream (hs i hi') (hstaged.inv.core i hi') hstaged.serves hin hal pgt)

theorem SysInv.addMaster : SysInv dev num { s with count := s.count + 1 } := by
  have hkeeps : ∀ i < num, Keeps (dev i) (fun _ => True) (s.only i)
      (({ s with count := s.count + 1 } : System).only i) := by
    intro i hi
    refine Keeps.of_same (hs i hi) (hinv.core i hi) ?_ rfl (le_succ _) (fun _ _ => rfl) ?_
    · exact .refl _ _
    intro n _ hn
    have hzero := hinv.new n hn
    show (if s.uses i n = true then s.master n else Master.zero) = Master.zero
    rw [hzero, ite_self]
  refine ⟨fun i hi => (hkeeps i hi).core, hinv.idle, fun n hn => hinv.new n (le_of_succ_le hn),
    hinv.owner, fun i hi t ht hnone => (hkeeps i hi).streams t ht trivial _
      (hinv.unserved i hi t ht ?_)⟩
  intro n hn
  exact hnone n ⟨lt_succ_of_lt hn.lt, hn.uses, hn.sid⟩

theorem stepped_unmap (hok : SysUnmapOk dev s i attr.streamid) :
    Stepped dev num s i (s.unmap dev attr) ∧
      (i < num → attr.streamid < 2 ^ (dev i).sidBits →
        fetch (dev i) (s.unmap dev attr).heap.mem attr.streamid = none) := by
  have hunserved : (∀ k, ¬ s.Serves i attr.streamid k) → i < num →
      attr.streamid < 2 ^ (dev i).sidBits → fetch (dev i) s.heap.mem attr.streamid = none :=
    fun hnone hi hsid => fetch_of_streamOk_none (hs i hi) (hinv.core i hi) hsid
      (hinv.unserved i hi _ hsid hnone)
  cases hfind : findMaster s.master attr.streamid s.count with
  | none =>
    have hzero : s.master s.count = Master.zero := hinv.new _ le_rfl
    have hsame : update s.master s.count Master.zero = s.master := by
      rw [← hzero, update_eq_self]
    have heq : s.unmap dev attr = { s with count := s.count + 1 } := by
      simp only [System.unmap, System.masterAt, hfind, hsame, hzero]
      rfl
    rw [heq]
    refine ⟨⟨hinv.addMaster hs, fun _ _ _ => ⟨fun _ _ ht _ => ⟨ht, rfl⟩, fun _ _ => rfl⟩⟩,
      hunserved (fun k hk => ?_)⟩
    exact findMaster_ne_none hk.lt hk.sid hfind
  | some k =>
    obtain ⟨hk, hsid⟩ := findMaster_some hfind
    cases hu : (s.master k).smmu with
    | false =>
      have heq : s.unmap dev attr = s := by
        simp only [System.unmap, System.masterAt, hfind, hu]
        rfl
      rw [heq]
      refine ⟨⟨hinv, fun _ _ _ => .refl _ _ _⟩, hunserved (fun n hn => ?_)⟩
      have hstream : attr.streamid = 0 := by
        rw [← hsid, hinv.idle k hu]
        rfl
      obtain ⟨m, hm, hused⟩ := hok.front hstream ⟨n, hn⟩
      cases hfind.symm.trans hm
      cases hu.symm.trans hused
    | true =>
      have howner := hok.mine k hfind hu
      have hserves : s.Serves i attr.streamid k := ⟨hk, System.uses_iff.mpr ⟨hu, howner⟩, hsid⟩
      have hi : i < num := howner ▸ hinv.owner k hu
      have heq : s.unmap dev attr = if 2 ^ (dev i).sidBits ≤ attr.streamid then s else
          s.put i k (freeMaster ((s.view i k).writeEntry
            ((dev i).strtab64 + attr.streamid * strtabSteDwords % 2 ^ 32 * 8) none) k) := by
        simp [System.unmap, System.masterAt, hfind, hu, howner, one_shiftLeft]
      rw [heq]
      by_cases hrange : attr.streamid < 2 ^ (dev i).sidBits
      · have h2 := hok.linear ⟨k, hserves⟩
        have ha : steOf (dev i) (s.level1 i) attr.streamid =
            some ((dev i).strtab64 + attr.streamid * 64) := by
          rw [steOf, h2, if_neg (by decide)]
        rw [if_neg (by omega), linear_entry (hs i hi) hrange h2]
        have hw := worked_free (hs i hi) (hinv.core i hi) hserves hrange ha
        have hacq : Acquired dev num s i attr.streamid k s := ⟨hinv, rfl, fun _ _ h => h, hserves⟩
        refine ⟨.of_worked hs hi hacq hw, fun _ _ => ?_⟩
        apply fetch_of_streamOk_none (hs i hi) hw.core hrange
        apply hw.cleared _ hrange
        rw [freeMaster_self]
        rfl
      · rw [if_pos (by omega)]
        exact ⟨⟨hinv, fun _ _ _ => .refl _ _ _⟩, fun _ h => absurd h hrange⟩

theorem inv_sysStep {c : SysCall} (hok : c.Allowed dev s) : SysInv dev num (s.step dev num c) := by
  cases c with
  | map i attr pgt al => exact (stepped_map hs hinv hok).inv
  | unmap i attr => exact (stepped_unmap hs hinv hok.2).1.inv

end

end

/-- In every state reached, a call keeps all SMMUs but the one it names, and an unmap call
leaves that one without an entry. -/
theorem isolated_of_run {mem : Nat → Nat} (hplaced : Placed dev mem num)
    (hrun : Reaches (fun s c => some (s.step dev num c)) (fun s c => SysCall.Allowed dev s c)
      (System.init dev mem num) s) {c : SysCall} (hok : c.Allowed dev s) :
    Isolated dev num s c (s.step dev num c) := by
  have hinv : SysInv dev num s := by
    refine hrun.invariant (inv_init hplaced le_rfl) fun s c s' hinv hok hstep => ?_
    cases hstep
    exact inv_sysStep hplaced.ok hinv hok
  cases c with
  | map i attr pgt al =>
    refine ⟨(stepped_map hplaced.ok hinv hok).others, fun i' attr' h => ?_⟩
    cases h
  | unmap i attr =>
    obtain ⟨hstep, hnone⟩ := stepped_unmap hplaced.ok hinv hok.2
    refine ⟨hstep.others, fun i' attr' h => ?_⟩
    cases h
    exact hnone

end

/-! ## Two SMMUs -/

def twoDev (i : Nat) : SmmuDev := ⟨2, false, false, true, true, 0x1000 + 0x1000 * i⟩

theorem placed_twoDev : Placed twoDev (fun _ => 0) 2 := by
  have hcases : ∀ i < 2, i = 0 ∨ i = 1 := by omega
  refine ⟨fun i hi => ?_, fun i hi => ?_, fun i hi h => ?_⟩
  · rcases hcases i hi with rfl | rfl
    all_goals exact ⟨by decide, by decide, by decide, by decide⟩
  · rcases hcases i hi with rfl | rfl
    · exact fun _ _ _ => rfl
    · intro a hlo _
      have hsize : 0x1000 + 2 * (twoDev 0).strtabSize % 2 ^ 32 ≤ 0x2000 := by decide
      have hown : (smmuStrtabInit (twoDev 0)
          ((System.init twoDev (fun _ => 0) 0).view 0 0).heap).heap.own a = none := by
        rw [own_strtabInit, if_neg]
        · rfl
        · intro hin
          exact absurd (hin.2.trans_le hsize) (not_lt.mpr hlo)
      exact (own_put_eq ..).trans (by rw [hown]; rfl)
  · cases h

def mapFirst : SysCall := .map 0 ⟨1, 0, 0, true⟩ samplePgt ⟨0, 0, 0⟩

def firstMapped : System := (System.init twoDev (fun _ => 0) 2).step twoDev 2 mapFirst

theorem mapFirst_allowed : mapFirst.Allowed twoDev (System.init twoDev (fun _ => 0) 2) := by
  have hstage : ((((System.init twoDev (fun _ => 0) 2).staged 0 ⟨1, 0, 0, true⟩).view 0
      ((System.init twoDev (fun _ => 0) 2).taken 0 ⟨1, 0, 0, true⟩).1).master
      ((System.init twoDev (fun _ => 0) 2).taken 0 ⟨1, 0, 0, true⟩).1).stage = .s2 := by decide
  refine ⟨fun _ => ⟨nofun, fun h => ?_, fun h => ?_⟩, nofun, fun _ =>
    ⟨fun h => ?_, fun h => ?_, fun h => ?_⟩⟩
  all_goals cases hstage.symm.trans h

theorem isolated_unmap_first :
    Isolated twoDev 2 firstMapped (.unmap 0 ⟨1, 0, 0, true⟩)
        (firstMapped.step twoDev 2 (.unmap 0 ⟨1, 0, 0, true⟩)) ∧
      fetch (twoDev 0) (firstMapped.step twoDev 2 (.unmap 0 ⟨1, 0, 0, true⟩)).heap.mem 1 =
        none := by
  have hrun : Reaches (fun s c => some (s.step twoDev 2 c)) (fun s c => SysCall.Allowed twoDev s c)
      (System.init twoDev (fun _ => 0) 2) firstMapped := .tail .start mapFirst_allowed rfl
  have hok : (SysCall.unmap 0 ⟨1, 0, 0, true⟩).Allowed twoDev firstMapped := by
    refine ⟨trivial, fun k hk _ => ?_, fun _ => rfl, fun h => ?_⟩
    · cases (show findMaster firstMapped.master 1 firstMapped.count = some 0 by decide).symm.trans
        hk
      rfl
    · cases h
  have hisolated := isolated_of_run placed_twoDev hrun hok
  exact ⟨hisolated, hisolated.unmapped 0 ⟨1, 0, 0, true⟩ rfl (by decide) (by decide)⟩

/-- An unmap call that names SMMU 1 takes the entry of SMMU 0. -/
theorem unmap_other_smmu :
    Placed twoDev (fun _ => 0) 2 ∧
      Reaches (fun s c => some (s.step twoDev 2 c)) (fun s c => SysCall.Allocates twoDev s c)
        (System.init twoDev (fun _ => 0) 2) firstMapped ∧
      ¬ Isolated twoDev 2 firstMapped (.unmap 1 ⟨1, 0, 0, true⟩)
        (firstMapped.step twoDev 2 (.unmap 1 ⟨1, 0, 0, true⟩)) := by
  refine ⟨placed_twoDev, .tail .start mapFirst_allowed.1 rfl, fun h => ?_⟩
  have hsame := (h.others 0 (by decide) (by decide)).entries 1 (by decide)
  have hbefore : (fetch (twoDev 0) firstMapped.heap.mem 1).isSome = true := by decide +kernel
  have hafter : (fetch (twoDev 0)
      (firstMapped.step twoDev 2 (.unmap 1 ⟨1, 0, 0, true⟩)).heap.mem 1).isSome = false := by
    decide +kernel
  rw [hsame] at hafter
  cases hafter

end ServerSoc.Smmu
