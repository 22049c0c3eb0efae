/-
LPI mappings that are created and cleared.

Every device of an ITS is mapped to the one interrupt translation table of that ITS, and a
clear unmaps the whole device.  So the mappings of a run are kept exactly when an ITS has one
device at a time, and a device is cleared when it has no other event.
-/
import ServerSoc.Its.Commands
import ServerSoc.Its.QueueBounds
import Mathlib.Data.List.Infix

namespace ServerSoc.Its

open Memory Function List Nat Prod

/-! ## Mappings -/

structure Key where
  its : Nat
  device : Nat
  event : Nat
  deriving DecidableEq, Repr

def Call.key (c : Call) : Key := ⟨c.its, c.deviceId, c.intId⟩

def liveStep (live : List Key) (c : Call) : List Key :=
  if c.create then c.key :: live else live.filter fun k => k ≠ c.key

def live (calls : List Call) : List Key := calls.foldl liveStep []

def runCalls (p : Platform) (s : State) (calls : List Call) : State :=
  calls.foldl (fun s c => c.run p s) s

def tablesAfter (p : Platform) (s : State) (calls : List Call) : Tables :=
  execAll p (commands ((runCalls p s calls).writes.drop s.writes.length)) noTables

def rdTarget (p : Platform) (i : Nat) : Nat := getRdBaseFormat p i % 2 ^ 32 / 2 ^ 16

structure MapsKept (p : Platform) (T : Tables) (maps : List Key) : Prop where
  apart : ∀ i d d' e e', d ≠ d' → T.devices (i, d) = some e → T.devices (i, d') = some e' →
    Apart e.ittAddr (tableBytes p i e) e'.ittAddr (tableBytes p i e')
  mapped : ∀ k ∈ maps, translate p T k.its k.device k.event = some (k.event, rdTarget p k.its)

/-- A create meets no other device of the ITS, and a clear no other event of the device. -/
def Separate (maps : List Key) (c : Call) : Prop :=
  if c.create then ∀ k ∈ maps, k.its = c.its → k.device = c.deviceId
  else ∀ k ∈ maps, k.its = c.its → k.device = c.deviceId → k.event = c.intId

instance (maps : List Key) (c : Call) : Decidable (Separate maps c) :=
  inferInstanceAs (Decidable (ite _ _ _))

def ittMemory : Nat := numPages8 * size4Kb

/-- A device and an interrupt that the ITS supports.  Unless all calls are for the ITS `only`, the
entry is in the memory of the table. -/
structure Key.Valid (p : Platform) (only : Option Nat) (k : Key) : Prop where
  its : k.its < p.gicNumIts
  device : k.device < 2 ^ deviceBits p k.its
  lpi : armLpiMinid ≤ k.event ∧ k.event < 2 ^ (commonIdbits p k.its + 1)
  inside : match only with
    | none => (k.event + 1) * entryBytes p k.its ≤ ittMemory
    | some i => k.its = i

structure Placed (p : Platform) : Prop where
  table : ∀ i < p.gicNumIts, ∀ a, p.itsTables i = some a → a % 2 ^ 16 = 0 ∧ a < 2 ^ 52
  apart : ∀ i < p.gicNumIts, ∀ j < p.gicNumIts, i ≠ j → ∀ a b, p.itsTables i = some a →
    p.itsTables j = some b → Apart a ittMemory b ittMemory
  redistributor : p.gicRdBase % 2 ^ 16 = 0

/-! ## The commands of a call -/

variable {p : Platform} {only : Option Nat} {s : State} {calls : List Call}

section

variable {s' s'' : State} {cs : List (Nat × Command)}

structure Issued (s s' : State) (cs : List (Nat × Command)) : Prop where
  its : s'.its = s.its
  setup : s'.setupDone = s.setupDone
  writes : ∃ l, s'.writes = s.writes ++ l ∧ ∀ rest, commands (l ++ rest) = cs ++ commands rest

theorem issued_refl (s : State) : Issued s s [] := ⟨rfl, rfl, [], (append_nil _).symm, fun _ => rfl⟩

theorem Issued.trans {cs' : List (Nat × Command)} (h : Issued s s' cs) (h' : Issued s' s'' cs') :
    Issued s s'' (cs ++ cs') := by
  obtain ⟨l, hl, hcs⟩ := h.writes
  obtain ⟨l', hl', hcs'⟩ := h'.writes
  refine ⟨h'.its.trans h.its, h'.setup.trans h.setup, l ++ l', ?_, fun rest => ?_⟩
  · rw [hl', hl, append_assoc]
  · rw [append_assoc, hcs, hcs', append_assoc]

section

variable {device event itt size : Nat} (h : Issued s s' cs) (i base : Nat)

include h

theorem Issued.cmd {words : Nat × Nat × Nat × Nat} {c : Command} (hc : decode words = c) :
    Issued s (writeCmd i base words s') (cs ++ [(i, c)]) := by
  refine h.trans ⟨rfl, rfl, _, rfl, fun rest => ?_⟩
  rw [← hc]
  rfl

theorem Issued.mapd (hd : device < 2 ^ 32) (hal : itt % 2 ^ 8 = 0) (hitt : itt < 2 ^ 52)
    (hsize : size < 2 ^ 5) (valid : Bool) :
    Issued s (writeCmdQMapd i base device itt size valid.toNat s')
      (cs ++ [(i, .mapd device itt size valid)]) :=
  h.cmd i base (decode_mapd hd hal hitt hsize valid)

theorem Issued.mapc (hal : getRdBaseFormat p i % 2 ^ 16 = 0) :
    Issued s (writeCmdQMapc i base 1 (getRdBaseFormat p i) 1 s')
      (cs ++ [(i, .mapc 1 (rdTarget p i) true)]) :=
  h.cmd i base (decode_mapc hal)

theorem Issued.mapi (hd : device < 2 ^ 32) (he : event < 2 ^ 32) :
    Issued s (writeCmdQMapi i base device event 1 s') (cs ++ [(i, .mapi device event 1)]) :=
  h.cmd i base (decode_mapi hd he)

theorem Issued.inv (device event : Nat) :
    Issued s (writeCmdQInv i base device event s') (cs ++ [(i, .other)]) :=
  h.cmd i base (decode_inv device event)

theorem Issued.discard (hd : device < 2 ^ 32) (he : event < 2 ^ 32) :
    Issued s (writeCmdQDiscard i base device event s') (cs ++ [(i, .discard device event)]) :=
  h.cmd i base (decode_discard hd he)

theorem Issued.sync (rdBase : Nat) :
    Issued s (writeCmdQSync i base rdBase s') (cs ++ [(i, .other)]) :=
  h.cmd i base rfl

theorem Issued.cwriter (creadr : Nat → Nat) : Issued s (updateCwriter creadr i s') cs :=
  ⟨h.its, h.setup, h.writes⟩

end

def Call.issued (p : Platform) (s : State) (c : Call) : List (Nat × Command) :=
  let itt := (s.its c.its).ittBase
  if c.create then
    [(c.its, .mapd c.deviceId itt (s.its c.its).idBits true),
      (c.its, .mapc 1 (rdTarget p c.its) true),
      (c.its, .mapi c.deviceId c.intId 1), (c.its, .other), (c.its, .other)]
  else [(c.its, .discard c.deviceId c.intId), (c.its, .mapd c.deviceId itt 0 false),
    (c.its, .other)]

theorem commonIdbits_le (p : Platform) (i : Nat) :
    commonIdbits p i ≤ armGitsTyperIdbits (p.gitsTyper i) ∧
      commonIdbits p i ≤ armGicdTyperIdbits p.gicdTyper := by
  rw [commonIdbits, getMin]
  split <;> omega

theorem commonIdbits_lt (p : Platform) (i : Nat) : commonIdbits p i < 2 ^ 5 :=
  ((commonIdbits_le p i).1.trans and_le_right).trans_lt (by decide)

theorem Key.Valid.device_lt {k : Key} (h : k.Valid p only) : k.device < 2 ^ 32 :=
  h.device.trans_le (Nat.pow_le_pow_right (by decide) (succ_le_succ and_le_right))

theorem Key.Valid.event_lt {k : Key} (h : k.Valid p only) : k.event < 2 ^ 32 :=
  h.lpi.2.trans_le (Nat.pow_le_pow_right (by decide) (commonIdbits_lt p k.its))

theorem getRdBaseFormat_aligned (hp : Placed p) (i : Nat) : getRdBaseFormat p i % 2 ^ 16 = 0 := by
  rw [getRdBaseFormat]
  split
  · exact hp.redistributor
  · rw [shiftLeft_eq]
    exact mul_mod_left _ _

section

variable (hs : SetUp p s)
include hs

theorem SetUp.itt (hp : Placed p) {i : Nat} (hi : i < p.gicNumIts) :
    (s.its i).ittBase % 2 ^ 8 = 0 ∧ (s.its i).ittBase < 2 ^ 52 := by
  obtain ⟨hal, hlt⟩ := hp.table i hi _ (hs.tables i hi).2.2
  omega

theorem Call.run_issued (hp : Placed p) {c : Call} (hc : c.key.Valid p only) :
    Issued s (c.run p s) (c.issued p s) := by
  have hi := hc.its
  have hd : c.deviceId < 2 ^ 32 := hc.device_lt
  have he := hc.event_lt
  obtain ⟨hal, hlt⟩ := hs.itt hp hi
  have hsize : (s.its c.its).idBits < 2 ^ 5 := by
    rw [(hs.configured c.its hi).2]
    exact commonIdbits_lt p c.its
  have hdone : ¬ s.setupDone = false := by simp [hs.done]
  have hrd := getRdBaseFormat_aligned hp c.its
  rw [Call.run, Call.issued]
  cases c.create with
  | true =>
    rw [valItsCreateLpiMap, if_neg hdone]
    have hmap := (issued_refl s).mapd c.its (s.its c.its).commandQBase hd hal hlt hsize true
    exact ((((hmap.mapc _ _ hrd).mapi _ _ hd he).inv _ _ _ _).sync _ _ _).cwriter _ _
  | false =>
    rw [valItsClearLpiMap, if_neg hdone]
    have hdiscard := (issued_refl s).discard c.its (s.its c.its).commandQBase hd he
    have hunmap := hdiscard.mapd c.its (s.its c.its).commandQBase hd hal hlt
      (show 0 < 2 ^ 5 by decide) false
    exact (hunmap.sync _ _ _).cwriter _ _

theorem SetUp.of_issued (h : Issued s s' cs) : SetUp p s' := by
  refine ⟨fun i hi => ?_, hs.redistributor, fun i hi => ?_, h.setup.trans hs.done⟩
  · rw [Configured, h.its]
    exact hs.configured i hi
  · rw [TablesSet, h.its]
    exact hs.tables i hi

theorem runCalls_issued (hp : Placed p) (hcalls : ∀ c ∈ calls, c.key.Valid p only) :
    Issued s (runCalls p s calls) (calls.flatMap (Call.issued p s)) := by
  induction calls using reverseRecOn with
  | nil => exact issued_refl s
  | append_singleton calls c ih =>
    have hprev := ih fun c' hc' => hcalls c' (mem_append_left _ hc')
    have hlast := Call.run_issued (hs.of_issued hprev) hp
      (hcalls c (mem_append_right _ (mem_singleton_self c)))
    rw [Call.issued, hprev.its] at hlast
    rw [runCalls, foldl_append, flatMap_append, flatMap_singleton]
    exact hprev.trans hlast

theorem tablesAfter_eq (hp : Placed p) (hcalls : ∀ c ∈ calls, c.key.Valid p only) :
    tablesAfter p s calls = execAll p (calls.flatMap (Call.issued p s)) noTables := by
  obtain ⟨l, hl, hcs⟩ := (runCalls_issued hs hp hcalls).writes
  have hall := hcs []
  rw [append_nil, show commands [] = [] from rfl, append_nil] at hall
  rw [tablesAfter, hl, drop_left, hall]

end

end

/-! ## The tables after a call -/

section

variable {T : Tables} {maps : List Key} {c : Call} {k k' : Key}

def deviceEntry (s : State) (i : Nat) : DeviceEntry := ⟨(s.its i).ittBase, (s.its i).idBits⟩

def Key.addr (p : Platform) (s : State) (k : Key) : Nat :=
  entryAddr p k.its (deviceEntry s k.its) k.event

theorem exec_create (hs : SetUp p s) (hcreate : c.create = true) (hc : c.key.Valid p only) :
    execAll p (c.issued p s) T =
      ⟨update T.devices (c.its, c.deviceId) (some (deviceEntry s c.its)),
        update T.collections (c.its, 1) (some (rdTarget p c.its)),
        T.memory.store (c.key.addr p s) (entryBytes p c.its) ⟨c.intId, 1⟩⟩ := by
  have hid := (hs.configured c.its hc.its).2
  have hdev : c.deviceId < 2 ^ deviceBits p c.its := hc.device
  have hsize : (s.its c.its).idBits ≤ armGitsTyperIdbits (p.gitsTyper c.its) :=
    hid ▸ (commonIdbits_le p c.its).1
  have hcol : 1 < 2 ^ collectionBits p c.its := by
    refine Nat.one_lt_two_pow ?_
    rw [collectionBits]
    split
    · exact succ_ne_zero _
    · decide
  have hevent : c.intId < 2 ^ ((s.its c.its).idBits + 1) := hid ▸ hc.lpi.2
  have hlpi : IsLpi p c.intId := by
    refine ⟨hc.lpi.1, hc.lpi.2.trans_le ?_⟩
    exact Nat.pow_le_pow_right (by decide) (succ_le_succ (commonIdbits_le p c.its).2)
  rw [Call.issued, if_pos hcreate]
  simp only [execAll, exec, hdev, hsize, hcol, hevent, hlpi, implies_true, and_self, if_true,
    update_self]
  rfl

theorem exec_clear (hclear : c.create = false) (hc : c.key.Valid p only) :
    ∃ memory, execAll p (c.issued p s) T =
        ⟨update T.devices (c.its, c.deviceId) none, T.collections, memory⟩ ∧
      (memory = T.memory ∨ ∃ e, T.devices (c.its, c.deviceId) = some e ∧
        memory = T.memory.clear (entryAddr p c.its e c.intId) (entryBytes p c.its)) := by
  have hdev : c.deviceId < 2 ^ deviceBits p c.its := hc.device
  rw [Call.issued, if_neg (by simp [hclear])]
  simp only [execAll, exec, hdev]
  cases he : T.devices (c.its, c.deviceId) with
  | none => exact ⟨_, rfl, .inl rfl⟩
  | some e =>
    by_cases hentry : c.intId < 2 ^ (e.size + 1) ∧
        (T.memory.load (entryAddr p c.its e c.intId) (entryBytes p c.its)).isSome
    · simp [hentry]
    · simp [hentry]

structure Inv (p : Platform) (only : Option Nat) (s : State) (T : Tables) (maps : List Key) :
    Prop where
  valid : ∀ k ∈ maps, k.Valid p only
  single : ∀ k ∈ maps, ∀ k' ∈ maps, k.its = k'.its → k.device = k'.device
  device : ∀ k ∈ maps, T.devices (k.its, k.device) = some (deviceEntry s k.its)
  only : ∀ i d e, T.devices (i, d) = some e → ∃ k ∈ maps, k.its = i ∧ k.device = d
  collection : ∀ k ∈ maps, T.collections (k.its, 1) = some (rdTarget p k.its)
  entry : ∀ k ∈ maps, T.memory.load (k.addr p s) (entryBytes p k.its) = some ⟨k.event, 1⟩

theorem inv_noTables : Inv p only s noTables [] := ⟨nofun, nofun, nofun, nofun, nofun, nofun⟩

theorem Key.Valid.addr_inside (h : k.Valid p none) :
    (s.its k.its).ittBase ≤ k.addr p s ∧
      k.addr p s + entryBytes p k.its ≤ (s.its k.its).ittBase + ittMemory := by
  have hin := h.inside
  rw [add_mul, one_mul] at hin
  rw [Key.addr, entryAddr, show (deviceEntry s k.its).ittAddr = (s.its k.its).ittBase from rfl]
  omega

section

variable (hs : SetUp p s) (hp : Placed p) (h : k.Valid p only) (h' : k'.Valid p only)
include hs hp h h'

theorem addr_apart_of_its_ne (hne : k.its ≠ k'.its) :
    Apart (k.addr p s) (entryBytes p k.its) (k'.addr p s) (entryBytes p k'.its) := by
  cases only with
  | none =>
    have htables :=
      hp.apart _ h.its _ h'.its hne _ _ (hs.tables _ h.its).2.2 (hs.tables _ h'.its).2.2
    exact htables.inside h.addr_inside h'.addr_inside
  | some i => exact absurd (h.inside.trans h'.inside.symm) hne

theorem addr_apart (hne : k.its = k'.its → k.event ≠ k'.event) :
    Apart (k.addr p s) (entryBytes p k.its) (k'.addr p s) (entryBytes p k'.its) := by
  by_cases hits : k.its = k'.its
  · rw [Key.addr, Key.addr, ← hits]
    exact apart_items (hne hits)
  · exact addr_apart_of_its_ne hs hp h h' hits

end

theorem Inv.kept (hs : SetUp p s) (h : Inv p only s T maps) : MapsKept p T maps := by
  refine ⟨fun i d d' e e' hne hd hd' => ?_, fun k hk => ?_⟩
  · obtain ⟨k, hk, hki, hkd⟩ := h.only i d e hd
    obtain ⟨k', hk', hki', hkd'⟩ := h.only i d' e' hd'
    have hsame := h.single k hk k' hk' (hki.trans hki'.symm)
    rw [hkd, hkd'] at hsame
    exact absurd hsame hne
  · have hlt : k.event < 2 ^ ((deviceEntry s k.its).size + 1) := by
      have hid : (deviceEntry s k.its).size = commonIdbits p k.its :=
        (hs.configured k.its (h.valid k hk).its).2
      rw [hid]
      exact (h.valid k hk).lpi.2
    have hentry := h.entry k hk
    rw [Key.addr] at hentry
    simp [translate, h.device k hk, hlt, hentry, h.collection k hk]

theorem mem_liveStep_of_clear (hclear : c.create = false) :
    k ∈ liveStep maps c ↔ k ∈ maps ∧ k ≠ c.key := by
  rw [liveStep, if_neg (by simp [hclear]), mem_filter, decide_eq_true_iff]

section

variable (hs : SetUp p s) (hp : Placed p) (h : Inv p only s T maps)
include hs hp h

theorem Inv.create (hcreate : c.create = true) (hc : c.key.Valid p only) (hsep : Separate maps c) :
    Inv p only s (execAll p (c.issued p s) T) (liveStep maps c) := by
  rw [Separate, if_pos hcreate] at hsep
  rw [exec_create hs hcreate hc, liveStep, if_pos hcreate]
  constructor
  case valid => exact forall_mem_cons.mpr ⟨hc, h.valid⟩
  case single =>
    refine forall_mem_cons.mpr ⟨forall_mem_cons.mpr ⟨fun _ => rfl, fun k hk hits => ?_⟩,
      fun k hk => forall_mem_cons.mpr ⟨hsep k hk, h.single k hk⟩⟩
    exact (hsep k hk hits.symm).symm
  case device =>
    refine forall_mem_cons.mpr ⟨update_self .., fun k hk => ?_⟩
    by_cases heq : (k.its, k.device) = (c.its, c.deviceId)
    · rw [heq, (mk.inj heq).1]
      exact update_self ..
    · exact (update_of_ne heq ..).trans (h.device k hk)
  case only =>
    intro i d e hd
    by_cases heq : (i, d) = (c.its, c.deviceId)
    · obtain ⟨rfl, rfl⟩ := mk.inj heq
      exact ⟨c.key, mem_cons_self, rfl, rfl⟩
    · obtain ⟨k, hk, hkey⟩ := h.only i d e ((update_of_ne heq ..).symm.trans hd)
      exact ⟨k, mem_cons_of_mem _ hk, hkey⟩
  case collection =>
    refine forall_mem_cons.mpr ⟨update_self .., fun k hk => ?_⟩
    by_cases heq : (k.its, 1) = (c.its, 1)
    · rw [heq, (mk.inj heq).1]
      exact update_self ..
    · exact (update_of_ne heq ..).trans (h.collection k hk)
  case entry =>
    dsimp only
    refine forall_mem_cons.mpr ⟨Spans.load_store_self .., fun k hk => ?_⟩
    by_cases heq : k.its = c.its ∧ k.event = c.intId
    · -- the device is the same, so this is the mapping itself
      have haddr : k.addr p s = c.key.addr p s := by
        rw [Key.addr, heq.1, heq.2]
        rfl
      rw [haddr, heq.1, heq.2]
      exact Spans.load_store_self ..
    · rw [Spans.load_store_of_apart _ (entryBytes_pos _) (entryBytes_pos _)]
      · exact h.entry k hk
      · exact addr_apart hs hp hc (h.valid k hk) fun hits hev => heq ⟨hits.symm, hev.symm⟩

theorem Inv.clear (hclear : c.create = false) (hc : c.key.Valid p only) (hsep : Separate maps c) :
    Inv p only s (execAll p (c.issued p s) T) (liveStep maps c) := by
  rw [Separate, if_neg (by simp [hclear])] at hsep
  have hmem : ∀ k, k ∈ liveStep maps c ↔ k ∈ maps ∧ k ≠ c.key :=
    fun k => mem_liveStep_of_clear hclear
  -- what is left is not of the device
  have hother : ∀ k ∈ liveStep maps c, k ∈ maps ∧ (k.its, k.device) ≠ (c.its, c.deviceId) := by
    intro k hk
    obtain ⟨hk, hne⟩ := (hmem k).mp hk
    refine ⟨hk, fun heq => hne ?_⟩
    obtain ⟨hits, hdev⟩ := Prod.mk.inj heq
    rw [Key.mk.injEq]
    exact ⟨hits, hdev, hsep _ hk hits hdev⟩
  obtain ⟨memory, hexec, hmemory⟩ := exec_clear (T := T) hclear hc
  rw [hexec]
  constructor
  case valid => exact fun k hk => h.valid k (hother k hk).1
  case single => exact fun k hk k' hk' => h.single k (hother k hk).1 k' (hother k' hk').1
  case device =>
    intro k hk
    exact (update_of_ne (hother k hk).2 ..).trans (h.device k (hother k hk).1)
  case only =>
    intro i d e hd
    dsimp only at hd
    by_cases heq : (i, d) = (c.its, c.deviceId)
    · rw [heq, update_self] at hd
      cases hd
    · rw [update_of_ne heq] at hd
      obtain ⟨k, hk, hki, hkd⟩ := h.only i d e hd
      refine ⟨k, (hmem k).mpr ⟨hk, fun hkey => heq ?_⟩, hki, hkd⟩
      rw [← hki, ← hkd, hkey]
      rfl
  case collection => exact fun k hk => h.collection k (hother k hk).1
  case entry =>
    intro k hk
    obtain ⟨hkm, hne⟩ := hother k hk
    rcases hmemory with hmemory | ⟨e, he, hmemory⟩
    · rw [hmemory]
      exact h.entry k hkm
    · -- the device has a mapping, so the others are behind other ITS blocks
      obtain ⟨k', hk', hki', hkd'⟩ := h.only _ _ e he
      have he' := h.device k' hk'
      rw [hki', hkd', he, Option.some.injEq] at he'
      have hits : c.key.its ≠ k.its := by
        intro hits
        refine hne (Prod.ext hits.symm ?_)
        exact (h.single k hkm k' hk' (hits.symm.trans hki'.symm)).trans hkd'
      rw [hmemory, Spans.load_clear_of_apart]
      · exact h.entry k hkm
      · rw [he']
        exact addr_apart_of_its_ne hs hp hc (h.valid k hkm) hits

theorem Inv.step (hc : c.key.Valid p only)
    (hsep : Separate maps c) : Inv p only s (execAll p (c.issued p s) T) (liveStep maps c) := by
  cases hcreate : c.create with
  | true => exact h.create hs hp hcreate hc hsep
  | false => exact h.clear hs hp hcreate hc hsep

end

theorem Inv.separate_of_kept (hs : SetUp p s) (h : Inv p only s T maps) (hc : c.key.Valid p only)
    (hkept : MapsKept p (execAll p (c.issued p s) T) (liveStep maps c)) : Separate maps c := by
  rw [Separate]
  cases hcreate : c.create with
  | true =>
    intro k hk hits
    by_contra hne
    -- both devices are mapped to the table of the ITS
    have hpair : (c.its, k.device) ≠ (c.its, c.deviceId) := fun heq => hne (mk.inj heq).2
    have hold := h.device k hk
    rw [hits] at hold
    rw [exec_create hs hcreate hc] at hkept
    have hover := hkept.apart c.its k.device c.deviceId (deviceEntry s c.its) (deviceEntry s c.its)
      hne ((update_of_ne hpair ..).trans hold) (update_self ..)
    have hpos : 0 < tableBytes p c.its (deviceEntry s c.its) :=
      Nat.mul_pos (Nat.two_pow_pos _) (entryBytes_pos _)
    exact hover.ne hpos hpos rfl
  | false =>
    intro k hk hits hdev
    by_contra hne
    have hlive : k ∈ liveStep maps c := by
      refine (mem_liveStep_of_clear hcreate).mpr ⟨hk, fun hkey => hne ?_⟩
      rw [hkey]
      rfl
    obtain ⟨memory, hexec, -⟩ := exec_clear (s := s) (T := T) hcreate hc
    rw [hexec] at hkept
    have hmapped := hkept.mapped k hlive
    rw [translate, hits, hdev] at hmapped
    dsimp only at hmapped
    rw [update_self] at hmapped
    cases hmapped

end

/-! ## Runs -/

section

variable {s0 : State}

/-- What holds of every call of a run and the calls before it, from the last call on. -/
theorem forall_concat_prefix_iff {P : List Call → Call → Prop} {d : Call} :
    (∀ done c, done ++ [c] <+: calls ++ [d] → P done c) ↔
      (∀ done c, done ++ [c] <+: calls → P done c) ∧ P calls d := by
  constructor
  · intro h
    exact ⟨fun done c hdone => h done c (hdone.trans (prefix_append _ _)),
      h calls d prefix_rfl⟩
  · rintro ⟨hprev, hlast⟩ done c hdone
    rcases prefix_concat_iff.mp hdone with heq | hdone
    · obtain ⟨rfl, hc⟩ := append_inj' heq rfl
      obtain rfl := singleton_inj.mp hc
      exact hlast
    · exact hprev done c hdone

theorem live_append (calls : List Call) (c : Call) :
    live (calls ++ [c]) = liveStep (live calls) c := by
  rw [live, foldl_append]
  rfl

theorem tablesAfter_append (hs : SetUp p s) (hp : Placed p) {c : Call}
    (hcalls : ∀ c' ∈ calls ++ [c], c'.key.Valid p only) :
    tablesAfter p s (calls ++ [c]) = execAll p (c.issued p s) (tablesAfter p s calls) := by
  rw [tablesAfter_eq hs hp hcalls, flatMap_append, execAll_append, flatMap_singleton,
    tablesAfter_eq hs hp (fun c' hc' => hcalls c' (mem_append_left _ hc'))]

section

variable (hs : SetUp p s) (hp : Placed p) (hcalls : ∀ c ∈ calls, c.key.Valid p only)
include hs hp hcalls

theorem inv_of_separate (hsep : ∀ done c, done ++ [c] <+: calls → Separate (live done) c) :
    Inv p only s (tablesAfter p s calls) (live calls) := by
  induction calls using reverseRecOn with
  | nil =>
    rw [tablesAfter_eq hs hp hcalls]
    exact inv_noTables
  | append_singleton calls c ih =>
    rw [tablesAfter_append hs hp hcalls, live_append]
    obtain ⟨hsep, hlast⟩ := forall_concat_prefix_iff.mp hsep
    have hprev := ih (fun c' hc' => hcalls c' (mem_append_left _ hc')) hsep
    exact hprev.step hs hp (hcalls c (mem_append_right _ (mem_singleton_self c))) hlast

theorem separate_of_kept
    (hkept : ∀ done, done <+: calls → MapsKept p (tablesAfter p s done) (live done)) :
    ∀ done c, done ++ [c] <+: calls → Separate (live done) c := by
  induction calls using reverseRecOn with
  | nil =>
    intro done c hdone
    simp at hdone
  | append_singleton calls c ih =>
    have hprev := ih (fun c' hc' => hcalls c' (mem_append_left _ hc'))
      (fun done hdone => hkept done (hdone.trans (prefix_append _ _)))
    refine forall_concat_prefix_iff.mpr ⟨hprev, ?_⟩
    have hlast := hkept _ prefix_rfl
    rw [tablesAfter_append hs hp hcalls, live_append] at hlast
    have hinv := inv_of_separate hs hp (fun d hd => hcalls d (mem_append_left _ hd)) hprev
    exact hinv.separate_of_kept hs (hcalls c (mem_append_right _ (mem_singleton_self c)))
      hlast

end

/-- After the initialisation the mappings of a run are kept at every point exactly when each
create meets no other device of its ITS and each clear no other event of its device. -/
theorem lpiMaps_kept_iff (hptr : p.cwriterPtrAddress ≠ 0) (hinit : valItsInit p s0 = (0, s))
    (hp : Placed p) (hcalls : ∀ c ∈ calls, c.key.Valid p only) :
    (∀ done, done <+: calls → MapsKept p (tablesAfter p s done) (live done)) ↔
      ∀ done c, done ++ [c] <+: calls → Separate (live done) c := by
  have hs := setUp_of_valItsInit hptr hinit
  constructor
  · exact separate_of_kept hs hp hcalls
  · intro hsep done hdone
    refine (inv_of_separate hs hp (fun c hc => hcalls c (hdone.subset hc)) ?_).kept hs
    exact fun done' c h => hsep done' c (h.trans hdone)

end

/-! ## Two devices of one ITS -/

def pairIts : Platform := { oneIts with gitsTyper := fun _ => 15 <<< 13 ||| 15 <<< 8 ||| 7 <<< 4 }

def pairState : State := (valItsInit pairIts resetState).2

def pairCall (create : Bool) (deviceId intId : Nat) : Call :=
  ⟨create, 0, deviceId, intId, fun _ => 0⟩

theorem placed_pairIts : Placed pairIts := by
  refine ⟨fun i _ a ha => ?_, fun i hi j hj hne => ?_, by decide⟩
  · obtain rfl : 0x80020000 = a := Option.some.inj ha
    decide
  · obtain rfl : i = 0 := lt_one_iff.mp hi
    obtain rfl : j = 0 := lt_one_iff.mp hj
    exact absurd rfl hne

theorem valid_pairCall (create : Bool) {deviceId intId : Nat} (hd : deviceId < 2 ^ 16)
    (hlow : 8192 ≤ intId) (hhigh : intId < 16384) :
    (pairCall create deviceId intId).key.Valid pairIts (some 0) := by
  have hid : commonIdbits pairIts 0 = 15 := by decide
  refine ⟨Nat.zero_lt_one, ?_, ⟨hlow, ?_⟩, rfl⟩
  · show deviceId < 2 ^ deviceBits pairIts 0
    exact hd
  · show intId < 2 ^ (commonIdbits pairIts 0 + 1)
    rw [hid]
    omega

/-- Two devices, one after the other. -/
theorem lpiMaps_kept_in_turn : MapsKept pairIts
    (tablesAfter pairIts pairState
      [pairCall true 8 8250, pairCall false 8 8250, pairCall true 16 8251])
    (live [pairCall true 8 8250, pairCall false 8 8250, pairCall true 16 8251]) := by
  have hvalid : ∀ c ∈ [pairCall true 8 8250, pairCall false 8 8250, pairCall true 16 8251],
      c.key.Valid pairIts (some 0) := by
    intro c hc
    simp only [mem_cons, not_mem_nil, or_false] at hc
    rcases hc with rfl | rfl | rfl
    all_goals exact valid_pairCall _ (by decide) (by decide) (by decide)
  refine (lpiMaps_kept_iff (by decide) rfl placed_pairIts hvalid).mpr ?_ _ prefix_rfl
  show ∀ done c, done ++ [c] <+: [] ++ [pairCall true 8 8250] ++ [pairCall false 8 8250] ++
    [pairCall true 16 8251] → Separate (live done) c
  refine forall_concat_prefix_iff.mpr ⟨forall_concat_prefix_iff.mpr
    ⟨forall_concat_prefix_iff.mpr ⟨fun done c hdone => ?_, ?_⟩, ?_⟩, ?_⟩
  · simp at hdone
  all_goals decide

/-- Two devices that are mapped at the same time have one table, and a device loses both of
its events when one is cleared. -/
theorem lpiMaps_not_kept :
    ¬ MapsKept pairIts (tablesAfter pairIts pairState [pairCall true 8 8250, pairCall true 16 8251])
        (live [pairCall true 8 8250, pairCall true 16 8251]) ∧
      ¬ MapsKept pairIts
        (tablesAfter pairIts pairState
          [pairCall true 8 8250, pairCall true 8 8251, pairCall false 8 8251])
        (live [pairCall true 8 8250, pairCall true 8 8251, pairCall false 8 8251]) := by
  constructor
  · intro h
    have hover :=
      h.apart 0 8 16 ⟨0x80020000, 15⟩ ⟨0x80020000, 15⟩ (by decide) (by decide) (by decide)
    exact absurd hover (by decide)
  · intro h
    have hmapped := h.mapped ⟨0, 8, 8250⟩ (by decide)
    exact absurd hmapped (by decide)

end ServerSoc.Its
