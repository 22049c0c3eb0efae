/-
The bounds of the command queue.

A call adds three or five commands behind the ones before it, and nothing leads the write
index back to the start.  While all commands of an ITS fit into its queue, each of them is in
the slot that `GITS_CWRITER` showed, and with one more than that the driver leaves the queue.
-/
import ServerSoc.Its.Commands

namespace ServerSoc.Its

open Base Function List Nat

/-! ## Calls -/

/-- A call of `val_its_create_lpi_map` or `val_its_clear_lpi_map`, and what the ITS shows in
`GITS_CREADR` while the driver waits. -/
structure Call where
  create : Bool
  its : Nat
  deviceId : Nat
  intId : Nat
  creadr : Nat → Nat

def Call.run (p : Platform) (c : Call) (s : State) : State :=
  if c.create then valItsCreateLpiMap p c.creadr c.its c.deviceId c.intId s
  else valItsClearLpiMap p c.creadr c.its c.deviceId c.intId s

def Call.commands (c : Call) : Nat := if c.create then 5 else 3

def queueMemory : Nat := numPages8 * size4Kb

def queueSize (cbaser : Nat) : Nat := (cbaser % 2 ^ 8 + 1) * size4Kb

/-- The slot that `GITS_CWRITER` shows.  Bit 0 asks for a retry. -/
def announced (cwriter : Nat) : Nat := cwriter / 32

/-- The words of one call are in the queue memory, in the slots from the announced one on,
and the register shows the slot behind them. -/
structure CallOk (p : Platform) (s : State) (c : Call) : Prop where
  inside : ∀ w ∈ (c.run p s).writes.drop s.writes.length,
    p.commandQAddress c.its ≤ w.address ∧ w.address + 8 ≤ p.commandQAddress c.its + queueMemory
  slots : ((c.run p s).writes.drop s.writes.length).map Write.address =
    (range (4 * c.commands)).map (fun m => p.commandQAddress c.its +
      (announced (s.cwriter c.its) + m / 4) % (queueSize (s.cbaser c.its) / 32) * 32 + m % 4 * 8)
  offset : announced ((c.run p s).cwriter c.its) * 32 < queueSize (s.cbaser c.its)
  next : announced ((c.run p s).cwriter c.its) =
    (announced (s.cwriter c.its) + c.commands) % (queueSize (s.cbaser c.its) / 32)

def RunOk (p : Platform) : State → List Call → Prop
  | _, [] => True
  | s, c :: rest => CallOk p s c ∧ RunOk p (c.run p s) rest

def commandsFor (i : Nat) : List Call → Nat
  | [] => 0
  | c :: rest => (if c.its = i then c.commands else 0) + commandsFor i rest

def Fits (cbaser n : Nat) : Prop := 32 * n ≤ queueMemory ∧ 32 * n < queueSize cbaser

/-! ## One call -/

variable {p : Platform} {s : State}

section

variable {i base : Nat}

def cmdAddresses (base ptr n : Nat) : List Nat :=
  (range (4 * n)).map (fun m => base + 8 * (ptr + m))

theorem cmdAddresses_succ (base ptr n : Nat) :
    cmdAddresses base ptr (n + 1) = cmdAddresses base ptr n ++
      [base + 8 * (ptr + 4 * n), base + 8 * (ptr + 4 * n) + 8, base + 8 * (ptr + 4 * n) + 16,
        base + 8 * (ptr + 4 * n) + 24] := by
  rw [cmdAddresses, mul_succ, range_add, map_append]
  rfl

structure Written (i base n : Nat) (s s' : State) : Prop where
  writes : ∃ l, s'.writes = s.writes ++ l ∧ l.map Write.address =
    cmdAddresses base (s.cwriterPtr i) n
  ptr : s'.cwriterPtr = update s.cwriterPtr i (s.cwriterPtr i + 4 * n)
  its : s'.its = s.its
  cbaser : s'.cbaser = s.cbaser
  cwriter : s'.cwriter = s.cwriter
  setup : s'.setupDone = s.setupDone

theorem written_zero (i base : Nat) (s : State) : Written i base 0 s s where
  writes := ⟨[], (append_nil _).symm, rfl⟩
  ptr := (update_eq_self i _).symm
  its := rfl
  cbaser := rfl
  cwriter := rfl
  setup := rfl

theorem Written.cmd {n : Nat} {s s' : State} (h : Written i base n s s')
    (hptr : s.cwriterPtr i + 4 * (n + 1) < 2 ^ 32) (words : Nat × Nat × Nat × Nat) :
    Written i base (n + 1) s (writeCmd i base words s') := by
  obtain ⟨l, hl, haddr⟩ := h.writes
  have hi : s'.cwriterPtr i = s.cwriterPtr i + 4 * n := by
    rw [h.ptr, update_self]
  refine ⟨⟨l ++ cmdWrites i (base + 8 * s'.cwriterPtr i) words, ?_, ?_⟩, ?_, h.its, h.cbaser,
    h.cwriter, h.setup⟩
  · show s'.writes ++ _ = _
    rw [hl, append_assoc]
  · rw [map_append, haddr, cmdAddresses_succ, hi]
    rfl
  · show update s'.cwriterPtr i _ = _
    rw [hi, h.ptr, update_idem, itsNextCmdPtr, mod_eq_of_lt (by omega), mul_succ,
      add_assoc]

theorem Call.run_spec (p : Platform) (c : Call) (hsetup : s.setupDone = true)
    (hptr : s.cwriterPtr c.its + 20 < 2 ^ 32) :
    ∃ s', Written c.its (s.its c.its).commandQBase c.commands s s' ∧
      c.run p s = updateCwriter c.creadr c.its s' := by
  have hzero := written_zero c.its (s.its c.its).commandQBase s
  have hdone : ¬ s.setupDone = false := by
    rw [hsetup]
    decide
  rw [Call.run, Call.commands]
  cases c.create with
  | true =>
    rw [valItsCreateLpiMap, if_neg hdone]
    exact ⟨_, ((((hzero.cmd (by omega) _).cmd (by omega) _).cmd (by omega) _).cmd (by omega) _).cmd
      (by omega) _, rfl⟩
  | false =>
    rw [valItsClearLpiMap, if_neg hdone]
    exact ⟨_, ((hzero.cmd (by omega) _).cmd (by omega) _).cmd (by omega) _, rfl⟩

theorem announced_poll (creadr : Nat → Nat) {v : Nat} (hv : v % 32 = 0) :
    announced (pollTillCommandQueueDone creadr v) = v / 32 := by
  have hretry : announced (v ||| armGitsCwriterRetry) = v / 32 := by
    have hor := shiftLeft_or (a := v / 32) (b := 1) (k := 5) (by decide)
    rw [shiftLeft_eq, show v / 32 * 2 ^ 5 = v by omega] at hor
    rw [announced, show armGitsCwriterRetry = 1 from rfl]
    omega
  have hloop : ∀ left k cwriter, announced cwriter = v / 32 →
      announced (pollLoop creadr v left k cwriter) = v / 32 := by
    intro left
    induction left with
    | zero => exact fun _ _ h => h
    | succ left ih =>
      intro k cwriter h
      rw [pollLoop]
      split
      · exact h
      · refine ih _ _ ?_
        split
        · exact hretry
        · exact h
  exact hloop _ 0 v rfl

end

/-! ## Runs -/

section

variable {n : Nat → Nat} {c : Call}

structure Counted (p : Platform) (s : State) (n : Nat → Nat) : Prop where
  setup : s.setupDone = true
  base : ∀ i < p.gicNumIts, (s.its i).commandQBase = p.commandQAddress i
  ptr : ∀ i < p.gicNumIts, s.cwriterPtr i = 4 * n i
  cwriter : ∀ i < p.gicNumIts, announced (s.cwriter i) = n i
  fits : ∀ i < p.gicNumIts, Fits (s.cbaser i) (n i)

theorem Call.commands_pos (c : Call) : 0 < c.commands ∧ c.commands ≤ 5 := by
  rw [Call.commands]
  split <;> decide

theorem Counted.run (h : Counted p s n) (hc : c.its < p.gicNumIts) :
    ∃ l, (c.run p s).writes = s.writes ++ l ∧
      l.map Write.address = cmdAddresses (p.commandQAddress c.its) (4 * n c.its) c.commands ∧
      (c.run p s).its = s.its ∧
      (c.run p s).cwriterPtr = update s.cwriterPtr c.its (4 * (n c.its + c.commands)) ∧
      announced ((c.run p s).cwriter c.its) = n c.its + c.commands ∧
      (∀ i, i ≠ c.its → (c.run p s).cwriter i = s.cwriter i) ∧
      (c.run p s).cbaser = s.cbaser ∧ (c.run p s).setupDone = true := by
  have hptr := h.ptr c.its hc
  have hfits := (h.fits c.its hc).1
  have hn := c.commands_pos
  rw [queueMemory, numPages8, size4Kb] at hfits
  obtain ⟨s', hw, hrun⟩ := c.run_spec p h.setup (by omega)
  obtain ⟨l, hl, haddr⟩ := hw.writes
  rw [hptr, h.base c.its hc] at haddr
  have hptr' : s'.cwriterPtr c.its = 4 * (n c.its + c.commands) := by
    rw [hw.ptr, update_self, hptr, mul_add]
  have hvalue : s'.cwriterPtr c.its * numBytesInDw % 2 ^ 32 = 32 * (n c.its + c.commands) := by
    rw [numBytesInDw]
    omega
  rw [hrun]
  refine ⟨l, hl, haddr, hw.its, ?_, ?_, fun i hi => ?_, hw.cbaser, hw.setup.trans h.setup⟩
  · show s'.cwriterPtr = _
    rw [hw.ptr, hptr, mul_add]
  · show announced (update s'.cwriter c.its _ c.its) = _
    rw [update_self, hvalue, announced_poll _ (mul_mod_right 32 _),
      Nat.mul_div_cancel_left _ (by decide)]
  · show update s'.cwriter c.its _ i = _
    rw [update_of_ne hi, hw.cwriter]

theorem mem_cmdAddresses {base ptr k a : Nat} :
    a ∈ cmdAddresses base ptr k ↔ ∃ m < 4 * k, base + 8 * (ptr + m) = a := by
  rw [cmdAddresses]
  simp

theorem Counted.callOk_iff (h : Counted p s n) (hc : c.its < p.gicNumIts) :
    CallOk p s c ↔ Fits (s.cbaser c.its) (n c.its + c.commands) := by
  obtain ⟨l, hl, haddr, -, -, hannounced, -⟩ := h.run hc
  have hnew : (c.run p s).writes.drop s.writes.length = l := by
    rw [hl, drop_left]
  have hn := c.commands_pos
  constructor
  · intro hok
    have hinside := hok.inside
    have hoffset := hok.offset
    rw [hnew] at hinside
    -- the last word of the call
    have hlast : p.commandQAddress c.its + 8 * (4 * n c.its + (4 * c.commands - 1)) ∈
        l.map Write.address := by
      rw [haddr, mem_cmdAddresses]
      exact ⟨4 * c.commands - 1, by omega, rfl⟩
    obtain ⟨w, hw, hwa⟩ := mem_map.mp hlast
    have hin := (hinside w hw).2
    refine ⟨?_, ?_⟩
    · omega
    · omega
  · rintro ⟨hmem, hsize⟩
    have hlt : n c.its + c.commands < queueSize (s.cbaser c.its) / 32 := by
      rw [queueSize, size4Kb] at hsize ⊢
      omega
    refine ⟨?_, ?_, ?_, ?_⟩
    · rw [hnew]
      intro w hw
      have hwa : w.address ∈ l.map Write.address := mem_map_of_mem hw
      rw [haddr, mem_cmdAddresses] at hwa
      omega
    · rw [hnew, haddr, h.cwriter c.its hc]
      refine map_congr_left fun m hm => ?_
      rw [mem_range] at hm
      rw [mod_eq_of_lt (by omega)]
      omega
    · omega
    · rw [hannounced, h.cwriter c.its hc, mod_eq_of_lt hlt]

theorem Counted.step (h : Counted p s n) (hc : c.its < p.gicNumIts)
    (hfit : Fits (s.cbaser c.its) (n c.its + c.commands)) :
    (c.run p s).cbaser = s.cbaser ∧
      Counted p (c.run p s) (update n c.its (n c.its + c.commands)) := by
  obtain ⟨l, -, -, hits, hptr, hannounced, hother, hcbaser, hsetup⟩ := h.run hc
  refine ⟨hcbaser, hsetup, by rw [hits]; exact h.base, fun i hi => ?_, fun i hi => ?_,
    fun i hi => ?_⟩
  · rw [hptr]
    by_cases hic : i = c.its
    · rw [hic, update_self, update_self]
    · rw [update_of_ne hic, update_of_ne hic]
      exact h.ptr i hi
  · by_cases hic : i = c.its
    · rw [hic, update_self]
      exact hannounced
    · rw [update_of_ne hic, hother i hic]
      exact h.cwriter i hi
  · rw [hcbaser]
    by_cases hic : i = c.its
    · rw [hic, update_self]
      exact hfit
    · rw [update_of_ne hic]
      exact h.fits i hi

theorem Fits.mono {cbaser m k : Nat} (h : Fits cbaser k) (hle : m ≤ k) : Fits cbaser m :=
  ⟨(Nat.mul_le_mul_left 32 hle).trans h.1, (Nat.mul_le_mul_left 32 hle).trans_lt h.2⟩

theorem Counted.runOk_iff (h : Counted p s n) {calls : List Call}
    (hcalls : ∀ c ∈ calls, c.its < p.gicNumIts) :
    RunOk p s calls ↔ ∀ i < p.gicNumIts, Fits (s.cbaser i) (n i + commandsFor i calls) := by
  induction calls generalizing s n with
  | nil => exact iff_of_true trivial h.fits
  | cons c rest ih =>
    have hc := hcalls c mem_cons_self
    have hrest : ∀ d ∈ rest, d.its < p.gicNumIts := fun d hd => hcalls d (mem_cons_of_mem c hd)
    have hsum : ∀ i, update n c.its (n c.its + c.commands) i + commandsFor i rest =
        n i + commandsFor i (c :: rest) := by
      intro i
      rw [commandsFor]
      by_cases hic : i = c.its
      · rw [hic, update_self, if_pos rfl, add_assoc]
      · rw [update_of_ne hic, if_neg (Ne.symm hic), zero_add]
    have hrun : Fits (s.cbaser c.its) (n c.its + c.commands) → (RunOk p (c.run p s) rest ↔
        ∀ i < p.gicNumIts, Fits (s.cbaser i) (n i + commandsFor i (c :: rest))) := by
      intro hfit
      obtain ⟨hcbaser, hstep⟩ := h.step hc hfit
      rw [ih hstep hrest, hcbaser]
      simp only [hsum]
    rw [RunOk, h.callOk_iff hc, and_congr_right hrun]
    -- the first call fits when all of them do
    refine and_iff_right_of_imp fun hall => (hall c.its hc).mono ?_
    rw [commandsFor, if_pos rfl]
    omega

end

/-! ## The queues after the initialisation -/

section

variable {s0 : State}

/-- What each turn of a loop keeps and what it does for its ITS holds behind the loop. -/
theorem forEachIts_spec {f : Nat → State → Nat × State} {R : State → Prop} {Q : Nat → State → Prop}
    (hf : ∀ i s s', R s → f i s = (0, s') → R s' ∧ Q i s' ∧ ∀ j, j ≠ i → Q j s → Q j s')
    {l : List Nat} {s s' : State} (hR : R s) (h : forEachIts f l s = (0, s')) :
    R s' ∧ (∀ i ∈ l, Q i s') ∧ ∀ j, j ∉ l → Q j s → Q j s' := by
  induction l generalizing s with
  | nil =>
    cases h
    exact ⟨hR, nofun, fun _ _ hq => hq⟩
  | cons i rest ih =>
    rw [forEachIts] at h
    split_ifs at h with hne
    · exact absurd (congrArg Prod.fst h) hne
    · obtain ⟨hR1, hQ, hkeep⟩ := hf i s (f i s).2 hR (Prod.ext (not_not.mp hne) rfl)
      obtain ⟨hR', hall, hkeep'⟩ := ih hR1 h
      refine ⟨hR', fun j hj => ?_, fun j hj hq => ?_⟩
      · by_cases hmem : j ∈ rest
        · exact hall j hmem
        · rcases mem_cons.mp hj with rfl | hj
          · exact hkeep' j hmem hQ
          · exact absurd hj hmem
      · rw [mem_cons, not_or] at hj
        exact hkeep' j hj.2 (hkeep j hj.1 hq)

/-- The loops leave these alone, and they change a size only to the one they program. -/
structure Untouched (s0 s : State) : Prop where
  ptr : s.cwriterPtr = s0.cwriterPtr
  cwriter : s.cwriter = s0.cwriter
  setup : s.setupDone = s0.setupDone
  cbaser : ∀ i, s.cbaser i % 2 ^ 8 = s0.cbaser i % 2 ^ 8 ∨
    s.cbaser i % 2 ^ 8 = (s0.cbaser i ||| (numPages8 - 1)) % 2 ^ 8

def QueueSet (p : Platform) (s0 : State) (i : Nat) (s : State) : Prop :=
  (s.its i).commandQBase = p.commandQAddress i ∧
    s.cbaser i % 2 ^ 8 = (s0.cbaser i ||| (numPages8 - 1)) % 2 ^ 8

/-- The low bits of a base register are the old ones with those of the number of pages. -/
theorem baseRegister_low (old address n : Nat) {mask valid k : Nat}
    (hkeep : (2 ^ 64 - 1 - mask) % 2 ^ k = 2 ^ k - 1) (hnone : mask % 2 ^ k = 0)
    (hvalid : valid % 2 ^ k = 0) :
    (old &&& (2 ^ 64 - 1 - mask) ||| address &&& mask ||| valid ||| n) % 2 ^ k =
      (old ||| n) % 2 ^ k := by
  rw [or_mod_two_pow, or_mod_two_pow, or_mod_two_pow, and_mod_two_pow,
    and_mod_two_pow, hkeep, hnone, hvalid, and_zero, or_zero, or_zero, and_low,
    mod_mod, ← or_mod_two_pow]

theorem setInitialConfiguration_spec (i : Nat) (s s' : State) (hR : Untouched s0 s)
    (h : setInitialConfiguration p i s = (0, s')) : Untouched s0 s' := by
  rw [setInitialConfiguration] at h
  split at h
  · cases h
  · cases h
    exact ⟨hR.ptr, hR.cwriter, hR.setup, hR.cbaser⟩

theorem setQueueAndTables_spec (i : Nat) (s s' : State) (hR : Untouched s0 s)
    (h : setQueueAndTables p i s = (0, s')) :
    Untouched s0 s' ∧ QueueSet p s0 i s' ∧ ∀ j, j ≠ i → QueueSet p s0 j s → QueueSet p s0 j s' := by
  rw [setQueueAndTables, armGicSetItsCommandQueueBase] at h
  by_cases haddr : p.commandQAddress i = 0
  · rw [if_pos haddr] at h
    cases h
  · rw [if_neg haddr, if_neg (not_not.mpr rfl), armGicSetItsTables] at h
    split at h
    · cases h
    · cases h
      have hnew := (baseRegister_low (s.cbaser i) (p.commandQAddress i) (numPages8 - 1) (by decide)
        (show armGitsCbaserPaMask % 2 ^ 8 = 0 by decide)
        (show armGitsCbaserValid % 2 ^ 8 = 0 by decide)).trans
        (show _ = (s0.cbaser i ||| (numPages8 - 1)) % 2 ^ 8 by
          rcases hR.cbaser i with hold | hold
          · rw [or_mod_two_pow, hold, ← or_mod_two_pow]
          · rw [or_mod_two_pow, hold, ← or_mod_two_pow, Nat.or_assoc, Nat.or_self])
      refine ⟨⟨hR.ptr, hR.cwriter, hR.setup, fun j => ?_⟩, ⟨by simp, ?_⟩, fun j hj hq => ?_⟩
      · by_cases hj : j = i
        · subst hj
          simp only [update_self]
          exact .inr hnew
        · simp only [update_of_ne hj]
          exact hR.cbaser j
      · simp only [update_self]
        exact hnew
      · simp only [QueueSet, update_of_ne hj]
        exact hq

/-- A setup with status 0 has gone through both loops. -/
theorem exists_of_valItsInit (hptr : p.cwriterPtrAddress ≠ 0) (hinit : valItsInit p s0 = (0, s)) :
    p.redistributorStatus = 0 ∧ ∃ s1 s2,
      forEachIts (setInitialConfiguration p) (range p.gicNumIts) { s0 with
        cwriterPtr := fun index => if index < p.gicNumIts then 0 else s0.cwriterPtr index } =
          (0, s1) ∧
      forEachIts (setQueueAndTables p) (range p.gicNumIts) s1 = (0, s2) ∧
      s = { s2 with setupDone := true } := by
  rw [valItsInit, if_neg hptr] at hinit
  dsimp only at hinit
  split_ifs at hinit with hconf hred hset
  · exact absurd (congrArg Prod.fst hinit) hconf
  · exact absurd (congrArg Prod.fst hinit) hred
  · exact absurd (congrArg Prod.fst hinit) hset
  · exact ⟨not_not.mp hred, _, _, Prod.ext (not_not.mp hconf) rfl, Prod.ext (not_not.mp hset) rfl,
      (Prod.mk.inj hinit).2.symm⟩

theorem counted_init (hstart : s0.setupDone = false)
    (hreset : ∀ i < p.gicNumIts, announced (s0.cwriter i) = 0)
    (hinit : valItsInit p s0 = (0, s)) (hdone : s.setupDone = true) :
    Counted p s (fun _ => 0) ∧
      ∀ i < p.gicNumIts, queueSize (s.cbaser i) = queueSize (s0.cbaser i ||| (numPages8 - 1)) := by
  by_cases hptr : p.cwriterPtrAddress = 0
  · -- there is no memory for the indices, and nothing was set up
    rw [valItsInit, if_pos hptr] at hinit
    cases hinit
    cases hstart.symm.trans hdone
  · obtain ⟨-, s1, s2, hconf, hqueues, rfl⟩ := exists_of_valItsInit hptr hinit
    obtain ⟨hun, -⟩ := forEachIts_spec
      (fun i s s' hR h => ⟨setInitialConfiguration_spec i s s' hR h, trivial, fun _ _ _ => trivial⟩)
      ⟨rfl, rfl, rfl, fun _ => .inl rfl⟩ hconf
    obtain ⟨hun', hset, -⟩ := forEachIts_spec setQueueAndTables_spec hun hqueues
    refine ⟨⟨rfl, fun i hi => (hset i (mem_range.mpr hi)).1, fun i hi => ?_, fun i hi => ?_,
      fun i hi => ⟨Nat.zero_le _, ?_⟩⟩, fun i hi => ?_⟩
    · rw [hun'.ptr]
      exact if_pos hi
    · rw [hun'.cwriter]
      exact hreset i hi
    · exact Nat.mul_pos (succ_pos _) (by decide)
    · rw [queueSize, queueSize, (hset i (mem_range.mpr hi)).2]

/-- After the initialisation a run is right when all commands of each ITS fit into the memory
of its queue and below the size in `GITS_CBASER`. -/
theorem valItsInit_runOk_iff (hstart : s0.setupDone = false)
    (hreset : ∀ i < p.gicNumIts, announced (s0.cwriter i) = 0)
    (hinit : valItsInit p s0 = (0, s)) (hdone : s.setupDone = true) {calls : List Call}
    (hcalls : ∀ c ∈ calls, c.its < p.gicNumIts) :
    RunOk p s calls ↔ ∀ i < p.gicNumIts,
      32 * commandsFor i calls ≤ queueMemory ∧
        32 * commandsFor i calls < queueSize (s0.cbaser i ||| (numPages8 - 1)) := by
  obtain ⟨hcounted, hsize⟩ := counted_init hstart hreset hinit hdone
  rw [hcounted.runOk_iff hcalls]
  refine forall₂_congr fun i hi => ?_
  rw [Fits, hsize i hi, zero_add]

end

/-! ## One ITS -/

def oneIts : Platform where
  gicNumIts := 1
  gicdTyper := 15 <<< 19
  gitsTyper := fun _ => 15 <<< 8
  gicRdBase := 0x30080000
  gicrTyper := 0
  redistributorStatus := 0
  cwriterPtrAddress := 0x80000000
  commandQAddress := fun _ => 0x80010000
  itsTables := fun _ => some 0x80020000

def resetState : State where
  its := fun _ => ⟨0, 0, 0⟩
  cwriterPtr := fun _ => 0
  setupDone := false
  cbaser := fun _ => 0
  cwriter := fun _ => 0
  writes := []

def oneItsState : State := (valItsInit oneIts resetState).2

def oneCall (create : Bool) : Call := ⟨create, 0, 8, 0x203A, fun _ => 0⟩

theorem announced_resetState (i : Nat) (_ : i < oneIts.gicNumIts) :
    announced (resetState.cwriter i) = 0 := Nat.zero_div 32

theorem oneItsState_eq : valItsInit oneIts resetState = (0, oneItsState) := rfl

theorem oneItsState_runOk : RunOk oneIts oneItsState [oneCall true, oneCall false] := by
  refine (valItsInit_runOk_iff rfl announced_resetState oneItsState_eq rfl ?_).mpr ?_
  · intro c hc
    rcases mem_cons.mp hc with rfl | hc
    · decide
    · obtain rfl := mem_singleton.mp hc
      decide
  · intro i hi
    obtain rfl : i = 0 := Nat.lt_one_iff.mp hi
    decide

theorem commandsFor_replicate (i k : Nat) (c : Call) (hc : c.its = i) :
    commandsFor i (replicate k c) = k * c.commands := by
  induction k with
  | zero => exact (zero_mul _).symm
  | succ k ih => rw [replicate_succ, commandsFor, if_pos hc, ih, succ_mul, add_comm]

/-- The 205th mapping is written behind the queue. -/
theorem oneItsState_overflow : ¬ RunOk oneIts oneItsState (replicate 205 (oneCall true)) := by
  obtain ⟨hcounted, -⟩ := counted_init rfl announced_resetState oneItsState_eq rfl
  intro hrun
  have hcalls : ∀ c ∈ replicate 205 (oneCall true), c.its < oneIts.gicNumIts := by
    intro c hc
    rw [(mem_replicate.mp hc).2]
    decide
  have hfits := ((hcounted.runOk_iff hcalls).mp hrun 0 (by decide)).1
  rw [commandsFor_replicate 0 205 _ rfl] at hfits
  exact absurd hfits (by decide)

/-! ## A setup that has gone through -/

variable {p : Platform} {s s0 : State} {i : Nat}

/-- The size of interrupt identifiers that the distributor and the ITS share. -/
def commonIdbits (p : Platform) (i : Nat) : Nat :=
  getMin (armGicdTyperIdbits p.gicdTyper) (armGitsTyperIdbits (p.gitsTyper i))

def Configured (p : Platform) (i : Nat) (s : State) : Prop :=
  armLpiMinIdbits ≤ commonIdbits p i ∧ (s.its i).idBits = commonIdbits p i

def TablesSet (p : Platform) (i : Nat) (s : State) : Prop :=
  p.commandQAddress i ≠ 0 ∧ (s.its i).commandQBase = p.commandQAddress i ∧
    p.itsTables i = some (s.its i).ittBase

structure SetUp (p : Platform) (s : State) : Prop where
  configured : ∀ i < p.gicNumIts, Configured p i s
  redistributor : p.redistributorStatus = 0
  tables : ∀ i < p.gicNumIts, TablesSet p i s
  done : s.setupDone = true

theorem setInitialConfiguration_configured (i : Nat) (s s' : State)
    (h : setInitialConfiguration p i s = (0, s')) :
    Configured p i s' ∧ ∀ j, j ≠ i → Configured p j s → Configured p j s' := by
  rw [setInitialConfiguration] at h
  split_ifs at h with hmin
  · cases h
  · cases h
    refine ⟨⟨Nat.le_of_not_lt hmin, ?_⟩, fun j hj hc => ⟨hc.1, ?_⟩⟩
    · simp [commonIdbits]
    · simp [update_of_ne hj, hc.2]

theorem setQueueAndTables_set (i : Nat) (s s' : State)
    (hR : ∀ j < p.gicNumIts, Configured p j s) (h : setQueueAndTables p i s = (0, s')) :
    (∀ j < p.gicNumIts, Configured p j s') ∧ TablesSet p i s' ∧
      ∀ j, j ≠ i → TablesSet p j s → TablesSet p j s' := by
  rw [setQueueAndTables, armGicSetItsCommandQueueBase] at h
  by_cases haddr : p.commandQAddress i = 0
  · rw [if_pos haddr] at h
    cases h
  · rw [if_neg haddr, if_neg (not_not.mpr rfl), armGicSetItsTables] at h
    split at h
    · cases h
    · rename_i address htable
      cases h
      refine ⟨fun j hj => ⟨(hR j hj).1, ?_⟩, ⟨haddr, ?_, ?_⟩, fun j hj hs => ⟨hs.1, ?_⟩⟩
      · by_cases hji : j = i
        · subst hji
          simp [(hR j hj).2]
        · simp [update_of_ne hji, (hR j hj).2]
      · simp
      · simp [htable]
      · simp [update_of_ne hj, hs.2]

theorem setUp_of_valItsInit (hptr : p.cwriterPtrAddress ≠ 0) (hinit : valItsInit p s0 = (0, s)) :
    SetUp p s := by
  obtain ⟨hred, s1, s2, hfirst, hsecond, rfl⟩ := exists_of_valItsInit hptr hinit
  obtain ⟨-, hconf, -⟩ := forEachIts_spec
    (fun i s s' _ h => ⟨trivial, setInitialConfiguration_configured i s s' h⟩) trivial hfirst
  obtain ⟨hconf', hset, -⟩ := forEachIts_spec setQueueAndTables_set
    (fun i hi => hconf i (List.mem_range.mpr hi)) hsecond
  exact ⟨hconf', hred, fun i hi => hset i (List.mem_range.mpr hi), rfl⟩

end ServerSoc.Its
