/-
When commands are safe in the queue.

As long as the driver takes a slot only when the registers do not show a full queue, every command
waits unharmed in its slot, in every interleaving.
-/
import ServerSoc.Smmu.CmdQueue

namespace ServerSoc.Smmu.CmdQueue

open Base Function Nat

variable {q : CmdQueue} {s s' : QueueState}

/-! ## Words -/

theorem size_pos (q : CmdQueue) : 0 < q.size := Nat.two_pow_pos _

theorem two_mul_size (q : CmdQueue) : 2 ^ (q.log2nent + 1) = 2 * q.size := by
  rw [size, pow_succ, mul_comm]

theorem dwordAddr_eq (q : CmdQueue) (reg i : Nat) :
    q.dwordAddr reg i = q.base + reg % q.size * 16 + 8 * i := by
  rw [dwordAddr, one_shiftLeft, and_low, size]

theorem dwordAddr_shown (q : CmdQueue) (k i : Nat) :
    q.dwordAddr (k % (2 * q.size)) i = q.dwordAddr k i := by
  rw [dwordAddr_eq, dwordAddr_eq, Ring.shown_slot]

theorem smmuIncProd_shown (q : CmdQueue) (k : Nat) :
    smmuIncProd ⟨k % (2 * q.size), 0, q.log2nent⟩ = (k + 1) % (2 * q.size) := by
  have hdvd := Nat.pow_dvd_pow 2 q.log2nent_lt
  rw [smmuIncProd, one_shiftLeft, and_low, mod_mod_of_dvd _ hdvd, two_mul_size]
  simp

theorem and_wrapMask (x k : Nat) : x &&& 2 ^ k = x / 2 ^ k % 2 * 2 ^ k := by
  have h := and_mask x 1 k
  rw [shiftLeft_eq, shiftLeft_eq] at h
  simpa using h

/-- `smmu_queue_full` compares slots and turns. -/
theorem smmuQueueFull_iff (w : SmmuQueue) :
    smmuQueueFull w = true ↔ w.prod % 2 ^ w.log2nent = w.cons % 2 ^ w.log2nent ∧
      w.prod / 2 ^ w.log2nent % 2 ≠ w.cons / 2 ^ w.log2nent % 2 := by
  have hpos := Nat.two_pow_pos w.log2nent
  simp [smmuQueueFull, and_wrapMask, one_shiftLeft]

theorem smmuQueueEmpty_iff (w : SmmuQueue) :
    smmuQueueEmpty w = true ↔ w.prod % 2 ^ w.log2nent = w.cons % 2 ^ w.log2nent ∧
      ¬ smmuQueueFull w = true := by
  rw [smmuQueueFull_iff]
  have hpos := Nat.two_pow_pos w.log2nent
  simp only [smmuQueueEmpty, Bool.and_eq_true, beq_iff_eq, and_wrapMask, one_shiftLeft, and_low,
    Nat.mul_left_inj (Nat.pos_iff_ne_zero.mp hpos)]
  tauto

/-! ## Invariant -/

def Pending (q : CmdQueue) (s : QueueState) : Prop :=
  match s.driver with
  | .copy cmd prod i room => prod = s.prodReg ∧ room = true ∧
    s.written.length < s.consumed + q.size ∧
      ∀ j < i, s.mem (q.dwordAddr s.written.length j) = cmd.dword j
  | .writeProd cmd prod room => prod = (s.written.length + 1) % (2 * q.size) ∧ room = true ∧
      s.written.length < s.consumed + q.size ∧ q.slotAt s s.written.length = cmd
  | _ => True

structure Inv (q : CmdQueue) (s : QueueState) : Prop where
  prod : s.prodReg = s.written.length % (2 * q.size)
  cons : s.consReg = s.consumed % (2 * q.size)
  taken : s.consumed ≤ s.written.length
  safe : q.Safe s
  pending : Pending q s

/-- The poll has the producer index of now, and a consumer index from when there were at most as
many commands as slots behind it. -/
def Polling (q : CmdQueue) (s : QueueState) : Prop :=
  match s.driver with
  | .pollCons prod => prod = s.prodReg
  | .poll prod cons _ => prod = s.prodReg ∧
      ∃ c ≤ s.consumed, cons = c % (2 * q.size) ∧ s.written.length ≤ c + q.size
  | _ => True

theorem inv_start (q : CmdQueue) (mem : Nat → Nat) : Inv q (q.start mem) := by
  constructor
  · simp [start]
  · simp [start]
  · simp [start]
  · constructor <;> simp [start]
  · trivial

section

variable (h : Inv q s)
include h

theorem Inv.room_of_shown (hfull : smmuQueueFull (q.regs s) = false) :
    s.written.length < s.consumed + q.size := by
  have hbound := h.safe.bound
  by_contra hge
  have heq : s.written.length = s.consumed + q.size := by omega
  have hshown := (Ring.full_iff q.size_pos h.taken hbound).mpr heq
  have htrue : smmuQueueFull (q.regs s) = true := by
    rw [smmuQueueFull_iff]
    show s.prodReg % q.size = s.consReg % q.size ∧ s.prodReg / q.size % 2 ≠ s.consReg / q.size % 2
    rw [h.prod, h.cons, Ring.shown_slot, Ring.shown_slot, Ring.shown_turn, Ring.shown_turn]
    exact hshown
  rw [hfull] at htrue
  cases htrue

theorem Inv.move {d : Driver} (hd : Pending q { s with driver := d }) :
    Inv q { s with driver := d } :=
  ⟨h.prod, h.cons, h.taken, ⟨h.safe.bound, h.safe.kept, h.safe.fetched, h.safe.reported⟩, hd⟩

theorem Inv.fail (room : Bool) :
    Inv q { s with driver := .idle, outcomes := ⟨room, -1⟩ :: s.outcomes } := by
  refine ⟨h.prod, h.cons, h.taken, ⟨h.safe.bound, h.safe.kept, h.safe.fetched, ?_⟩, trivial⟩
  intro o ho hroom
  cases ho with
  | head => rfl
  | tail _ ho => exact h.safe.reported o ho hroom

/-! ## Steps -/

variable {cmd : Cmd}

theorem Inv.copy {i : Nat} (hroom : s.written.length < s.consumed + q.size) (hi : i < 2)
    (hpre : ∀ j < i, s.mem (q.dwordAddr s.written.length j) = cmd.dword j) :
    Inv q { s with
      mem := update s.mem (q.dwordAddr s.written.length i) (cmd.dword i)
      driver := .copy cmd s.prodReg (i + 1) true } := by
  refine ⟨h.prod, h.cons, h.taken, ⟨h.safe.bound, ?_, h.safe.fetched, h.safe.reported⟩,
    rfl, rfl, hroom, ?_⟩
  · intro k c hk hc
    replace hk : s.consumed ≤ k := hk
    have hlt : k < s.written.length := (List.getElem?_eq_some_iff.mp hc).1
    -- the slot of a waiting command is another one
    have hne : ∀ j < 2, q.dwordAddr k j ≠ q.dwordAddr s.written.length i := by
      intro j hj heq
      rw [dwordAddr_eq, dwordAddr_eq] at heq
      have hslot : k % q.size = s.written.length % q.size := by omega
      have hkw := Ring.slot_inj hk (by omega) h.taken hroom hslot
      omega
    rw [← h.safe.kept k c hk hc, slotAt, slotAt]
    simp [update_of_ne (hne 0 (by omega)), update_of_ne (hne 1 (by omega))]
  · intro j hj
    rcases Nat.lt_or_eq_of_le (le_of_lt_succ hj) with hlt | rfl
    · have hne : q.dwordAddr s.written.length j ≠ q.dwordAddr s.written.length i := by
        rw [dwordAddr_eq, dwordAddr_eq]
        omega
      show update s.mem _ _ _ = _
      rw [update_of_ne hne]
      exact hpre j hlt
    · exact update_self _ _ _

theorem Inv.publish (hroom : s.written.length < s.consumed + q.size)
    (hslot : q.slotAt s s.written.length = cmd) :
    Inv q { s with
      prodReg := (s.written.length + 1) % (2 * q.size)
      driver := .idle
      written := s.written ++ [cmd]
      outcomes := ⟨true, 0⟩ :: s.outcomes } := by
  have hlen : (s.written ++ [cmd]).length = s.written.length + 1 := by simp
  have htaken := h.taken
  refine ⟨?_, h.cons, ?_, ⟨?_, ?_, ?_, ?_⟩, trivial⟩
  · rw [hlen]
  · show s.consumed ≤ (s.written ++ [cmd]).length
    omega
  · show (s.written ++ [cmd]).length ≤ s.consumed + q.size
    omega
  · intro k c hk hc
    show q.slotAt s k = c
    replace hc : (s.written ++ [cmd])[k]? = some c := hc
    by_cases hlt : k < s.written.length
    · rw [List.getElem?_append_left hlt] at hc
      exact h.safe.kept k c hk hc
    · have hkl := (List.getElem?_eq_some_iff.mp hc).1
      have hkeq : k = s.written.length := by omega
      rw [hkeq, List.getElem?_concat_length] at hc
      rw [hkeq, hslot]
      exact Option.some_inj.mp hc
  · rw [List.take_append_of_le_length htaken]
    exact h.safe.fetched
  · intro o ho hr
    cases ho with
    | head => cases hr
    | tail _ ho => exact h.safe.reported o ho hr

theorem Inv.consume (hne : s.prodReg ≠ s.consReg) :
    Inv q { s with
      consReg := (s.consReg + 1) % 2 ^ (q.log2nent + 1)
      fetched := s.fetched ++ [q.slotAt s s.consReg]
      consumed := s.consumed + 1 } := by
  have hlt : s.consumed < s.written.length := by
    have htaken := h.taken
    have hiff := Ring.empty_iff q.size_pos h.taken h.safe.bound
    rw [← h.prod, ← h.cons] at hiff
    omega
  have hbound := h.safe.bound
  refine ⟨h.prod, ?_, hlt, ⟨?_, ?_, ?_, h.safe.reported⟩, ?_⟩
  · rw [two_mul_size, h.cons, mod_add_mod]
  · show s.written.length ≤ s.consumed + 1 + q.size
    omega
  · intro k c hk hc
    exact h.safe.kept k c (le_of_succ_le hk) hc
  · have hget := List.getElem?_eq_getElem hlt
    have hkept := h.safe.kept s.consumed _ le_rfl hget
    rw [h.cons, slotAt, dwordAddr_shown, dwordAddr_shown, ← slotAt, hkept, h.safe.fetched,
      List.take_add_one, hget]
    rfl
  · have hpend := h.pending
    revert hpend
    unfold Pending
    cases hd : s.driver with
    | copy cmd prod i room =>
      intro hp
      refine ⟨hp.1, hp.2.1, ?_, hp.2.2.2⟩
      show s.written.length < s.consumed + 1 + q.size
      omega
    | writeProd cmd prod room =>
      intro hp
      refine ⟨hp.1, hp.2.1, ?_, hp.2.2.2⟩
      show s.written.length < s.consumed + 1 + q.size
      omega
    | _ => exact fun _ => trivial

theorem Inv.stepDriver (hok : q.RoomShown s .driver) (hs : q.stepDriver s = some s') :
    Inv q s' := by
  have hpend := h.pending
  have hroom := hok rfl
  cases hd : s.driver with
  | idle =>
    simp only [CmdQueue.stepDriver, hd] at hs
    cases hs
  | full cmd timeout =>
    simp only [CmdQueue.stepDriver, hd] at hs
    split at hs
    · cases hs
      exact h.move trivial
    · split at hs
      · cases hs
        exact h.fail _
      · cases hs
        exact h.move trivial
  | readProd cmd =>
    simp only [CmdQueue.stepDriver, hd] at hs
    rw [hd] at hroom
    have hlt := h.room_of_shown (hroom rfl)
    have hr : q.room s = true := by simpa [room] using hlt
    rw [hr] at hs
    cases hs
    apply h.move
    refine ⟨rfl, rfl, hlt, ?_⟩
    omega
  | copy cmd prod i room =>
    simp only [CmdQueue.stepDriver, hd] at hs
    simp only [Pending, hd] at hpend
    obtain ⟨rfl, rfl, hlt, hpre⟩ := hpend
    split_ifs at hs with hi
    · rw [h.prod, dwordAddr_shown, ← h.prod] at hs
      cases hs
      exact h.copy hlt hi hpre
    · replace hi : ¬ i < 2 := hi
      cases hs
      apply h.move
      refine ⟨?_, rfl, hlt, ?_⟩
      · rw [h.prod]
        exact smmuIncProd_shown q _
      · rw [slotAt, hpre 0 (by omega), hpre 1 (by omega)]
        rfl
  | writeProd cmd prod room =>
    simp only [CmdQueue.stepDriver, hd] at hs
    simp only [Pending, hd] at hpend
    obtain ⟨rfl, rfl, hlt, hslot⟩ := hpend
    cases hs
    exact h.publish hlt hslot
  | pollProd =>
    simp only [CmdQueue.stepDriver, hd] at hs
    cases hs
    exact h.move trivial
  | pollCons prod =>
    simp only [CmdQueue.stepDriver, hd] at hs
    cases hs
    exact h.move trivial
  | poll prod cons timeout =>
    simp only [CmdQueue.stepDriver, hd] at hs
    split at hs <;> cases hs <;> exact h.move trivial

theorem Inv.step {a : QueueAction} (hok : q.RoomShown s a)
    (hs : q.step s a = some s') : Inv q s' := by
  cases a with
  | issue opcode =>
    simp only [CmdQueue.step] at hs
    split at hs
    · rename_i hidle
      split at hs
      · cases hs
        have hfail := h.fail (q.room s)
        rwa [← hidle] at hfail
      · cases hs
        exact h.move trivial
    · cases hs
  | pollUntilConsumed =>
    simp only [CmdQueue.step] at hs
    split at hs
    · cases hs
      exact h.move trivial
    · cases hs
  | driver => exact h.stepDriver hok hs
  | smmu =>
    simp only [CmdQueue.step] at hs
    split at hs
    · cases hs
    · rename_i hne
      cases hs
      exact h.consume hne

theorem Inv.polling (hp : Polling q s) {a : QueueAction} (hs : q.step s a = some s') :
    Polling q s' := by
  unfold Polling at hp
  cases a with
  | issue opcode =>
    simp only [CmdQueue.step] at hs
    split at hs
    · split at hs
      · cases hs
        exact hp
      · cases hs
        trivial
    · cases hs
  | pollUntilConsumed =>
    simp only [CmdQueue.step] at hs
    split at hs
    · cases hs
      trivial
    · cases hs
  | driver =>
    simp only [CmdQueue.step, CmdQueue.stepDriver] at hs
    split at hs <;> rename_i hd <;> rw [hd] at hp
    · cases hs
    · split_ifs at hs <;> cases hs <;> trivial
    · cases hs
      trivial
    · split_ifs at hs <;> cases hs <;> trivial
    · cases hs
      trivial
    · cases hs
      rfl
    · cases hs
      exact ⟨hp, s.consumed, le_rfl, h.cons, h.safe.bound⟩
    · split_ifs at hs
      · cases hs
        exact ⟨hp.1, s.consumed, le_rfl, h.cons, h.safe.bound⟩
      · cases hs
        trivial
  | smmu =>
    simp only [CmdQueue.step] at hs
    split at hs
    · cases hs
    · cases hs
      cases hd : s.driver with
      | poll prod cons timeout =>
        rw [hd] at hp
        obtain ⟨hprod, c, hc, hrest⟩ := hp
        exact ⟨hprod, c, le_succ_of_le hc, hrest⟩
      | pollCons prod =>
        rw [hd] at hp
        exact hp
      | _ => trivial

/-! ## Runs -/

end

def issueActions (opcode : Nat) : List QueueAction := .issue opcode :: List.replicate 6 .driver

def smmuTlbiCfgi (hyp : Bool) : List Nat :=
  [cmdqOpCfgiAll] ++ (if hyp then [cmdqOpTlbiEl2All] else []) ++ [cmdqOpTlbiNsnhAll, cmdqOpCmdSync]

def twoSlots : CmdQueue := ⟨0x1000, 1, by decide⟩

/-- In every interleaving in which the driver takes a slot only when the registers do not
show a full queue, every state reached is safe. -/
theorem smmuCmdqWriteCmd_safe (q : CmdQueue) (mem : Nat → Nat)
    (h : Reaches q.step q.RoomShown (q.start mem) s) : q.Safe s :=
  (h.invariant (inv_start q mem) (fun _ _ _ hi hok hs => hi.step hok hs)).safe

theorem smmuCmdqWriteCmd_safe_one :
    let run := runList twoSlots.step twoSlots.RoomShown (twoSlots.start (fun _ => 0))
      (issueActions cmdqOpCfgiAll ++ [.smmu])
    (∃ s, run = some s ∧ s.consumed = 1) ∧ ∀ s, run = some s → twoSlots.Safe s :=
  ⟨⟨_, rfl, rfl⟩, fun _ hs => smmuCmdqWriteCmd_safe twoSlots _ (reaches_of_runList hs)⟩

/-- In the same interleavings `smmu_cmdq_poll_until_consumed` takes the queue for empty only when
the SMMU has taken every command, as it was written. -/
theorem smmuCmdqPollUntilConsumed_sound (q : CmdQueue) (mem : Nat → Nat)
    (h : Reaches q.step q.RoomShown (q.start mem) s) {prod cons timeout : Nat}
    (hd : s.driver = .poll prod cons timeout)
    (hempty : smmuQueueEmpty ⟨prod, cons, q.log2nent⟩ = true) : s.fetched = s.written := by
  obtain ⟨hinv, hpoll⟩ : Inv q s ∧ Polling q s := by
    apply h.invariant
    · exact ⟨inv_start q mem, trivial⟩
    · exact fun _ _ _ hi hok hs => ⟨hi.1.step hok hs, hi.1.polling hi.2 hs⟩
  unfold Polling at hpoll
  rw [hd] at hpoll
  obtain ⟨rfl, c, hc, rfl, hroom⟩ := hpoll
  have hle := hc.trans hinv.taken
  have hpos := q.size_pos
  obtain ⟨hslot, hturn⟩ := (smmuQueueEmpty_iff _).mp hempty
  rw [smmuQueueFull_iff] at hturn
  change s.prodReg % q.size = c % (2 * q.size) % q.size at hslot
  change ¬ (s.prodReg % q.size = c % (2 * q.size) % q.size ∧
    s.prodReg / q.size % 2 ≠ c % (2 * q.size) / q.size % 2) at hturn
  rw [hinv.prod, Ring.shown_slot, Ring.shown_slot] at hslot hturn
  rw [Ring.shown_turn, Ring.shown_turn, Ring.full_iff hpos hle hroom] at hturn
  have hall := Ring.slot_inj hle (by omega) le_rfl (by omega) hslot
  rw [hinv.safe.fetched, List.take_of_length_le (by omega)]

theorem smmuCmdqPollUntilConsumed_sound_one :
    let run := runList twoSlots.step twoSlots.RoomShown (twoSlots.start (fun _ => 0))
      (issueActions cmdqOpCfgiAll ++ [.smmu, .pollUntilConsumed, .driver, .driver])
    (∃ s, run = some s ∧ s.fetched.length = 1) ∧ ∀ s, run = some s → s.fetched = s.written := by
  refine ⟨⟨_, rfl, rfl⟩, fun s hs => ?_⟩
  have hd : s.driver = .poll 1 1 smmuCmdqPollTimeout := by
    cases hs
    rfl
  exact smmuCmdqPollUntilConsumed_sound twoSlots _ (reaches_of_runList hs) hd (by decide)

/-- The last two of four commands go over the first two, and all calls return 0. -/
theorem smmuTlbiCfgi_overwrites :
    ∃ s, runList twoSlots.step (fun _ _ => True) (twoSlots.start (fun _ => 0))
        ((smmuTlbiCfgi true).flatMap issueActions) = some s ∧
      s.written.length = 4 ∧ s.consumed = 0 ∧ s.outcomes.map Outcome.ret = [0, 0, 0, 0] ∧
      s.written[0]? = smmuCmdqBuildCmd cmdqOpCfgiAll ∧
      smmuCmdqBuildCmd cmdqOpTlbiNsnhAll = some (twoSlots.slotAt s 0) := by
  decide

/-! ## The indices against counters -/

/-- After `produced` entries put into and `consumed` entries taken from a queue whose indices were
both `start`, never into a full queue nor from an empty one. -/
inductive Counts (start log2nent : Nat) : Nat → Nat → SmmuQueue → Prop
  | init : Counts start log2nent 0 0 ⟨start, start, log2nent⟩
  | produce {produced consumed w} (h : Counts start log2nent produced consumed w)
      (hroom : produced < consumed + 2 ^ log2nent) :
      Counts start log2nent (produced + 1) consumed { w with prod := smmuIncProd w }
  | consume {produced consumed w} (h : Counts start log2nent produced consumed w)
      (hmore : consumed < produced) :
      Counts start log2nent produced (consumed + 1) { w with cons := smmuIncCons w }

variable {start log2nent produced consumed : Nat} {w : SmmuQueue}

theorem Counts.bounds (h : Counts start log2nent produced consumed w) :
    w.log2nent = log2nent ∧ consumed ≤ produced ∧ produced ≤ consumed + 2 ^ log2nent := by
  induction h with
  | init => exact ⟨rfl, le_rfl, Nat.zero_le _⟩
  | produce h hroom ih => exact ⟨ih.1, by omega, by omega⟩
  | consume h hmore ih => exact ⟨ih.1, by omega, by omega⟩

theorem Counts.shown (hsize : log2nent ≤ 19) (h : Counts start log2nent produced consumed w) :
    w.prod ≡ start + produced [MOD 2 * 2 ^ log2nent] ∧
      w.cons ≡ start + consumed [MOD 2 * 2 ^ log2nent] := by
  have hinc :
      ∀ k, (k + 1) % 2 ^ 32 &&& 1 <<< (log2nent + 1) - 1 ≡ k + 1 [MOD 2 * 2 ^ log2nent] := by
    intro k
    have hdvd : 2 ^ (log2nent + 1) ∣ 2 ^ 32 := Nat.pow_dvd_pow 2 (by omega)
    rw [one_shiftLeft, and_low, mod_mod_of_dvd _ hdvd, pow_succ' 2 log2nent]
    exact mod_modEq _ _
  induction h with
  | init => exact ⟨rfl, rfl⟩
  | @produce _ _ w h _ ih =>
    refine ⟨?_, ih.2⟩
    rw [smmuIncProd, h.bounds.1]
    exact (hinc _).trans (ih.1.add_right 1)
  | @consume _ _ w h _ ih =>
    refine ⟨ih.1, ?_⟩
    rw [smmuIncCons, h.bounds.1]
    exact (hinc _).trans (ih.2.add_right 1)

/-- The wrap bit tells an empty queue from a full one at every length of the history, and each side
goes through the slots one by one. -/
theorem smmuQueue_counts (hsize : log2nent ≤ 19) (h : Counts start log2nent produced consumed w) :
    (smmuQueueEmpty w = true ↔ consumed = produced) ∧
      (smmuQueueFull w = true ↔ produced = consumed + 2 ^ log2nent) ∧
      w.prod &&& 1 <<< log2nent - 1 = (start + produced) % 2 ^ log2nent ∧
      w.cons &&& 1 <<< log2nent - 1 = (start + consumed) % 2 ^ log2nent := by
  obtain ⟨hlog, htaken, hroom⟩ := h.bounds
  obtain ⟨hprod, hcons⟩ := h.shown hsize
  have hpos := Nat.two_pow_pos log2nent
  have slot : ∀ {x y}, x ≡ y [MOD 2 * 2 ^ log2nent] → x % 2 ^ log2nent = y % 2 ^ log2nent :=
    fun hxy => by rw [← Ring.shown_slot, hxy, Ring.shown_slot]
  have turn : ∀ {x y}, x ≡ y [MOD 2 * 2 ^ log2nent] →
      x / 2 ^ log2nent % 2 = y / 2 ^ log2nent % 2 :=
    fun hxy => by rw [← Ring.shown_turn, hxy, Ring.shown_turn]
  have hfull : smmuQueueFull w = true ↔ produced = consumed + 2 ^ log2nent := by
    rw [smmuQueueFull_iff, hlog, slot hprod, slot hcons, turn hprod, turn hcons,
      Ring.full_iff hpos (by omega) (by omega)]
    omega
  refine ⟨?_, hfull, ?_, ?_⟩
  · rw [smmuQueueEmpty_iff, hfull, hlog, slot hprod, slot hcons]
    constructor
    · rintro ⟨hslot, hnot⟩
      have := Ring.slot_inj (by omega) (by omega) le_rfl (by omega) hslot
      omega
    · rintro rfl
      exact ⟨rfl, by omega⟩
  · rw [one_shiftLeft, and_low, slot hprod]
  · rw [one_shiftLeft, and_low, slot hcons]

/-- A queue of four is full, and then again behind the first entry, with the index wrapped. -/
theorem smmuQueue_counts_wrapped :
    smmuQueueFull ⟨3, 7, 2⟩ = true ∧ (smmuQueueFull ⟨3, 7, 2⟩ = true ↔ 5 = 1 + 2 ^ 2) := by
  have h1 : Counts 6 2 1 0 ⟨7, 6, 2⟩ := .produce .init (by decide)
  have h2 : Counts 6 2 2 0 ⟨0, 6, 2⟩ := .produce h1 (by decide)
  have h3 : Counts 6 2 3 0 ⟨1, 6, 2⟩ := .produce h2 (by decide)
  have h4 : Counts 6 2 4 0 ⟨2, 6, 2⟩ := .produce h3 (by decide)
  have h5 : Counts 6 2 5 1 ⟨3, 7, 2⟩ := .produce (.consume h4 (by decide)) (by decide)
  exact ⟨by decide, (smmuQueue_counts (by decide) h5).2.1⟩

end ServerSoc.Smmu.CmdQueue
