/-
The redistributor that the commands of a call name.

`GetRDBaseFormat` returns 64 bits, and `WriteCmdQMAPC` and `WriteCmdQSYNC` take 32 of them.  A
processor number is below bit 32.  The address of a frame above 4 GB is cut, and the commands
then name another frame.
-/
import ServerSoc.Its.Commands
import ServerSoc.Its.QueueBounds

namespace ServerSoc.Its

open Base List Nat

abbrev Words : Type := Nat × Nat × Nat × Nat

def groups : List Write → List Words
  | w0 :: w1 :: w2 :: w3 :: rest => (w0.value, w1.value, w2.value, w3.value) :: groups rest
  | _ => []

def Words.opcode (w : Words) : Nat := w.1 % 2 ^ 8
def Words.icid (w : Words) : Nat := w.2.2.1 % 2 ^ 16
def Words.rdBase (w : Words) : Nat := w.2.2.1 / 2 ^ 16 % 2 ^ 36

/-- `GITS_TYPER.PTA`: redistributors are named by their address. -/
def Pta (p : Platform) (i : Nat) : Prop := (p.gitsTyper i).testBit 19 = true

instance (p : Platform) (i : Nat) : Decidable (Pta p i) := inferInstanceAs (Decidable (_ = _))

/-- How an ITS names the redistributor `GicRdBase`: by its 64 KB frame or by its
`GICR_TYPER.Processor_Number`. -/
def rdName (p : Platform) (i : Nat) : Nat :=
  if Pta p i then p.gicRdBase / 2 ^ 16 else p.gicrTyper / 2 ^ 8 % 2 ^ 16

structure Targets (p : Platform) (i : Nat) (l : List Words) : Prop where
  redistributor : ∀ w ∈ l, w.opcode = armItsCmdMapc ∨ w.opcode = armItsCmdSync →
    w.rdBase = rdName p i
  collection : l.IsChain (fun w w' => w.opcode = armItsCmdMapc →
    w'.opcode = armItsCmdMapi ∧ w'.icid = w.icid)

variable {p : Platform} {s : State} {c : Call}

theorem getRdBaseFormat_eq (p : Platform) (i : Nat) :
    getRdBaseFormat p i = if Pta p i then p.gicRdBase
      else p.gicrTyper / 2 ^ 8 % 2 ^ 16 * 2 ^ 16 := by
  have hpta : p.gitsTyper i &&& armGitsTyperPta ≠ 0 ↔ Pta p i := by
    rw [armGitsTyperPta, one_shiftLeft, and_two_pow, Pta]
    cases (p.gitsTyper i).testBit 19 with
    | false => simp
    | true => simp
  have hnumber : (p.gicrTyper &&& armGicrTyperPnMask) >>> armGicrTyperPnShift =
      p.gicrTyper / 2 ^ 8 % 2 ^ 16 := by
    rw [show armGicrTyperPnMask = (2 ^ 16 - 1) <<< 8 from rfl, and_mask]
    exact shiftLeft_shiftRight _ 8
  rw [getRdBaseFormat, hnumber, rdBaseShift, shiftLeft_eq, if_congr hpta rfl rfl]

/-- What is left of `RDBase` names the redistributor when an address is below 4 GB. -/
theorem rdBase_cut_iff (hal : p.gicRdBase % 2 ^ 16 = 0) (i : Nat) :
    getRdBaseFormat p i % 2 ^ 16 = 0 ∧
      (getRdBaseFormat p i % 2 ^ 32 / 2 ^ 16 = rdName p i ↔ (Pta p i → p.gicRdBase < 2 ^ 32)) := by
  rw [getRdBaseFormat_eq, rdName]
  split_ifs with h
  · rw [forall_prop_of_true h]
    omega
  · rw [iff_true_right (fun hp => absurd hp h)]
    omega

section

variable {i : Nat} {a b c d e : Words} (hb : b.opcode = armItsCmdMapd)
    (he : e.opcode = armItsCmdSync)

include hb he

theorem targets_clear (ha : a.opcode = armItsCmdDiscard) :
    Targets p i [a, b, e] ↔ e.rdBase = rdName p i := by
  refine ⟨fun h => h.redistributor e (by simp) (.inr he), fun h => ⟨?_, ?_⟩⟩
  · simp [ha, hb, h, armItsCmdDiscard, armItsCmdMapd, armItsCmdMapc, armItsCmdSync]
  · simp [ha, hb, armItsCmdDiscard, armItsCmdMapd, armItsCmdMapc]

theorem targets_create (hc : c.opcode = armItsCmdMapi) (hd : d.opcode = armItsCmdInv)
    (hcol : c.icid = a.icid) (heq : a.rdBase = e.rdBase) :
    Targets p i [b, a, c, d, e] ↔ e.rdBase = rdName p i := by
  refine ⟨fun h => h.redistributor e (by simp) (.inr he), fun h => ⟨?_, ?_⟩⟩
  · simp [hb, hc, hd, heq, h, armItsCmdMapd, armItsCmdMapc, armItsCmdMapi, armItsCmdInv,
      armItsCmdSync]
  · simp [hb, hc, hd, hcol, armItsCmdMapd, armItsCmdMapc, armItsCmdMapi, armItsCmdInv]

end

/-- The last command of a call is a `SYNC`, and it names what the `MAPC` before it does. -/
theorem targets_run (hal : getRdBaseFormat p c.its % 2 ^ 16 = 0) (hdone : s.setupDone = true) :
    Targets p c.its (groups ((c.run p s).writes.drop s.writes.length)) ↔
      getRdBaseFormat p c.its % 2 ^ 32 / 2 ^ 16 = rdName p c.its := by
  have hop {op : Nat} (h : op < 2 ^ 8) := (first_word c.deviceId op h).1
  have hset : ¬ s.setupDone = false := by simp [hdone]
  have hsync : Words.rdBase (armItsCmdSync, 0, getRdBaseFormat p c.its % 2 ^ 32, 0) =
      getRdBaseFormat p c.its % 2 ^ 32 / 2 ^ 16 := by
    show getRdBaseFormat p c.its % 2 ^ 32 / 2 ^ 16 % 2 ^ 36 = _
    omega
  rw [Call.run, ← hsync]
  cases c.create with
  | true =>
    simp only [if_true, valItsCreateLpiMap, if_neg hset, updateCwriter, writeCmdQSync, writeCmdQInv,
      writeCmdQMapi, writeCmdQMapc, writeCmdQMapd, writeCmd, append_assoc, drop_left, mapc_word hal]
    refine targets_create (hop (by decide)) rfl (hop (by decide)) (hop (by decide)) ?_ ?_
    · show 1 % 2 ^ 16 = (2 ^ 63 + (getRdBaseFormat p c.its % 2 ^ 32 + 1)) % 2 ^ 16
      omega
    · rw [hsync]
      show (2 ^ 63 + (getRdBaseFormat p c.its % 2 ^ 32 + 1)) / 2 ^ 16 % 2 ^ 36 = _
      omega
  | false =>
    simp only [Bool.false_eq_true, if_false, valItsClearLpiMap, if_neg hset, updateCwriter,
      writeCmdQSync, writeCmdQDiscard, writeCmdQMapd, writeCmd, append_assoc, drop_left]
    exact targets_clear (hop (by decide)) rfl (hop (by decide))

theorem Call.targets_iff (hal : p.gicRdBase % 2 ^ 16 = 0) (c : Call) :
    Targets p c.its (groups ((c.run p s).writes.drop s.writes.length)) ↔
      (s.setupDone = true → Pta p c.its → p.gicRdBase < 2 ^ 32) := by
  obtain ⟨halign, hiff⟩ := rdBase_cut_iff hal c.its
  by_cases hdone : s.setupDone = true
  · rw [forall_prop_of_true hdone, ← hiff, targets_run halign hdone]
  · have hnone : groups ((c.run p s).writes.drop s.writes.length) = [] := by
      rw [Call.run, valItsCreateLpiMap, valItsClearLpiMap, if_pos (Bool.eq_false_iff.mpr hdone),
        if_pos (Bool.eq_false_iff.mpr hdone), ite_self, drop_length]
      rfl
    rw [hnone, iff_true_right (fun h => absurd h hdone)]
    exact ⟨fun _ h => absurd h not_mem_nil, .nil⟩

def nearIts : Platform :=
  { oneIts with gitsTyper := fun _ => 15 <<< 8 ||| armGitsTyperPta, gicRdBase := 0x30080000 }

theorem nearIts_targets :
    Targets nearIts 0 (groups (((oneCall true).run nearIts oneItsState).writes.drop 0)) :=
  (Call.targets_iff (s := oneItsState) (by decide) (oneCall true)).mpr (by decide)

def farIts : Platform := { nearIts with gicRdBase := 0x8030080000 }

theorem farIts_not_targets :
    ¬ Targets farIts 0 (groups (((oneCall false).run farIts oneItsState).writes.drop 0)) := by
  intro h
  have hsync := h.redistributor (armItsCmdSync, 0, 0x30080000, 0) (by decide) (.inr rfl)
  exact absurd hsync (by decide)

end ServerSoc.Its
