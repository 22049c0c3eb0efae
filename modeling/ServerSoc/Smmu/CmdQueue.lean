/-
The command queue of an SMMU (smmu_v3.c).

The SMMU takes commands at `CMDQ_CONS`, when it likes or never.  The driver looks for room in
`cmdq->queue`, which is set once in `smmu_cmd_queue_init` and never again, so the check never
finds the queue full.  An action is one access of the driver to a register or to a slot, or one
command taken by the SMMU.
-/
import ServerSoc.Base.Bits
import ServerSoc.Base.Ring
import ServerSoc.Base.Run

namespace ServerSoc.Smmu

open Base

/-! ## Indices -/

structure SmmuQueue where
  prod : Nat
  cons : Nat
  log2nent : Nat
  deriving DecidableEq, Repr

def smmuIncProd (q : SmmuQueue) : Nat := (q.prod + 1) % 2 ^ 32 &&& 1 <<< (q.log2nent + 1) - 1

def smmuIncCons (q : SmmuQueue) : Nat := (q.cons + 1) % 2 ^ 32 &&& 1 <<< (q.log2nent + 1) - 1

def smmuQueueFull (q : SmmuQueue) : Bool :=
  let indexMask := 1 <<< q.log2nent - 1
  let wrapMask := 1 <<< q.log2nent
  q.prod &&& indexMask == q.cons &&& indexMask && q.prod &&& wrapMask != q.cons &&& wrapMask

def smmuQueueEmpty (q : SmmuQueue) : Bool :=
  let indexMask := 1 <<< q.log2nent - 1
  let wrapMask := 1 <<< q.log2nent
  q.prod &&& indexMask == q.cons &&& indexMask && q.prod &&& wrapMask == q.cons &&& wrapMask

/-! ## Commands -/

def cmdqDwordsPerEnt : Nat := 2

def cmdq0Op (v : Nat) : Nat := setField 8 0 v
def cmdqCfgi1Range (v : Nat) : Nat := setField 5 0 v
def cmdqCfgi1AllStes : Nat := 31

def cmdqOpCfgiAll : Nat := 0x4
def cmdqOpTlbiEl2All : Nat := 0x20
def cmdqOpTlbiNsnhAll : Nat := 0x30
def cmdqOpCmdSync : Nat := 0x46

structure Cmd where
  dword0 : Nat
  dword1 : Nat
  deriving DecidableEq, Repr

def Cmd.dword (cmd : Cmd) (i : Nat) : Nat := if i = 0 then cmd.dword0 else cmd.dword1

/-- `none` is the return value -1. -/
def smmuCmdqBuildCmd (opcode : Nat) : Option Cmd :=
  if opcode = cmdqOpTlbiEl2All ∨ opcode = cmdqOpTlbiNsnhAll ∨ opcode = cmdqOpCmdSync then
    some ⟨cmdq0Op opcode, 0⟩
  else if opcode = cmdqOpCfgiAll then
    some ⟨cmdq0Op opcode, cmdqCfgi1Range cmdqCfgi1AllStes⟩
  else none

def smmuCmdqPollTimeout : Nat := 0x100000

/-! ## Driver and SMMU -/

/-- Where the queue is and how large.  `CMDQS` of `SMMU_IDR1` has five bits. -/
structure CmdQueue where
  base : Nat
  log2nent : Nat
  log2nent_lt : log2nent < 32

inductive Driver where
  | idle
  /-- the loop of `smmu_cmdq_write_cmd` while the queue is full -/
  | full (cmd : Cmd) (timeout : Nat)
  | readProd (cmd : Cmd)
  /-- the loop over the dwords, and the write of the register; `room` says whether a slot
  was free -/
  | copy (cmd : Cmd) (prod i : Nat) (room : Bool)
  | writeProd (cmd : Cmd) (prod : Nat) (room : Bool)
  /-- `smmu_cmdq_poll_until_consumed` -/
  | pollProd
  | pollCons (prod : Nat)
  | poll (prod cons timeout : Nat)
  deriving DecidableEq, Repr

def Driver.takesSlot : Driver → Bool
  | .readProd _ => true
  | _ => false

/-- What `smmu_cmdq_issue_cmd` returned, and whether a slot was free for the command. -/
structure Outcome where
  room : Bool
  ret : Int
  deriving DecidableEq, Repr

/-- The last four fields record what happened: the commands written, how many of them the
SMMU has taken, what it found in their slots, and what the driver returned. -/
structure QueueState where
  prodReg : Nat
  consReg : Nat
  mem : Nat → Nat
  queue : SmmuQueue
  driver : Driver
  written : List Cmd
  consumed : Nat
  fetched : List Cmd
  outcomes : List Outcome

inductive QueueAction where
  /-- the driver begins a call of `smmu_cmdq_issue_cmd` or of the poll, or goes on -/
  | issue (opcode : Nat)
  | pollUntilConsumed
  | driver
  /-- the SMMU takes a command -/
  | smmu
  deriving DecidableEq, Repr

namespace CmdQueue

variable (q : CmdQueue)

def size : Nat := 2 ^ q.log2nent

def dwordAddr (reg i : Nat) : Nat := q.base + (reg &&& 1 <<< q.log2nent - 1) * 16 + 8 * i

def slotAt (s : QueueState) (reg : Nat) : Cmd :=
  ⟨s.mem (q.dwordAddr reg 0), s.mem (q.dwordAddr reg 1)⟩

def room (s : QueueState) : Bool := s.written.length < s.consumed + q.size

def regs (s : QueueState) : SmmuQueue := ⟨s.prodReg, s.consReg, q.log2nent⟩

def stepDriver (s : QueueState) : Option QueueState :=
  match s.driver with
  | .idle => none
  | .full cmd timeout =>
    if smmuQueueFull s.queue ∧ timeout ≠ 0 then some { s with driver := .full cmd (timeout - 1) }
    else if timeout = 0 then
      some { s with driver := .idle, outcomes := ⟨q.room s, -1⟩ :: s.outcomes }
    else some { s with driver := .readProd cmd }
  | .readProd cmd => some { s with driver := .copy cmd s.prodReg 0 (q.room s) }
  | .copy cmd prod i room =>
    if i < cmdqDwordsPerEnt then
      some { s with
        mem := Function.update s.mem (q.dwordAddr prod i) (cmd.dword i)
        driver := .copy cmd prod (i + 1) room }
    else some { s with driver := .writeProd cmd (smmuIncProd ⟨prod, 0, q.log2nent⟩) room }
  | .writeProd cmd prod room =>
    some { s with
      prodReg := prod
      driver := .idle
      written := s.written ++ [cmd]
      outcomes := ⟨room, 0⟩ :: s.outcomes }
  | .pollProd => some { s with driver := .pollCons s.prodReg }
  | .pollCons prod => some { s with driver := .poll prod s.consReg smmuCmdqPollTimeout }
  | .poll prod cons timeout =>
    if 0 < timeout ∧ ¬ smmuQueueEmpty ⟨prod, cons, q.log2nent⟩ then
      some { s with driver := .poll prod s.consReg (timeout - 1) }
    else some { s with driver := .idle }

def step (s : QueueState) : QueueAction → Option QueueState
  | .issue opcode =>
    if s.driver = .idle then
      match smmuCmdqBuildCmd opcode with
      | none => some { s with outcomes := ⟨q.room s, -1⟩ :: s.outcomes }
      | some cmd => some { s with driver := .full cmd smmuCmdqPollTimeout }
    else none
  | .pollUntilConsumed => if s.driver = .idle then some { s with driver := .pollProd } else none
  | .driver => q.stepDriver s
  | .smmu =>
    -- the SMMU sees an empty queue where the registers are equal
    if s.prodReg = s.consReg then none
    else some { s with
      consReg := (s.consReg + 1) % 2 ^ (q.log2nent + 1)
      fetched := s.fetched ++ [q.slotAt s s.consReg]
      consumed := s.consumed + 1 }

def start (mem : Nat → Nat) : QueueState where
  prodReg := 0
  consReg := 0
  mem := mem
  queue := ⟨0, 0, q.log2nent⟩
  driver := .idle
  written := []
  consumed := 0
  fetched := []
  outcomes := []

/-- No more commands wait than there are slots, none of them is overwritten, the SMMU
finds what was written, and a command without a slot is an error. -/
structure Safe (s : QueueState) : Prop where
  bound : s.written.length ≤ s.consumed + q.size
  kept : ∀ k cmd, s.consumed ≤ k → s.written[k]? = some cmd → q.slotAt s k = cmd
  fetched : s.fetched = s.written.take s.consumed
  reported : ∀ o ∈ s.outcomes, o.room = false → o.ret = -1

def RoomShown (s : QueueState) (a : QueueAction) : Prop :=
  a = .driver → s.driver.takesSlot = true → smmuQueueFull (q.regs s) = false

instance (s : QueueState) (a : QueueAction) : Decidable (q.RoomShown s a) :=
  inferInstanceAs (Decidable (_ → _ → _))

end CmdQueue

end ServerSoc.Smmu
