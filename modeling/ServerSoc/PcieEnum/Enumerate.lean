/-
Depth-first bus enumeration (pcie_enumerate_device in pcie.c and pal_pcie_enumerate_device in
pal_baremetal/pal_pcie_enumeration.c).

A configuration request is taken by the function in its slot if its bus is the one it arrives on.
Otherwise it goes on through the bridge that claims the bus by its bus numbers, and it is lost if
no bridge or more than one claims it.

A `Visitor` is what the two functions differ in.  `visit` is the same walk as a recursion on the
topology, and `enumerateDevice_eq` shows that the accesses, which the bridges route by the numbers
they have at the time, make that walk.
-/
import ServerSoc.Base.Access
import ServerSoc.Base.Bits

namespace ServerSoc.PcieEnum

open Base

/-! ## Functions -/

/-- A register keeps what was written last, and shows the bits of its mask. -/
structure Reg where
  written : Nat
  mask : Nat
  fixed : Nat
  deriving DecidableEq, Repr

def Reg.value (r : Reg) : Nat := r.written &&& r.mask ||| r.fixed

def Reg.write (r : Reg) (data : Nat) : Reg := ⟨data, r.mask, r.fixed⟩

abbrev Func := Nat → Reg

def Func.set (f : Func) (offset data : Nat) : Func :=
  Function.update f offset ((f offset).write data)

@[simp] theorem Func.set_self (f : Func) (offset data : Nat) :
    f.set offset data offset = (f offset).write data := Function.update_self ..

theorem Func.set_of_ne {offset offset' : Nat} (h : offset' ≠ offset) (f : Func) (data : Nat) :
    f.set offset data offset' = f offset' := Function.update_of_ne h ..

def funcPort : Port Func where
  read f offset := (f offset).value
  write f offset data := f.set offset data

def headerOffset : Nat := 0xC
def type01Ridr : Nat := 0x8
def busNumRegOffset : Nat := 0x18

def pcieHeaderType (headerValue : Nat) : Nat := headerValue >>> 16 &&& 3

def type0Header : Nat := 0
def type1Header : Nat := 1

namespace Func

def headerType (f : Func) : Nat := pcieHeaderType (f headerOffset).value

def isBridge (f : Func) : Bool := f.headerType == type1Header

def primary (f : Func) : Nat := (f busNumRegOffset).value % 256
def secondary (f : Func) : Nat := (f busNumRegOffset).value / 256 % 256
def subordinate (f : Func) : Nat := (f busNumRegOffset).value / 65536 % 256

def claims (f : Func) (bus : Nat) : Bool := f.isBridge && f.secondary ≤ bus && bus ≤ f.subordinate

end Func

/-! ## Buses -/

abbrev Slot := Nat × Nat

inductive Bus where
  | nil
  | cons (slot : Slot) (f : Func) (below rest : Bus)

namespace Bus

def append : Bus → Bus → Bus
  | nil, b => b
  | cons slot f below rest, b => cons slot f below (rest.append b)

def slots : Bus → List Slot
  | nil => []
  | cons slot _ _ rest => slot :: rest.slots

def claims (bus : Nat) : Bus → Bool
  | nil => false
  | cons _ f _ rest => f.claims bus || rest.claims bus

/-- The function that takes a request for `bus`, from a bus with number `here`. -/
def fetch (here bus : Nat) (slot : Slot) : Bus → Option Func
  | nil => none
  | cons slot' f below rest =>
    if bus = here then if slot' = slot then some f else rest.fetch here bus slot
    else if f.claims bus then if rest.claims bus then none else below.fetch f.secondary bus slot
    else rest.fetch here bus slot

def modify (here bus : Nat) (slot : Slot) (g : Func → Func) : Bus → Bus
  | nil => nil
  | cons slot' f below rest =>
    if bus = here then
      if slot' = slot then cons slot' (g f) below rest
      else cons slot' f below (rest.modify here bus slot g)
    else if f.claims bus then
      if rest.claims bus then cons slot' f below rest
      else cons slot' f (below.modify f.secondary bus slot g) rest
    else cons slot' f below (rest.modify here bus slot g)

/-- Configuration accesses to a slot of a bus, from the root bus.  A lost read returns all
ones. -/
def cfgPort (root bus : Nat) (slot : Slot) : Port Bus where
  read t offset := ((t.fetch root bus slot).map (fun f => funcPort.read f offset)).getD 0xFFFFFFFF
  write t offset data := t.modify root bus slot fun f => funcPort.write f offset data

section

variable {here bus : Nat} {slot : Slot} {f : Func} {below rest : Bus} {g : Func → Func}

theorem append_assoc (a b c : Bus) : (a.append b).append c = a.append (b.append c) := by
  induction a with
  | nil => rfl
  | cons slot f below rest _ ih => rw [append, append, append, ih]

theorem append_nil (a : Bus) : a.append nil = a := by
  induction a with
  | nil => rfl
  | cons slot f below rest _ ih => rw [append, ih]

theorem slots_append (a b : Bus) : (a.append b).slots = a.slots ++ b.slots := by
  induction a with
  | nil => rfl
  | cons slot f below rest _ ih => rw [append, slots, slots, ih, List.cons_append]

theorem claims_append (a b : Bus) : (a.append b).claims bus = (a.claims bus || b.claims bus) := by
  induction a with
  | nil => rfl
  | cons slot f below rest _ ih => rw [append, claims, claims, ih, Bool.or_assoc]

theorem append_route {a b : Bus} (hslot : bus = here → slot ∉ a.slots)
    (hclaims : bus ≠ here → a.claims bus = false) :
    (a.append b).fetch here bus slot = b.fetch here bus slot ∧
      (a.append b).modify here bus slot g = a.append (b.modify here bus slot g) := by
  induction a with
  | nil => exact ⟨rfl, rfl⟩
  | cons slot' f' below' rest' _ ih =>
    rw [append, fetch, modify]
    by_cases hbus : bus = here
    · obtain ⟨hne, hrest⟩ := not_or.mp (List.mem_cons.not.mp (hslot hbus))
      obtain ⟨h1, h2⟩ := ih (fun _ => hrest) (absurd hbus)
      rw [if_pos hbus, if_pos hbus, if_neg (Ne.symm hne), if_neg (Ne.symm hne), h1, h2]
      exact ⟨rfl, rfl⟩
    · obtain ⟨hf', hrest⟩ := Bool.or_eq_false_iff.mp (hclaims hbus)
      obtain ⟨h1, h2⟩ := ih (fun h => absurd h hbus) fun _ => hrest
      rw [if_neg hbus, if_neg hbus, hf', h1, h2]
      exact ⟨rfl, rfl⟩

end

end Bus

/-! ## Paths -/

structure Frame where
  here : Nat
  before : Bus
  slot : Slot
  f : Func
  rest : Bus

/-- The topology with a bus below a path of bridges, the innermost first. -/
def plug : List Frame → Bus → Bus
  | [], b => b
  | frame :: frames, b =>
    plug frames (frame.before.append (.cons frame.slot frame.f b frame.rest))

/-- Requests for bus `n` and the buses after it go down the path. -/
def Leads (root : Nat) : List Frame → Nat → Prop
  | [], n => n = root
  | frame :: frames, n =>
    frame.here < n ∧ frame.f.isBridge = true ∧ frame.f.secondary = n ∧ frame.f.subordinate = 0xFF ∧
      (∀ bus, n ≤ bus → frame.before.claims bus = false) ∧
      (∀ bus, n ≤ bus → frame.rest.claims bus = false) ∧ Leads root frames frame.here

section

variable {root n bus : Nat} {slot : Slot} {frames : List Frame} {b : Bus}

theorem Leads.claims {frame : Frame} (h : Leads root (frame :: frames) n) (hn : n ≤ bus)
    (hbus : bus ≤ 0xFF) : frame.f.claims bus = true := by
  obtain ⟨-, hbridge, hsec, hsub, -⟩ := h
  simp [Func.claims, hbridge, hsec, hsub, hn, hbus]

theorem plug_route (h : Leads root frames n) (hn : n ≤ bus) (hbus : bus ≤ 0xFF) (g : Func → Func) :
    (plug frames b).fetch root bus slot = b.fetch n bus slot ∧
      (plug frames b).modify root bus slot g = plug frames (b.modify n bus slot g) := by
  induction frames generalizing n b with
  | nil =>
    obtain rfl : n = root := h
    exact ⟨rfl, rfl⟩
  | cons frame frames ih =>
    have hclaims := h.claims hn hbus
    obtain ⟨hlt, -, hsec, -, hbefore, hrest, hleads⟩ := h
    have hne : bus ≠ frame.here := by omega
    obtain ⟨h1, h2⟩ := Bus.append_route (absurd · hne) fun _ => hbefore bus hn
    rw [plug, (ih hleads (by omega)).1, (ih hleads (by omega)).2, h1, h2, Bus.fetch, Bus.modify,
      if_neg hne, if_neg hne, if_pos hclaims, if_pos hclaims, hrest bus hn, hsec]
    exact ⟨rfl, rfl⟩

theorem run_slot {α : Type} {before below rest : Bus} (h : Leads root frames n) (hn : n ≤ 0xFF)
    (hslot : slot ∉ before.slots) (x : Access α) (f : Func) :
    x.run (Bus.cfgPort root n slot) (plug frames (before.append (.cons slot f below rest))) =
      ((x.run funcPort f).1,
        plug frames (before.append (.cons slot (x.run funcPort f).2 below rest))) := by
  refine Access.run_embed (e := fun f => plug frames (before.append (.cons slot f below rest)))
    (fun f' offset => ?_) (fun f' offset data => ?_) x f
  · show (((plug frames _).fetch root n slot).map _).getD _ = _
    rw [(plug_route h le_rfl hn id).1, (Bus.append_route (g := id) (fun _ => hslot) (absurd rfl)).1,
      Bus.fetch, if_pos rfl, if_pos rfl]
    rfl
  · show (plug frames _).modify root n slot _ = _
    rw [(plug_route h le_rfl hn _).2, (Bus.append_route (fun _ => hslot) (absurd rfl)).2,
      Bus.modify, if_pos rfl, if_pos rfl]

theorem read_empty (h : Leads root frames n) (hn : n ≤ 0xFF) (hslot : slot ∉ b.slots)
    (offset : Nat) : (Bus.cfgPort root n slot).read (plug frames b) offset = 0xFFFFFFFF := by
  show (((plug frames b).fetch root n slot).map _).getD _ = _
  rw [(plug_route h le_rfl hn id).1, ← b.append_nil,
    (Bus.append_route (g := id) (fun _ => hslot) (absurd rfl)).1]
  rfl

end

/-! ## The walk of the code -/

open Func Nat

def busNumRegCfg (subBus secBus bus : Nat) : Nat := subBus <<< 16 ||| secBus <<< 8 ||| bus

/-- The steps in which the enumerations differ.  `loc` is for the local variables of a call,
`σ` for the global ones. -/
structure Visitor (σ loc : Type) where
  lastBus : Nat
  skip : Access Bool
  enter : σ → loc
  openBridge : (bus secBus : Nat) → σ → Access Unit
  closeBridge : (bus secBus subBus : Nat) → loc → σ → Access (loc × σ)
  endpoint : (bus : Nat) → σ → Access σ

structure Progress (σ loc : Type) where
  secBus : Nat
  subBus : Nat
  locals : loc
  globals : σ
  tree : Bus

def pcieMaxDev : Nat := 32
def pcieMaxFunc : Nat := 8

def allSlots : List Slot :=
  (List.range pcieMaxDev).flatMap fun dev => (List.range pcieMaxFunc).map fun func => (dev, func)

section

variable {σ loc : Type}

def visitSlot (v : Visitor σ loc) (root : Nat) (call : Nat → Nat → Bus → σ → Option (Nat × Bus × σ))
    (bus : Nat) (p : Progress σ loc) (slot : Slot) : Option (Progress σ loc) :=
  let port := Bus.cfgPort root bus slot
  let vendorId := port.read p.tree 0
  if vendorId = 0 ∨ vendorId = 0xFFFFFFFF then some p
  else
    let skipped := v.skip.run port p.tree
    if skipped.1 then some { p with tree := skipped.2 }
    else
      let headerValue := port.read skipped.2 headerOffset
      if pcieHeaderType headerValue = type1Header then do
        let opened := (v.openBridge bus p.secBus p.globals).run port skipped.2
        let (subBus, tree, globals) ← call p.secBus (p.secBus + 1) opened.2 p.globals
        let closed := (v.closeBridge bus p.secBus subBus p.locals globals).run port tree
        some ⟨subBus + 1, subBus, closed.1.1, closed.1.2, closed.2⟩
      else if pcieHeaderType headerValue = type0Header then
        let programmed := (v.endpoint bus p.globals).run port skipped.2
        some { p with subBus := p.secBus - 1, globals := programmed.1, tree := programmed.2 }
      else some { p with tree := skipped.2 }

/-- The calls may nest to a depth of `fuel`. -/
def enumerateDevice (v : Visitor σ loc) (root : Nat) :
    Nat → Nat → Nat → Bus → σ → Option (Nat × Bus × σ)
  | 0, _, _, _, _ => none
  | fuel + 1, bus, secBus, tree, globals =>
    if bus = v.lastBus then some (bus, tree, globals)
    else
      (allSlots.foldlM (visitSlot v root (enumerateDevice v root fuel) bus)
        ⟨secBus, bus, v.enter globals, globals, tree⟩).map fun p => (p.subBus, p.tree, p.globals)

/-! ## The walk on the topology -/

structure Visited (σ loc : Type) where
  bus : Bus
  secBus : Nat
  locals : loc
  globals : σ

def Visited.push (r : Visited σ loc) (slot : Slot) (f : Func) (below : Bus) : Visited σ loc :=
  { r with bus := .cons slot f below r.bus }

def Bus.visit (v : Visitor σ loc) : Bus → Nat → Nat → loc → σ → Visited σ loc
  | .nil, _, secBus, locals, globals => ⟨.nil, secBus, locals, globals⟩
  | .cons slot f below rest, here, secBus, locals, globals =>
    if (v.skip.run funcPort f).1 then (rest.visit v here secBus locals globals).push slot f below
    else if f.headerType = type1Header then
      let opened := (v.openBridge here secBus globals).run funcPort f
      let b := below.visit v secBus (secBus + 1) (v.enter globals) globals
      let closed :=
        (v.closeBridge here secBus (b.secBus - 1) locals b.globals).run funcPort opened.2
      (rest.visit v here b.secBus closed.1.1 closed.1.2).push slot closed.2 b.bus
    else if f.headerType = type0Header then
      let programmed := (v.endpoint here globals).run funcPort f
      (rest.visit v here secBus locals programmed.1).push slot programmed.2 below
    else (rest.visit v here secBus locals globals).push slot f below

end

/-! ## Topologies -/

def SameHw (f f' : Func) : Prop := ∀ offset, (f' offset).mask = (f offset).mask ∧
  (f' offset).fixed = (f offset).fixed

theorem sameHw_run {α : Type} (x : Access α) (f : Func) : SameHw f (x.run funcPort f).2 := by
  refine Access.run_invariant (fun f' offset data h offset' => ?_) x fun _ => ⟨rfl, rfl⟩
  show (f'.set offset data offset').mask = _ ∧ (f'.set offset data offset').fixed = _
  by_cases heq : offset' = offset
  · rw [heq, set_self]
    exact h offset
  · rw [set_of_ne heq]
    exact h offset'

/-- What identifies a function cannot be written, and a bridge has its bus numbers in the
low 24 bits of their register. -/
structure Func.Wf (f : Func) : Prop where
  vendorMask : (f 0).mask = 0
  classMask : (f type01Ridr).mask = 0
  headerMask : (f headerOffset).mask = 0
  present : (f 0).value ≠ 0 ∧ (f 0).value ≠ 0xFFFFFFFF
  busNumMask : f.isBridge = true → (f busNumRegOffset).mask = 0xFFFFFF
  busNumFixed : f.isBridge = true → (f busNumRegOffset).fixed = 0

section

variable {f f' : Func} {offset subBus secBus bus : Nat}

theorem SameHw.trans {f'' : Func} (h : SameHw f f') (h' : SameHw f' f'') : SameHw f f'' :=
  fun offset => ⟨(h' offset).1.trans (h offset).1, (h' offset).2.trans (h offset).2⟩

theorem sameHw_run_run {α β : Type} {x : Access α} {y : Access β} (f : Func) :
    SameHw f (y.run funcPort (x.run funcPort f).2).2 :=
  (sameHw_run x f).trans (sameHw_run y _)

theorem SameHw.value_eq (h : SameHw f f') (hmask : (f offset).mask = 0) :
    (f' offset).value = (f offset).value := by
  rw [Reg.value, Reg.value, (h offset).1, (h offset).2, hmask, and_zero, and_zero]

section

variable (h : SameHw f f') (hf : f.Wf)
include h hf

theorem SameHw.headerType_eq : f'.headerType = f.headerType := by
  rw [headerType, h.value_eq hf.headerMask, headerType]

theorem SameHw.isBridge_eq : f'.isBridge = f.isBridge := by
  rw [isBridge, h.headerType_eq hf, isBridge]

theorem Func.Wf.same : f'.Wf where
  vendorMask := (h 0).1.trans hf.vendorMask
  classMask := (h type01Ridr).1.trans hf.classMask
  headerMask := (h headerOffset).1.trans hf.headerMask
  present := by
    rw [h.value_eq hf.vendorMask]
    exact hf.present
  busNumMask hbridge :=
    (h busNumRegOffset).1.trans (hf.busNumMask ((h.isBridge_eq hf).symm.trans hbridge))
  busNumFixed hbridge :=
    (h busNumRegOffset).2.trans (hf.busNumFixed ((h.isBridge_eq hf).symm.trans hbridge))

end

theorem isBridge_iff : f.isBridge = true ↔ f.headerType = type1Header := beq_iff_eq

theorem busNumRegCfg_eq (hsec : secBus < 256) (hbus : bus < 256) :
    busNumRegCfg subBus secBus bus = subBus * 65536 + secBus * 256 + bus := by
  rw [busNumRegCfg, ← shiftLeft_add_eq_or_of_lt (show secBus <<< 8 < 2 ^ 16 by
    rw [shiftLeft_eq]; omega), Nat.or_comm, shiftLeft_eq, shiftLeft_eq,
    show subBus * 2 ^ 16 + secBus * 2 ^ 8 = (subBus * 256 + secBus) <<< 8 by
      rw [shiftLeft_eq]; omega, Nat.or_comm, ← shiftLeft_add_eq_or_of_lt hbus]
  omega

theorem busNumbers_of_written (hf : f.Wf) (hbridge : f.isBridge = true)
    (h : (f busNumRegOffset).written = busNumRegCfg subBus secBus bus) (hsub : subBus < 256)
    (hsec : secBus < 256) (hbus : bus < 256) :
    f.primary = bus ∧ f.secondary = secBus ∧ f.subordinate = subBus := by
  have hvalue : (f busNumRegOffset).value = subBus * 65536 + secBus * 256 + bus := by
    rw [Reg.value, hf.busNumMask hbridge, hf.busNumFixed hbridge, or_zero, h,
      busNumRegCfg_eq hsec hbus, show 0xFFFFFF = 2 ^ 24 - 1 from rfl, and_two_pow_sub_one_eq_mod]
    exact mod_eq_of_lt (by omega)
  rw [primary, secondary, subordinate]
  omega

end

namespace Bus

def count : Bus → Nat
  | nil => 0
  | cons _ f below rest => (if f.isBridge then 1 + below.count else 0) + rest.count

/-- Every function is as `ok` says, the slots of each bus are in order, and the bus numbers of
the bridges are clear: they claim no bus after bus 0. -/
def Fresh (ok : Func → Prop) : Bus → Prop
  | nil => True
  | cons _ f below rest =>
    ok f ∧ (∀ bus, 0 < bus → f.claims bus = false) ∧
      (f.isBridge = true → below.slots.Sublist allSlots ∧ below.Fresh ok) ∧ rest.Fresh ok

theorem Fresh.claims {ok : Func → Prop} {b : Bus} {bus : Nat} (h : b.Fresh ok) (hbus : 0 < bus) :
    b.claims bus = false := by
  induction b with
  | nil => rfl
  | cons slot f below rest _ ih =>
    obtain ⟨-, hf, -, hrest⟩ := h
    rw [Bus.claims, hf bus hbus, ih hrest]
    rfl

end Bus

/-- What the walk needs to know of a visitor: functions keep their identity, and a bridge has
its bus numbers while the buses below it are visited and afterwards. -/
structure Visitor.Lawful {σ loc : Type} (v : Visitor σ loc) (ok : Func → Prop) : Prop where
  wf : ∀ f, ok f → f.Wf
  same : ∀ f f', SameHw f f' → ok f → ok f'
  lastBus : v.lastBus ≤ 256
  skip : ∀ f, (v.skip.run funcPort f).2 = f
  bridge : ∀ f, ok f → f.isBridge = true → (v.skip.run funcPort f).1 = false
  openBridge : ∀ f, ok f → f.isBridge = true →
    ∀ bus secBus globals, bus < 256 → secBus < 256 →
    (((v.openBridge bus secBus globals).run funcPort f).2 busNumRegOffset).written =
      busNumRegCfg 0xFF secBus bus
  closeBridge : ∀ f, ok f → f.isBridge = true →
    ∀ bus secBus subBus locals globals, bus < 256 → secBus < 256 → subBus < 256 →
    (((v.closeBridge bus secBus subBus locals globals).run funcPort f).2 busNumRegOffset).written =
      busNumRegCfg subBus secBus bus

end ServerSoc.PcieEnum
