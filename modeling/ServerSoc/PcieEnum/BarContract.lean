/-
The enumeration of all ECAM entries (pal_pcie_enumerate), and when its BARs are right.

The entries are enumerated one after the other with the same pools.  Behind each of them
the primary bus numbers are cleared, which leaves the BARs as they are.
-/
import ServerSoc.PcieEnum.BarRanges

namespace ServerSoc.PcieEnum

open List

/-! ## The code -/

/-- An entry of the ECAM table, with the functions that its buses reach. -/
structure Ecam where
  startBusNum : Nat
  endBusNum : Nat
  bus : Bus

def priBusClearMask : Nat := 0xFFFFFF00

/-- The body of the loops of `pal_clear_pri_bus`. -/
def clearSlot (root bus : Nat) (tree : Bus) (slot : Slot) : Bus :=
  let port := Bus.cfgPort root bus slot
  let vendorId := port.read tree 0
  if vendorId = 0 ∨ vendorId = 0xFFFFFFFF then tree
  else if pcieHeaderType (port.read tree headerOffset) = type1Header then
    port.write tree busNumRegOffset (port.read tree busNumRegOffset &&& priBusClearMask)
  else tree

def palClearPriBus (root endBusNum : Nat) (tree : Bus) : Bus :=
  (range (endBusNum + 1)).foldl (fun tree bus => allSlots.foldl (clearSlot root bus) tree) tree

def palPcieEnumerate (fuel : Nat) : List Ecam → Globals → Option (List Bus × Globals)
  | [], g => some ([], g)
  | e :: es, g => do
    let priBus := e.startBusNum
    let (_, tree, g) ←
      palPcieEnumerateDevice e.startBusNum e.endBusNum fuel priBus (priBus + 1) e.bus g
    let (trees, g) ← palPcieEnumerate fuel es g
    some (palClearPriBus e.startBusNum e.endBusNum tree :: trees, g)

/-! ## Primary bus numbers -/

section

variable {root bus : Nat} {slot : Slot} {q : PoolName}

theorem kind_ne_endpoint {f : Func} (h : f.headerType = type1Header) : f.kind ≠ .endpoint := by
  intro hkind
  rw [headerType_of_endpoint hkind] at h
  exact absurd h (by decide)

theorem placed_modify_busNum {tree : Bus} {data : Nat}
    (h : ∀ f, tree.fetch root bus slot = some f → f.headerType = type1Header) :
    (tree.modify root bus slot (fun f => f.set busNumRegOffset data)).placed q = tree.placed q := by
  induction tree generalizing root with
  | nil => rfl
  | cons slot' f below rest ihbelow ihrest =>
    rw [Bus.fetch] at h
    rw [Bus.modify]
    have hrest : (∀ f, rest.fetch root bus slot = some f → f.headerType = type1Header) →
        (Bus.cons slot' f below
          (rest.modify root bus slot (fun f => f.set busNumRegOffset data))).placed q =
        (Bus.cons slot' f below rest).placed q := by
      intro hrest
      rw [Bus.placed, Bus.placed, ihrest hrest]
    split
    · rename_i hbus
      rw [if_pos hbus] at h
      split_ifs with hslot
      · rw [if_pos hslot] at h
        rw [Bus.placed, Bus.placed, show (f.set busNumRegOffset _).kind = f.kind from rfl]
        cases hkind : f.kind with
        | host | other | bridge => rfl
        | endpoint => exact absurd hkind (kind_ne_endpoint (h f rfl))
      · rw [if_neg hslot] at h
        exact hrest h
    · rename_i hbus
      rw [if_neg hbus] at h
      split
      · rename_i hclaims
        rw [if_pos hclaims] at h
        split_ifs with hother
        · rfl
        · rw [if_neg hother] at h
          rw [Bus.placed, Bus.placed, ihbelow h]
      · rename_i hclaims
        rw [if_neg hclaims] at h
        exact hrest h

theorem placed_clearSlot (tree : Bus) :
    (clearSlot root bus tree slot).placed q = tree.placed q := by
  simp only [clearSlot]
  split_ifs with _ hheader
  · rfl
  · refine placed_modify_busNum (fun f hf => ?_)
    simp only [Bus.cfgPort, hf] at hheader
    exact hheader
  · rfl

theorem placed_palClearPriBus (endBusNum : Nat) (tree : Bus) :
    (palClearPriBus root endBusNum tree).placed q = tree.placed q := by
  have hslots : ∀ bus (l : List Slot) (tree : Bus),
      (l.foldl (clearSlot root bus) tree).placed q = tree.placed q := by
    intro bus l
    induction l with
    | nil => exact fun _ => rfl
    | cons slot l ih => exact fun tree => (ih _).trans (placed_clearSlot tree)
  rw [palClearPriBus]
  induction range (endBusNum + 1) generalizing tree with
  | nil => rfl
  | cons bus l ih => rw [foldl_cons, ih, hslots]

end

/-! ## The loop over the entries -/

structure Ecam.Ok (fuel : Nat) (e : Ecam) : Prop where
  slots : e.bus.slots.Sublist allSlots
  fresh : e.bus.Fresh Func.AllocOk
  room : e.startBusNum + e.bus.count ≤ e.endBusNum
  last : e.endBusNum ≤ 255
  depth : e.bus.count < fuel

def Ecam.allocate (e : Ecam) (A : Allocs) : Allocs :=
  (e.bus.allocate e.startBusNum (e.startBusNum + 1) A.bases A).2.2

def allocateAll (es : List Ecam) (A : Allocs) : Allocs := es.foldl (fun A e => e.allocate A) A

def Globals.allocs (g : Globals) : Allocs := fun q =>
  ⟨(g.pool q).start, (g.pool q).size, (g.pool q).bus, (g.pool q).max, []⟩

theorem Bus.Fresh.imp {ok ok' : Func → Prop} (himp : ∀ f, ok f → ok' f) {b : Bus} (h : b.Fresh ok) :
    b.Fresh ok' := by
  induction b with
  | nil => trivial
  | cons slot f below rest ihbelow ihrest =>
    obtain ⟨hok, hclaims, hbelow, hrest⟩ := h
    exact ⟨himp f hok, hclaims,
      fun hbridge => ⟨(hbelow hbridge).1, ihbelow (hbelow hbridge).2⟩, ihrest hrest⟩

section

variable {fuel : Nat} {e : Ecam} {es : List Ecam} {g : Globals} {A : Allocs}

theorem Ecam.Ok.enumerate_eq (h : e.Ok fuel) (g : Globals) :
    let r := e.bus.visit (palVisitor e.endBusNum) e.startBusNum (e.startBusNum + 1) g.bases g
    palPcieEnumerateDevice e.startBusNum e.endBusNum fuel e.startBusNum (e.startBusNum + 1)
      e.bus g = some (r.secBus - 1, r.bus, r.globals) := by
  refine enumerateDevice_eq (palVisitor_lawful h.last)
    h.slots (h.fresh.imp (fun _ hf => hf.toPalOk)) ?_ h.depth g
  show e.startBusNum + 1 + e.bus.count ≤ e.endBusNum + 1
  have hroom := h.room
  omega

theorem le_allocateAll (es : List Ecam) (A : Allocs) (q : PoolName) :
    (A q).start ≤ (allocateAll es A q).start := by
  induction es generalizing A with
  | nil => exact le_rfl
  | cons e es ih => exact (e.bus.le_allocate _ _ _ A q).trans (ih (e.allocate A))

theorem inv_allocateAll (hes : ∀ e ∈ es, e.Ok fuel) (hA : ∀ q, (A q).Inv) (q : PoolName) :
    (allocateAll es A q).Inv := by
  induction es generalizing A with
  | nil => exact hA q
  | cons e es ih =>
    apply ih fun e' he' => hes e' (mem_cons_of_mem e he')
    exact fun q => Bus.inv_allocate (hes e mem_cons_self).fresh hA q

theorem palPcieEnumerate_placed (hes : ∀ e ∈ es, e.Ok fuel) (hsim : g.Sim A)
    (hfits : (allocateAll es A).Fits) :
    ∃ trees g', palPcieEnumerate fuel es g = some (trees, g') ∧
      ((∀ e ∈ es, e.bus.Sized) → ∀ q, ∃ new, (allocateAll es A q).steps = (A q).steps ++ new ∧
        new.map Step.range = trees.flatMap (Bus.placed q)) ∧
      (¬ (∀ e ∈ es, e.bus.Sized) → ∃ r ∈ trees.flatMap (Bus.placed .np), ¬ r.2 ∣ r.1) := by
  induction es generalizing g A with
  | nil =>
    refine ⟨[], g, rfl, fun _ q => ⟨[], (append_nil _).symm, rfl⟩, fun h => ?_⟩
    exact absurd (by nofun) h
  | cons e es ih =>
    have he := hes e mem_cons_self
    have hfits1 : (e.allocate A).Fits := hfits.mono fun q => le_allocateAll es (e.allocate A) q
    have hvisit := visit_sim e.endBusNum he.fresh hsim hsim.bases hfits1
    obtain ⟨trees, g', heq, hsized, hunsized⟩ :=
      ih (fun e' he' => hes e' (mem_cons_of_mem e he')) hvisit.globals hfits
    refine ⟨palClearPriBus e.startBusNum e.endBusNum (e.bus.visit (palVisitor e.endBusNum)
      e.startBusNum (e.startBusNum + 1) g.bases g).bus :: trees, g', ?_, fun hall q => ?_,
        fun hnot => ?_⟩
    · rw [palPcieEnumerate, he.enumerate_eq g]
      show (palPcieEnumerate fuel es _).bind _ = _
      rw [heq]
      rfl
    · obtain ⟨hhead, htail⟩ := forall_mem_cons.mp hall
      obtain ⟨new1, hsteps1, hmap1⟩ := hvisit.steps q
      obtain ⟨new, hsteps, hmap⟩ := hsized htail q
      refine ⟨new1 ++ new, ?_, ?_⟩
      · refine hsteps.trans ?_
        rw [hsteps1, append_assoc]
      · rw [map_append, flatMap_cons, placed_palClearPriBus, (visit_placed _ he.fresh).all hhead,
          hmap1, hmap]
    · rw [flatMap_cons, placed_palClearPriBus]
      by_cases hhead : e.bus.Sized
      · obtain ⟨r, hr, hr'⟩ := hunsized (fun htail => hnot (forall_mem_cons.mpr ⟨hhead, htail⟩))
        exact ⟨r, mem_append_right _ hr, hr'⟩
      · obtain ⟨r, hr, hr'⟩ := (visit_placed e.endBusNum he.fresh).unaligned hhead
        exact ⟨r, mem_append_left _ hr, hr'⟩

end

/-! ## The contract -/

/-- After an enumeration from empty pools that do not run out, the BARs of each pool are
aligned and disjoint exactly when the code reads the size of every BAR, and each BAR finds
a start that is a multiple of its size and comes behind the BAR before it. -/
theorem palPcieEnumerate_ranges_iff (fuel : Nat) (es : List Ecam) (g : Globals)
    (hes : ∀ e ∈ es, e.Ok fuel) (hempty : ∀ q, (g.pool q).size = 0)
    (hfits : (allocateAll es g.allocs).Fits) :
    ∃ trees g', palPcieEnumerate fuel es g = some (trees, g') ∧
      ((∀ q, RangesOk (trees.flatMap (Bus.placed q))) ↔
        (∀ e ∈ es, e.bus.Sized) ∧ ∀ q, StepsOk (allocateAll es g.allocs q).steps) := by
  have hinit : ∀ q, (g.allocs q).Inv := fun q =>
    ⟨fun _ => hempty q, nofun, isChain_nil, nofun, nofun⟩
  have hinv := fun q => inv_allocateAll hes hinit q
  obtain ⟨trees, g', heq, hsized, hunsized⟩ :=
    palPcieEnumerate_placed hes (fun _ => ⟨rfl, rfl, rfl, rfl⟩) hfits
  refine ⟨trees, g', heq, ?_⟩
  by_cases hall : ∀ e ∈ es, e.bus.Sized
  · have hranges : ∀ q, RangesOk (trees.flatMap (Bus.placed q)) ↔
        StepsOk (allocateAll es g.allocs q).steps := by
      intro q
      obtain ⟨new, hsteps, hmap⟩ := hsized hall q
      rw [← hmap, ← (hinv q).rangesOk_iff, hsteps]
      rfl
    exact ⟨fun h => ⟨hall, fun q => (hranges q).mp (h q)⟩, fun h q => (hranges q).mpr (h.2 q)⟩
  · obtain ⟨r, hr, hnot⟩ := hunsized hall
    exact ⟨fun h => absurd ((h .np).aligned r hr) hnot, fun h => absurd h.1 hall⟩

def memFunc (bar0 bar1 : Bool) : Func := fun offset =>
  if offset = 0 then ⟨0, 0, 0x00DC13B5⟩
  else if offset = type01Ridr then ⟨0, 0, 0x02000000⟩
  else if offset = bar0Offset then ⟨0, if bar0 then 0xFFFFF000 else 0, 0⟩
  else if offset = bar0Offset + 4 then ⟨0, if bar1 then 0xFFFFF000 else 0, 0⟩
  else ⟨0, 0, 0⟩

theorem barWf_memFunc (bar0 bar1 : Bool) (offset : Nat) (h : bar0Offset ≤ offset) :
    (memFunc bar0 bar1).BarWf offset ∧ ((memFunc bar0 bar1).barAt offset).next = offset + 4 := by
  have hreg : ∃ b : Bool, memFunc bar0 bar1 offset = ⟨0, if b then 0xFFFFF000 else 0, 0⟩ := by
    have h0 : offset ≠ 0 := by rw [bar0Offset] at h; omega
    have h8 : offset ≠ type01Ridr := by rw [bar0Offset] at h; rw [type01Ridr]; omega
    rw [memFunc, if_neg h0, if_neg h8]
    split
    · exact ⟨bar0, rfl⟩
    · split
      · exact ⟨bar1, rfl⟩
      · exact ⟨false, rfl⟩
  obtain ⟨b, hb⟩ := hreg
  have h32 : barReg (memFunc bar0 bar1 offset).fixed ≠ 1 := by
    rw [hb]
    exact (by decide : barReg 0 ≠ 1)
  constructor
  · refine ⟨?_, ?_, ?_, fun h => absurd h h32, fun h => absurd h h32, ?_⟩
    · rw [hb]
      cases b <;> decide
    · rw [hb]
      cases b <;> decide
    · rw [hb]
      exact (by decide : 0 < 16)
    · rw [Func.barAt, hb]
      cases b with
      | false => exact .inl rfl
      | true => exact .inr ⟨12, by decide, rfl⟩
  · simp [Func.barAt, Bar.next, h32]

theorem barsWf_memFunc (bar0 bar1 : Bool) (turns offset : Nat) (h : bar0Offset ≤ offset) :
    (memFunc bar0 bar1).BarsWf turns offset := by
  induction turns generalizing offset with
  | zero => trivial
  | succ turns ih =>
    intro _
    obtain ⟨hwf, hnext⟩ := barWf_memFunc bar0 bar1 offset h
    rw [hnext]
    exact ⟨hwf, ih (offset + 4) (by omega)⟩

theorem memFunc_not_bridge (bar0 bar1 : Bool) : ¬ (memFunc bar0 bar1).isBridge = true := by
  cases bar0 <;> cases bar1 <;> decide

theorem allocOk_memFunc (bar0 bar1 : Bool) : (memFunc bar0 bar1).AllocOk := by
  have hnot := memFunc_not_bridge bar0 bar1
  exact {
    vendorMask := rfl
    classMask := rfl
    headerMask := rfl
    present := by cases bar0 <;> cases bar1 <;> decide
    busNumMask := fun h => absurd h hnot
    busNumFixed := fun h => absurd h hnot
    notHost := fun h => absurd h hnot
    barMask := fun h => absurd h hnot
    barType := fun h => absurd h hnot
    bars := fun _ => barsWf_memFunc bar0 bar1 6 bar0Offset le_rfl }

theorem allocOk_bridge : (plainFunc 0x0604 1).AllocOk where
  toPalOk := palOk_bridge
  bars := nofun

def portBus (slot : Slot) (bar0 bar1 : Bool) (rest : Bus) : Bus :=
  .cons slot (plainFunc 0x0604 1) (.cons (0, 0) (memFunc bar0 bar1) .nil .nil) rest

theorem fresh_portBus {slot : Slot} {bar0 bar1 : Bool} {rest : Bus} (h : rest.Fresh Func.AllocOk) :
    (portBus slot bar0 bar1 rest).Fresh Func.AllocOk := by
  have hquiet : ∀ bus, 0 < bus → (plainFunc 0x0604 1).claims bus = false :=
    fun bus hbus => claims_eq_false hbus
  have hnone : ∀ bus, 0 < bus → (memFunc bar0 bar1).claims bus = false :=
    fun bus _ => claims_of_not_bridge (memFunc_not_bridge bar0 bar1)
  exact ⟨allocOk_bridge, hquiet,
    fun _ => ⟨singleton_sublist.mpr (by decide), allocOk_memFunc bar0 bar1, hnone,
      fun h => absurd h (memFunc_not_bridge bar0 bar1), trivial⟩, h⟩

/-- Two ports with a BAR each: both BARs get the first address of the pool. -/
theorem palPcieEnumerate_overlap :
    let e : Ecam := ⟨0, 2, portBus (1, 0) true false (portBus (2, 0) true false .nil)⟩
    e.Ok 3 ∧ (allocateAll [e] rdn2Globals.allocs).Fits ∧
      ∃ trees g', palPcieEnumerate 3 [e] rdn2Globals = some (trees, g') ∧
        trees.flatMap (Bus.placed .np) = [(0x60000000, 0x1000), (0x60000000, 0x1000)] ∧
        ¬ RangesOk (trees.flatMap (Bus.placed .np)) := by
  intro e
  have hok : e.Ok 3 := {
    slots := by decide
    fresh := fresh_portBus (fresh_portBus trivial)
    room := by decide
    last := by decide
    depth := by decide }
  have hes := forall_mem_singleton.mpr hok
  have hfits : (allocateAll [e] rdn2Globals.allocs).Fits := by
    intro q
    cases q <;> decide
  obtain ⟨trees, g', heq, hsized, -⟩ :=
    palPcieEnumerate_placed hes (fun _ => ⟨rfl, rfl, rfl, rfl⟩) hfits
  have hall : ∀ e' ∈ [e], e'.bus.Sized := by
    refine forall_mem_singleton.mpr ?_
    have hseen : ∀ b ∈ (memFunc true false).bars, b.seenSize ≠ 0 := by decide
    exact ⟨⟨hseen, trivial⟩, ⟨hseen, trivial⟩, trivial⟩
  obtain ⟨new, hsteps, hmap⟩ := hsized hall .np
  have hnew : new = (allocateAll [e] rdn2Globals.allocs .np).steps := hsteps.symm
  have hplaced : trees.flatMap (Bus.placed .np) = [(0x60000000, 0x1000), (0x60000000, 0x1000)] := by
    rw [← hmap, hnew]
    decide
  refine ⟨hok, hfits, trees, g', heq, hplaced, fun h => ?_⟩
  rw [hplaced] at h
  exact absurd h.apart (by decide)

/-- One port with two BARs. -/
theorem palPcieEnumerate_ranges_two :
    ∃ trees g', palPcieEnumerate 2 [⟨0, 1, portBus (1, 0) true true .nil⟩] rdn2Globals =
        some (trees, g') ∧ ∀ q, RangesOk (trees.flatMap (Bus.placed q)) := by
  have hok : Ecam.Ok 2 ⟨0, 1, portBus (1, 0) true true .nil⟩ := {
    slots := singleton_sublist.mpr (by decide)
    fresh := fresh_portBus trivial
    room := by decide
    last := by decide
    depth := by decide }
  obtain ⟨trees, g', heq, hiff⟩ := palPcieEnumerate_ranges_iff 2
    [⟨0, 1, portBus (1, 0) true true .nil⟩] rdn2Globals (forall_mem_singleton.mpr hok)
    (fun q => by cases q <;> rfl) fun q => by cases q <;> decide
  refine ⟨trees, g', heq, hiff.mpr ⟨forall_mem_singleton.mpr ?_, fun q => ?_⟩⟩
  · have hseen : ∀ b ∈ (memFunc true true).bars, b.seenSize ≠ 0 := by decide
    exact ⟨⟨hseen, trivial⟩, trivial⟩
  · cases q with
    | np => exact ⟨by decide, by decide⟩
    | p | p64 => exact ⟨by decide, by decide⟩

end ServerSoc.PcieEnum
