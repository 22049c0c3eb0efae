/-
The bus numbers after an enumeration.

In the order of the walk the bridges get consecutive secondary bus numbers, and the
subordinate number of a bridge is the last one that was given out below it.
-/
import ServerSoc.PcieEnum.BarAlloc
import ServerSoc.PcieEnum.Walk

namespace ServerSoc.PcieEnum

open Base Func List Nat

/-! ## Numbered topologies -/

namespace Bus

def secondaries : Bus → List Nat
  | nil => []
  | cons _ f below rest =>
    (if f.isBridge then f.secondary :: below.secondaries else []) ++ rest.secondaries

def bridges : Bus → List Func
  | nil => []
  | cons _ f _ rest => if f.isBridge then f :: rest.bridges else rest.bridges

/-- Each bridge has the number of its bus, and the range of bus numbers that it routes ends
with the last bus below it, lies beside those of its siblings and around those of the
bridges on its secondary bus. -/
def Numbered (here : Nat) : Bus → Prop
  | nil => True
  | cons _ f below rest =>
    (f.isBridge = true →
      f.primary = here ∧ f.primary < f.secondary ∧ f.secondary ≤ f.subordinate ∧
      f.subordinate ∈ f.secondary :: below.secondaries ∧
      (∀ s ∈ f.secondary :: below.secondaries, s ≤ f.subordinate) ∧
      (∀ g ∈ below.bridges, f.secondary < g.secondary ∧ g.subordinate ≤ f.subordinate) ∧
      (∀ g ∈ rest.bridges, f.subordinate < g.secondary ∨ g.subordinate < f.secondary) ∧
      below.Numbered f.secondary) ∧
    rest.Numbered here

/-- What a walk leaves: the numbers from `secBus` on in order, which the bridges on the bus
itself route. -/
structure Walked (here secBus count : Nat) (b : Bus) : Prop where
  secondaries : b.secondaries = range' secBus count
  bridges : ∀ g ∈ b.bridges, secBus ≤ g.secondary ∧ g.subordinate < secBus + count
  numbered : b.Numbered here

end Bus

variable {f : Func}

section

variable {σ loc : Type} {v : Visitor σ loc} {ok : Func → Prop} {here secBus : Nat} {locals : loc}
  {globals : σ}

section

variable (hv : v.Lawful ok)
include hv

theorem Visitor.Lawful.isBridge_run {α : Type} (hok : ok f)
    (x : Access α) : (x.run funcPort f).2.isBridge = f.isBridge :=
  (sameHw_run x f).isBridge_eq (hv.wf f hok)

theorem visit_not_bridge (slot : Slot) (below rest : Bus)
    (here secBus : Nat) (locals : loc) (globals : σ) (hok : ok f) (hbridge : ¬ f.isBridge = true) :
    ∃ f' globals', f'.isBridge = false ∧
      (Bus.cons slot f below rest).visit v here secBus locals globals =
        (rest.visit v here secBus locals globals').push slot f' below := by
  have hfalse : f.isBridge = false := Bool.not_eq_true _ ▸ hbridge
  have hheader : f.headerType ≠ type1Header := fun h => hbridge (isBridge_iff.mpr h)
  rw [Bus.visit]
  split
  · exact ⟨f, globals, hfalse, rfl⟩
  · split
    · exact ⟨_, _, (hv.isBridge_run hok _).trans hfalse, rfl⟩
    · exact ⟨f, globals, hfalse, rfl⟩

theorem visit_bridge_numbers (slot : Slot) {below : Bus} (rest : Bus) (locals : loc) (globals : σ)
    (hok : ok f) (hbridge : f.isBridge = true) (hbelow : below.Fresh ok) (hhere : here < secBus)
    (hroom : secBus + below.count < 256) :
    ∃ f' locals' globals', f'.isBridge = true ∧ f'.primary = here ∧ f'.secondary = secBus ∧
      f'.subordinate = secBus + below.count ∧
      (Bus.cons slot f below rest).visit v here secBus locals globals =
        (rest.visit v here (secBus + 1 + below.count) locals' globals').push slot f'
          (below.visit v secBus (secBus + 1) (v.enter globals) globals).bus := by
  have hopen := hv.isBridge_run hok (v.openBridge here secBus globals)
  have hok1 := hv.same _ _ (sameHw_run (v.openBridge here secBus globals) f) hok
  rw [hbridge] at hopen
  rw [Bus.visit_bridge (hv.bridge f hok hbridge) (isBridge_iff.mp hbridge)]
  dsimp only
  rw [Bus.visit_secBus hv hbelow, show secBus + 1 + below.count - 1 = secBus + below.count by omega]
  have hclose := hv.isBridge_run hok1 (v.closeBridge here secBus (secBus + below.count) locals
    (below.visit v secBus (secBus + 1) (v.enter globals) globals).globals)
  have hok2 := hv.same _ _ (sameHw_run (v.closeBridge here secBus (secBus + below.count) locals
    (below.visit v secBus (secBus + 1) (v.enter globals) globals).globals) _) hok1
  obtain ⟨h1, h2, h3⟩ := busNumbers_of_written (hv.wf _ hok2) (hclose.trans hopen)
    (hv.closeBridge _ hok1 hopen here secBus (secBus + below.count) locals _ (by omega) (by omega)
      hroom)
    hroom (by omega) (by omega)
  exact ⟨_, _, _, hclose.trans hopen, h1, h2, h3, rfl⟩

theorem walked_visit (locals : loc) (globals : σ) {b : Bus} (h : b.Fresh ok) (hhere : here < secBus)
    (hroom : secBus + b.count ≤ 256) :
    (b.visit v here secBus locals globals).bus.Walked here secBus b.count := by
  induction b generalizing here secBus locals globals with
  | nil => exact ⟨rfl, fun _ h => absurd h not_mem_nil, trivial⟩
  | cons slot f below rest ihbelow ihrest =>
    obtain ⟨hok, -, hbelow, hrest⟩ := h
    by_cases hbridge : f.isBridge = true
    · rw [Bus.count, if_pos hbridge] at hroom ⊢
      obtain ⟨f', locals', globals', hf', hpri, hsec, hsub, heq⟩ :=
        visit_bridge_numbers hv slot rest locals globals hok hbridge (hbelow hbridge).2 hhere
          (by omega)
      have hin := ihbelow (v.enter globals) globals (hbelow hbridge).2 (Nat.lt_add_one secBus)
        (by omega)
      have hnext := ihrest locals' globals' hrest (show here < secBus + 1 + below.count by omega)
        (by omega)
      rw [heq, Visited.push]
      refine ⟨?_, fun g hg => ?_, ?_⟩
      · rw [Bus.secondaries, if_pos hf', hsec, hin.secondaries, hnext.secondaries,
          add_comm 1 below.count, ← range'_append_1, add_right_comm]
        rfl
      · rw [Bus.bridges, if_pos hf'] at hg
        rcases mem_cons.mp hg with rfl | hg
        · omega
        · have hlater := hnext.bridges g hg
          omega
      · rw [Bus.Numbered, hpri, hsec, hin.secondaries, ← range'_succ]
        simp only [mem_range'_1]
        refine ⟨fun _ => ⟨trivial, hhere, by omega, by omega, by omega, fun g hg => ?_,
          fun g hg => ?_, hin.numbered⟩, hnext.numbered⟩
        · have hg' := hin.bridges g hg
          omega
        · have hg' := hnext.bridges g hg
          omega
    · obtain ⟨f', globals', hf', heq⟩ := visit_not_bridge hv slot below rest here secBus
        locals globals hok hbridge
      rw [Bus.count, if_neg hbridge, zero_add] at hroom ⊢
      have hnext := ihrest locals globals' hrest hhere hroom
      rw [heq, Visited.push]
      exact ⟨by rw [Bus.secondaries, hf', ← hnext.secondaries]; rfl,
        by rw [Bus.bridges, hf']; exact hnext.bridges,
        by rw [Bus.Numbered, hf']; exact ⟨fun h => absurd h Bool.false_ne_true, hnext.numbered⟩⟩

theorem enumerateDevice_numbered {b : Bus} (hslots : b.slots.Sublist allSlots) (hfresh : b.Fresh ok)
    (hroom : here + 1 + b.count ≤ v.lastBus) {fuel : Nat} (hfuel : b.count < fuel) (globals : σ) :
    ∃ b' globals', enumerateDevice v here fuel here (here + 1) b globals =
        some (here + b.count, b', globals') ∧
      b'.Numbered here ∧ b'.secondaries = range' (here + 1) b.count := by
  have hlast := hv.lastBus
  have hsec : (b.visit v here (here + 1) (v.enter globals) globals).secBus = here + 1 + b.count :=
    Bus.visit_secBus hv hfresh
  have heq := enumerateDevice_eq hv hslots hfresh hroom hfuel globals
  dsimp only at heq
  rw [hsec, show here + 1 + b.count - 1 = here + b.count by omega] at heq
  have hwalked := walked_visit hv (v.enter globals) globals hfresh (Nat.lt_add_one here) (by omega)
  exact ⟨_, _, heq, hwalked.numbered, hwalked.secondaries⟩

end

end

/-! ## The two enumerations -/

theorem busNumRegCfg_mod {subBus secBus bus : Nat} (hsub : subBus < 256) (hsec : secBus < 256)
    (hbus : bus < 256) :
    busNumRegCfg subBus secBus bus % 2 ^ 32 = busNumRegCfg subBus secBus bus := by
  rw [busNumRegCfg_eq hsec hbus]
  exact mod_eq_of_lt (by omega)

theorem valVisitor_lawful {pcieMaxBus : Nat} (h : pcieMaxBus ≤ 256) :
    (valVisitor pcieMaxBus).Lawful Func.Wf where
  wf _ hf := hf
  same _ _ := Func.Wf.same
  lastBus := (sub_le _ 1).trans h
  skip _ := rfl
  bridge _ _ _ := rfl
  openBridge f _ _ bus secBus _ hbus hsec := by
    exact busNumRegCfg_mod (by decide) hsec hbus
  closeBridge f _ _ bus secBus subBus _ _ hbus hsec hsub := by
    exact busNumRegCfg_mod hsub hsec hbus

section

variable {offset offset' base : Nat} {pool : Pool}

theorem barReg_eq (value : Nat) : barReg value = (value.testBit 2).toNat := by
  rw [barReg, and_one_is_mod, shiftRight_eq_div_pow, ← toNat_testBit]

theorem barReg_value {r : Reg} (h : r.mask % 16 = 0) : barReg r.value = barReg r.fixed := by
  have hbit : r.mask.testBit 2 = false := by
    rw [testBit_eq_decide_div_mod_eq]
    simp
    omega
  rw [barReg_eq, barReg_eq, Reg.value, testBit_or, testBit_and, hbit, Bool.and_false,
    Bool.false_or]

theorem rpProgramBar_next (offset : Nat) (f : Func) (g : Globals) :
    ((rpProgramBar offset g).run funcPort f).1.1 =
      if barReg (f offset).value = 1 then offset + 8 else offset + 4 := by
  simp only [rpProgramBar, Access.run_bind, run_palPciCfgRead, run_ite]
  split
  · split <;> rfl
  · split <;> rfl

theorem rpProgramBar_keeps (f : Func) (g : Globals) (hne : offset' ≠ offset)
    (hne' : barReg (f offset).value = 1 → offset' ≠ offset + 4) :
    ((rpProgramBar offset g).run funcPort f).2 offset' = f offset' := by
  simp only [rpProgramBar, sizeBar32, sizeBar64, Access.run_bind, run_ite]
  split_ifs with hreg
  · simp [set_of_ne hne, set_of_ne (hne' hreg)]
  · simp [set_of_ne hne, set_of_ne (hne' hreg)]
  · simp [set_of_ne hne]
  · simp [set_of_ne hne]

/-- A bridge that has at most two BAR registers, and that is no host bridge. -/
structure Func.PalOk (f : Func) : Prop extends f.Wf where
  notHost : f.isBridge = true → isHostBridge (f type01Ridr).value = false
  barMask : f.isBridge = true → (f bar0Offset).mask % 16 = 0 ∧ (f type1BarMaxOff).mask % 16 = 0
  barType : f.isBridge = true →
    barReg (f bar0Offset).fixed = 1 ∨ barReg (f type1BarMaxOff).fixed ≠ 1

theorem Func.PalOk.same {f' : Func} (h : SameHw f f') (hf : f.PalOk) : f'.PalOk where
  toWf := hf.toWf.same h
  notHost hbridge := by
    rw [h.value_eq hf.classMask]
    exact hf.notHost ((h.isBridge_eq hf.toWf).symm.trans hbridge)
  barMask hbridge := by
    rw [(h bar0Offset).1, (h type1BarMaxOff).1]
    exact hf.barMask ((h.isBridge_eq hf.toWf).symm.trans hbridge)
  barType hbridge := by
    rw [(h bar0Offset).2, (h type1BarMaxOff).2]
    exact hf.barType ((h.isBridge_eq hf.toWf).symm.trans hbridge)

theorem rpProgramBars_keeps (hf : f.PalOk) (hbridge : f.isBridge = true) (g : Globals)
    (h : busNumRegOffset ≤ offset) :
    ((palPcieRpProgramBar g).run funcPort f).2 offset = f offset := by
  have hmask := hf.barMask hbridge
  have hne : ∀ offset' < busNumRegOffset, offset ≠ offset' := fun _ hlt heq =>
    not_le.mpr hlt (heq ▸ h)
  rw [palPcieRpProgramBar, rpProgramBars, if_pos (by decide), Access.run_bind, rpProgramBars]
  have hnext := rpProgramBar_next bar0Offset f g
  have hfirst := rpProgramBar_keeps f g (hne bar0Offset (by decide))
    (fun _ => hne (bar0Offset + 4) (by decide))
  split_ifs at hnext with h64
  · rw [hnext]
    exact hfirst
  · have hsecond : ((rpProgramBar bar0Offset g).run funcPort f).2 type1BarMaxOff =
        f type1BarMaxOff :=
      rpProgramBar_keeps f g (by decide) fun h => absurd h h64
    have h32 : barReg (f type1BarMaxOff).value ≠ 1 := by
      rw [barReg_value hmask.2]
      rw [barReg_value hmask.1] at h64
      exact (hf.barType hbridge).resolve_left h64
    rw [hnext, if_pos (by decide), Access.run_bind]
    show ((rpProgramBar type1BarMaxOff _).run funcPort _).2 offset = _
    rw [← hsecond] at h32
    rw [rpProgramBar_keeps _ _ (hne type1BarMaxOff (by decide)) (fun h => absurd h h32)]
    exact hfirst

theorem resourceBase32_keeps {limit : Nat} (h : offset' ≠ offset) :
    ((resourceBase32 offset base limit pool).run funcPort f).2 offset' = f offset' := by
  simp only [resourceBase32, run_ite]
  split
  · exact set_of_ne h _ _
  · rfl

theorem getResourceBase64_keeps (h : offset' < preFetOffset) :
    ((getResourceBase64 base pool).run funcPort f).2 offset' = f offset' := by
  simp only [getResourceBase64, run_ite]
  split
  · show (((f.set preFetOffset _).set (preFetOffset + 4) _).set (preFetOffset + 8) _) offset' = _
    rw [set_of_ne (by omega), set_of_ne (by omega), set_of_ne (by omega)]
  · rfl

end

theorem palVisitor_lawful {endBusNum : Nat} (h : endBusNum ≤ 255) :
    (palVisitor endBusNum).Lawful Func.PalOk where
  wf _ hf := hf.toWf
  same _ _ := Func.PalOk.same
  lastBus := succ_le_succ h
  skip _ := rfl
  bridge _ hf hbridge := hf.notHost hbridge
  openBridge f _ _ bus secBus g hbus hsec := by
    exact busNumRegCfg_mod (by decide) hsec hbus
  closeBridge f hf hbridge bus secBus subBus bases g hbus hsec hsub := by
    show (((palCloseBridge bus secBus subBus bases g).run funcPort f).2 busNumRegOffset).written = _
    simp only [palCloseBridge, Access.run_bind, Access.run_pure]
    have hsame :=
      ((sameHw_run (palPciCfgWrite busNumRegOffset (busNumRegCfg subBus secBus bus)) f).trans
      (sameHw_run (resourceBase32 nonPreFetOffset bases.np g.np.max g.np) _)).trans
      ((sameHw_run (resourceBase32 preFetOffset bases.p g.p.max g.p) _).trans
      (sameHw_run (getResourceBase64 bases.p64 g.p64) _))
    rw [rpProgramBars_keeps (hf.same hsame) ((hsame.isBridge_eq hf.toWf).trans hbridge) _ le_rfl,
      getResourceBase64_keeps (by decide), resourceBase32_keeps (by decide),
      resourceBase32_keeps (by decide)]
    exact busNumRegCfg_mod hsub hsec hbus

/-! ## The contract -/

/-- A topology before the enumeration: the slots of each bus are in order, and no bridge
claims a bus. -/
structure Topology (ok : Func → Prop) where
  bus : Bus
  slots : bus.slots.Sublist allSlots
  fresh : bus.Fresh ok

/-- Both enumerations end and number every bridge of a topology whose buses fit. -/
theorem enumerations_number_buses :
    (∀ pcieMaxBus ≤ 256, ∀ (t : Topology Func.Wf) (fuel : Nat),
      t.bus.count + 1 < pcieMaxBus → t.bus.count < fuel →
      ∃ b, pcieEnumerateDevice pcieMaxBus fuel 0 1 t.bus = some (t.bus.count, b) ∧
        b.Numbered 0 ∧ b.secondaries.Nodup ∧ b.secondaries.length = t.bus.count) ∧
    (∀ startBusNum endBusNum, endBusNum ≤ 255 →
      ∀ (t : Topology Func.PalOk) (fuel : Nat) (g : Globals),
      startBusNum + t.bus.count ≤ endBusNum → t.bus.count < fuel →
      ∃ b g', palPcieEnumerateDevice startBusNum endBusNum fuel startBusNum (startBusNum + 1)
          t.bus g = some (startBusNum + t.bus.count, b, g') ∧
        b.Numbered startBusNum ∧ b.secondaries.Nodup ∧ b.secondaries.length = t.bus.count) := by
  constructor
  · intro pcieMaxBus hmax t fuel hroom hfuel
    have hlast : 0 + 1 + t.bus.count ≤ (valVisitor pcieMaxBus).lastBus := by
      show 0 + 1 + t.bus.count ≤ pcieMaxBus - 1
      omega
    obtain ⟨b, _, heq, hnum, hsec⟩ :=
      enumerateDevice_numbered (valVisitor_lawful hmax) t.slots t.fresh hlast hfuel ()
    refine ⟨b, ?_, hnum, hsec ▸ nodup_range', by rw [hsec, length_range']⟩
    rw [pcieEnumerateDevice, heq, zero_add]
    rfl
  · intro startBusNum endBusNum hend t fuel g hroom hfuel
    have hlast : startBusNum + 1 + t.bus.count ≤ (palVisitor endBusNum).lastBus := by
      show startBusNum + 1 + t.bus.count ≤ endBusNum + 1
      omega
    obtain ⟨b, g', heq, hnum, hsec⟩ :=
      enumerateDevice_numbered (palVisitor_lawful hend) t.slots t.fresh hlast hfuel g
    exact ⟨b, g', heq, hnum, hsec ▸ nodup_range', by rw [hsec, length_range']⟩

def plainFunc (classCode headerType : Nat) : Func := fun offset =>
  if offset = 0 then ⟨0, 0, 0x00DC13B5⟩
  else if offset = type01Ridr then ⟨0, 0, classCode <<< 16⟩
  else if offset = headerOffset then ⟨0, 0, headerType <<< 16⟩
  else if offset = busNumRegOffset then ⟨0, 0xFFFFFF, 0⟩
  else ⟨0, 0, 0⟩

theorem palOk_bridge : (plainFunc 0x0604 1).PalOk where
  vendorMask := rfl
  classMask := rfl
  headerMask := rfl
  present := by decide
  busNumMask _ := rfl
  busNumFixed _ := rfl
  notHost _ := by decide
  barMask _ := by decide
  barType _ := by decide

theorem palOk_endpoint : (plainFunc 0x0200 0).PalOk where
  vendorMask := rfl
  classMask := rfl
  headerMask := rfl
  present := by decide
  busNumMask := nofun
  busNumFixed := nofun
  notHost := nofun
  barMask := nofun
  barType := nofun

def endpointBus : Bus := .cons (0, 0) (plainFunc 0x0200 0) .nil .nil

/-- A port with a bridge behind it, and a second port. -/
def twoPorts (ok : Func → Prop) (h : ∀ f, f.PalOk → ok f) : Topology ok where
  bus := .cons (1, 0) (plainFunc 0x0604 1) (.cons (0, 0) (plainFunc 0x0604 1) endpointBus .nil)
    (.cons (2, 0) (plainFunc 0x0604 1) endpointBus .nil)
  slots := by decide
  fresh := by
    have hend : endpointBus.Fresh ok :=
      ⟨h _ palOk_endpoint, fun bus _ => claims_of_not_bridge (by decide), nofun, trivial⟩
    have hport {slot : Slot} {below rest : Bus} (hslots : below.slots = [(0, 0)])
        (hbelow : below.Fresh ok) (hrest : rest.Fresh ok) :
        (Bus.cons slot (plainFunc 0x0604 1) below rest).Fresh ok :=
      ⟨h _ palOk_bridge, fun bus hbus => claims_eq_false hbus,
        fun _ => ⟨hslots ▸ singleton_sublist.mpr (by decide), hbelow⟩, hrest⟩
    exact hport rfl (hport rfl hend trivial) (hport rfl hend trivial)

/-- Buses 0 to 3, and buses 4 to 7 of an ECAM entry for them. -/
theorem enumerations_number_buses_nested :
    (∃ b, pcieEnumerateDevice 256 4 0 1 (twoPorts Func.Wf (fun _ h => h.toWf)).bus = some (3, b) ∧
      b.Numbered 0) ∧
    ∃ b g', palPcieEnumerateDevice 4 7 4 4 5 (twoPorts Func.PalOk (fun _ h => h)).bus rdn2Globals =
      some (7, b, g') ∧ b.Numbered 4 := by
  constructor
  · obtain ⟨b, heq, hnum, -⟩ := enumerations_number_buses.1 256 le_rfl
      (twoPorts Func.Wf (fun _ h => h.toWf)) 4 (by decide) (by decide)
    exact ⟨b, heq, hnum⟩
  · obtain ⟨b, g', heq, hnum, -⟩ := enumerations_number_buses.2 4 7 (by decide)
      (twoPorts Func.PalOk (fun _ h => h)) 4 rdn2Globals (by decide) (by decide)
    exact ⟨b, g', heq, hnum⟩

end ServerSoc.PcieEnum
