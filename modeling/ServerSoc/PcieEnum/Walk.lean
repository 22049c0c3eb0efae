/-
The accesses of the enumeration make the walk on the topology.

While a bus is visited, each bridge on the way to it claims all buses from the next one on
up to 255, the bridges before claim buses that were given out earlier, and those that are
still to come claim none.
-/
import Mathlib.Data.List.Nodup
import ServerSoc.PcieEnum.Enumerate

namespace ServerSoc.PcieEnum

open List

variable {σ loc : Type} {v : Visitor σ loc} {ok : Func → Prop}

variable {root n : Nat} {frames : List Frame} {below rest : Bus} {slot : Slot} {f : Func}

section

variable {before : Bus} {call : Nat → Nat → Bus → σ → Option (Nat × Bus × σ)} {p : Progress σ loc}

theorem read_slot (h : Leads root frames n) (hn : n ≤ 0xFF) (hslot : slot ∉ before.slots)
    (offset : Nat) :
    (Bus.cfgPort root n slot).read (plug frames (before.append (.cons slot f below rest))) offset =
      (f offset).value :=
  congrArg Prod.fst (run_slot h hn hslot (.read offset .done) f)

theorem visitSlot_empty {b : Bus} (h : Leads root frames n) (hn : n ≤ 0xFF) (hslot : slot ∉ b.slots)
    (htree : p.tree = plug frames b) : visitSlot v root call n p slot = some p := by
  simp only [visitSlot]
  rw [htree, read_empty h hn hslot, if_pos (.inr rfl)]

theorem visitSlot_func (hv : v.Lawful ok) (hok : ok f) (h : Leads root frames n) (hn : n ≤ 0xFF)
    (hslot : slot ∉ before.slots)
    (htree : p.tree = plug frames (before.append (.cons slot f below rest))) :
    visitSlot v root call n p slot =
      if (v.skip.run funcPort f).1 then some p
      else if f.headerType = type1Header then
        (call p.secBus (p.secBus + 1) (plug frames (before.append (.cons slot
          ((v.openBridge n p.secBus p.globals).run funcPort f).2 below rest))) p.globals).bind
          (fun r =>
            let closed := (v.closeBridge n p.secBus r.1 p.locals r.2.2).run
              (Bus.cfgPort root n slot) r.2.1
            some ⟨r.1 + 1, r.1, closed.1.1, closed.1.2, closed.2⟩)
      else if f.headerType = type0Header then
        some { p with
          subBus := p.secBus - 1
          globals := ((v.endpoint n p.globals).run funcPort f).1
          tree := plug frames (before.append (.cons slot
            ((v.endpoint n p.globals).run funcPort f).2 below rest)) }
      else some p := by
  have hpresent := (hv.wf f hok).present
  have hskip : v.skip.run (Bus.cfgPort root n slot) p.tree = ((v.skip.run funcPort f).1,
      p.tree) := by
    rw [htree, run_slot h hn hslot, hv.skip]
  have hheader : pcieHeaderType ((Bus.cfgPort root n slot).read p.tree headerOffset) =
      f.headerType := by
    rw [htree, read_slot h hn hslot, Func.headerType]
  have hvendor : (Bus.cfgPort root n slot).read p.tree 0 = (f 0).value := by
    rw [htree, read_slot h hn hslot]
  simp only [visitSlot, hskip, hheader, hvendor]
  rw [if_neg (not_or.mpr hpresent), htree, run_slot h hn hslot, run_slot h hn hslot]
  have hp : ({ p with tree := plug frames (before.append (.cons slot f below rest)) } :
      Progress σ loc) = p := by rw [← htree]
  rw [hp]
  rfl

end

/-! ## The next bus number -/

variable {secBus : Nat} {globals : σ}

section

variable {here : Nat} {locals : loc}

theorem Bus.visit_bridge (hskip : (v.skip.run funcPort f).1 = false)
    (hf : f.headerType = type1Header) :
    (Bus.cons slot f below rest).visit v here secBus locals globals =
      let opened := (v.openBridge here secBus globals).run funcPort f
      let b := below.visit v secBus (secBus + 1) (v.enter globals) globals
      let closed :=
        (v.closeBridge here secBus (b.secBus - 1) locals b.globals).run funcPort opened.2
      (rest.visit v here b.secBus closed.1.1 closed.1.2).push slot closed.2 b.bus := by
  rw [Bus.visit, hskip, if_neg Bool.false_ne_true, if_pos hf]

theorem Bus.visit_secBus (hv : v.Lawful ok) {b : Bus} (h : b.Fresh ok) :
    (b.visit v here secBus locals globals).secBus = secBus + b.count := by
  induction b generalizing here secBus locals globals with
  | nil => rfl
  | cons slot f below rest ihbelow ihrest =>
    obtain ⟨hok, -, hbelow, hrest⟩ := h
    by_cases hbridge : f.isBridge = true
    · rw [Bus.visit_bridge (hv.bridge f hok hbridge) (isBridge_iff.mp hbridge), Bus.count,
        if_pos hbridge]
      show (Bus.visit v rest _ _ _ _).secBus = _
      rw [ihrest hrest, ihbelow (hbelow hbridge).2]
      omega
    · have hheader : f.headerType ≠ type1Header := fun h => hbridge (isBridge_iff.mpr h)
      rw [Bus.visit, Bus.count, if_neg hbridge, zero_add]
      split
      · exact ihrest hrest
      · split <;> exact ihrest hrest

end

/-! ## The loops -/

section

variable {fuel bus : Nat} {r : Visited σ loc} {b done : Bus}

theorem foldlM_eq_self {α β : Type} {g : β → α → Option β} {l : List α} {b : β}
    (h : ∀ a ∈ l, g b a = some b) : l.foldlM g b = some b := by
  induction l with
  | nil => rfl
  | cons a l ih =>
    rw [foldlM_cons, h a mem_cons_self]
    exact ih fun a' ha' => h a' (mem_cons_of_mem a ha')

def before (frames : List Frame) (done todo : Bus) (secBus : Nat) (locals : loc) (globals : σ) :
    Progress σ loc :=
  ⟨secBus, secBus - 1, locals, globals, plug frames (done.append todo)⟩

/-- The variables of a call when the visit of the rest of the bus gave `r`. -/
def after (frames : List Frame) (done : Bus) (r : Visited σ loc) : Progress σ loc :=
  ⟨r.secBus, r.secBus - 1, r.locals, r.globals, plug frames (done.append r.bus)⟩

theorem after_push (frames : List Frame) (done : Bus) (r : Visited σ loc) (slot : Slot) (f : Func)
    (below : Bus) :
    after frames (done.append (.cons slot f below .nil)) r =
      after frames done (r.push slot f below) := by
  rw [after, Bus.append_assoc]
  rfl

theorem before_append (frames : List Frame) (done rest below : Bus) (slot : Slot) (f : Func)
    (secBus : Nat) (locals : loc) (globals : σ) :
    before frames (done.append (.cons slot f below .nil)) rest secBus locals globals =
      before frames done (.cons slot f below rest) secBus locals globals := by
  rw [before, Bus.append_assoc]
  rfl

theorem nodup_allSlots : allSlots.Nodup := by
  have hprod : allSlots = range pcieMaxDev ×ˢ range pcieMaxFunc := rfl
  rw [hprod]
  exact List.Nodup.product nodup_range nodup_range

theorem sublist_split {l l' : List Slot} (h : (slot :: l').Sublist l) (hl : l.Nodup) :
    ∃ l1 l2, l = l1 ++ slot :: l2 ∧ l'.Sublist l2 ∧ l2.Nodup ∧ slot ∉ l2 ∧
      ∀ s ∈ l1, s ∉ slot :: l' := by
  obtain ⟨r1, r2, rfl, hmem, hsub⟩ := cons_sublist_iff.mp h
  obtain ⟨l1, l2, rfl⟩ := append_of_mem hmem
  rw [append_assoc] at hl ⊢
  obtain ⟨-, hright, hdisj⟩ := nodup_append.mp hl
  obtain ⟨hslot, hnodup⟩ := nodup_cons.mp hright
  have hsub' := hsub.trans (sublist_append_right l2 r2)
  refine ⟨l1, l2 ++ r2, rfl, hsub', hnodup, hslot, fun s hs hmem' => ?_⟩
  refine hdisj s hs s ?_ rfl
  rcases mem_cons.mp hmem' with rfl | hmem'
  · exact mem_cons_self
  · exact mem_cons_of_mem slot (hsub'.subset hmem')

theorem enumerateDevice_succ (frames : List Frame) (hn : n ≠ v.lastBus)
    (h : allSlots.foldlM (visitSlot v root (enumerateDevice v root fuel) n)
      (before frames .nil b (n + 1) (v.enter globals) globals) = some (after frames .nil r)) :
    enumerateDevice v root (fuel + 1) n (n + 1) (plug frames b) globals =
      some (r.secBus - 1, plug frames r.bus, r.globals) := by
  rw [enumerateDevice, if_neg hn]
  exact congrArg (Option.map (fun p => (p.subBus, p.tree, p.globals))) h

/-- A bridge that is written with its bus numbers is on the way to its secondary bus. -/
theorem leads_cons (hv : v.Lawful ok) (hok : ok f) (hbridge : f.isBridge = true) (slot : Slot)
    (hwritten : (f busNumRegOffset).written = busNumRegCfg 0xFF secBus n)
    (h : Leads root frames n) (hn : n < secBus) (hsec : secBus < 256)
    (hdone : ∀ bus, secBus ≤ bus → done.claims bus = false) (hrest : rest.Fresh ok) :
    Leads root (⟨n, done, slot, f, rest⟩ :: frames) secBus := by
  obtain ⟨-, hs, hsub⟩ :=
    busNumbers_of_written (hv.wf f hok) hbridge hwritten (by decide) hsec (by omega)
  exact ⟨hn, hbridge, hs, hsub, hdone, fun bus hbus => hrest.claims (by omega), h⟩

theorem visitSlot_bridge (hv : v.Lawful ok) (hok : ok f) (hbridge : f.isBridge = true)
    {locals : loc} (h : Leads root frames n) (hn : n ≤ 0xFF) (hslot : slot ∉ done.slots)
    (hcall : enumerateDevice v root fuel secBus (secBus + 1)
        (plug (⟨n, done, slot, ((v.openBridge n secBus globals).run funcPort f).2, rest⟩ :: frames)
          below) globals = some (r.secBus - 1,
            plug (⟨n, done, slot, ((v.openBridge n secBus globals).run funcPort f).2, rest⟩ ::
              frames) r.bus, r.globals))
    (hpos : 0 < r.secBus) :
    visitSlot v root (enumerateDevice v root fuel) n
        (before frames done (.cons slot f below rest) secBus locals globals) slot =
      let closed := (v.closeBridge n secBus (r.secBus - 1) locals r.globals).run funcPort
        ((v.openBridge n secBus globals).run funcPort f).2
      some
        (before frames done (.cons slot closed.2 r.bus rest) r.secBus closed.1.1 closed.1.2) := by
  rw [visitSlot_func hv hok h hn hslot rfl, hv.bridge f hok hbridge,
    if_pos (isBridge_iff.mp hbridge)]
  refine (congrArg (Option.bind · _) hcall).trans ?_
  simp only [Option.bind_some, plug, run_slot h hn hslot, before]
  rw [Nat.sub_add_cancel hpos]

theorem claims_eq_false (h : f.subordinate < bus) : f.claims bus = false := by
  simp [Func.claims, not_le.mpr h]

theorem claims_of_not_bridge (h : ¬ f.isBridge = true) : f.claims bus = false := by
  simp [Func.claims, h]

theorem foldlM_visitSlot (hv : v.Lawful ok) {todo : Bus} (done : Bus) (l : List Slot) (fuel : Nat)
    (locals : loc) (globals : σ) (h : Leads root frames n) (hn : n < secBus)
    (hdone : ∀ bus, secBus ≤ bus → done.claims bus = false) (hfresh : todo.Fresh ok)
    (hslots : todo.slots.Sublist l) (hnodup : l.Nodup) (hdisj : ∀ slot ∈ done.slots, slot ∉ l)
    (hroom : secBus + todo.count ≤ v.lastBus) (hfuel : todo.count ≤ fuel) :
    l.foldlM (visitSlot v root (enumerateDevice v root fuel) n)
        (before frames done todo secBus locals globals) =
      some (after frames done (todo.visit v n secBus locals globals)) := by
  have hlast := hv.lastBus
  have hn' : n ≤ 0xFF := by omega
  induction todo generalizing done l fuel locals globals frames n secBus with
  | nil =>
    refine foldlM_eq_self fun slot hslot => visitSlot_empty h hn' ?_ rfl
    rw [Bus.append_nil]
    exact fun hmem => hdisj slot hmem hslot
  | cons slot f below rest ihbelow ihrest =>
    obtain ⟨hok, -, hbelow, hrest⟩ := hfresh
    obtain ⟨l1, l2, rfl, hsub, hnodup2, hslot2, hl1⟩ := sublist_split hslots hnodup
    have hslot : slot ∉ done.slots := fun hmem => hdisj slot hmem (by simp)
    -- what is needed to go on behind this function
    have hdisj2 : ∀ f' below', ∀ s ∈ (done.append (.cons slot f' below' .nil)).slots, s ∉ l2 := by
      intro f' below' s hs hs2
      rw [Bus.slots_append] at hs
      rcases mem_append.mp hs with hs | hs
      · exact hdisj s hs (by simp [hs2])
      · obtain rfl := mem_singleton.mp hs
        exact hslot2 hs2
    have hgo : ∀ f' below' secBus' locals' globals', n < secBus' →
        secBus' + rest.count ≤ v.lastBus →
        (∀ bus, secBus' ≤ bus → done.claims bus = false ∧ f'.claims bus = false) →
        l2.foldlM (visitSlot v root (enumerateDevice v root fuel) n)
          (before frames done (.cons slot f' below' rest) secBus' locals' globals') =
        some (after frames done
          ((rest.visit v n secBus' locals' globals').push slot f' below')) := by
      intro f' below' secBus' locals' globals' hlt hroom' hclaims
      rw [← before_append, ← after_push]
      refine ihrest _ l2 fuel locals' globals' h hlt (fun bus hbus => ?_)
        hrest hsub hnodup2 (hdisj2 f' below') hroom' ?_ hn'
      · obtain ⟨h1, h2⟩ := hclaims bus hbus
        simp [Bus.claims_append, Bus.claims, h1, h2]
      · rw [Bus.count] at hfuel
        omega
    have hskip : ∀ s ∈ l1, s ∉ (done.append (.cons slot f below rest)).slots := by
      intro s hs hmem
      rw [Bus.slots_append] at hmem
      rcases mem_append.mp hmem with hmem | hmem
      · exact hdisj s hmem (by simp [hs])
      · exact hl1 s hs hmem
    rw [foldlM_append, foldlM_eq_self (fun s hs => visitSlot_empty h hn' (hskip s hs) rfl)]
    show (visitSlot v root (enumerateDevice v root fuel) n _ slot).bind _ = _
    by_cases hbridge : f.isBridge = true
    · rw [Bus.count, if_pos hbridge] at hroom hfuel
      obtain ⟨fuel, rfl⟩ : ∃ k, fuel = k + 1 := ⟨fuel - 1, by omega⟩
      -- the call for the bus below
      have hsame := sameHw_run (v.openBridge n secBus globals) f
      have hok1 := hv.same _ _ hsame hok
      have hbridge1 := (hsame.isBridge_eq (hv.wf f hok)).trans hbridge
      have hleads := leads_cons hv hok1 hbridge1 slot
        (hv.openBridge f hok hbridge n secBus globals (by omega) (by omega)) h hn (by omega)
          hdone hrest
      have hloop :=
        ihbelow .nil allSlots fuel (v.enter globals) globals hleads (Nat.lt_add_one secBus)
        (fun _ _ => rfl) (hbelow hbridge).2 (hbelow hbridge).1 nodup_allSlots
          (fun _ h => absurd h not_mem_nil)
        (by omega) (by omega) (by omega)
      have hcall := enumerateDevice_succ _ (by omega) hloop
      have hcount : (below.visit v secBus (secBus + 1) (v.enter globals) globals).secBus =
        secBus + 1 + below.count := Bus.visit_secBus hv (hbelow hbridge).2
      have hsame2 := sameHw_run (v.closeBridge n secBus (secBus + 1 + below.count - 1) locals
        (below.visit v secBus (secBus + 1) (v.enter globals) globals).globals)
        ((v.openBridge n secBus globals).run funcPort f).2
      have hbridge2 := (hsame2.isBridge_eq (hv.wf _ hok1)).trans hbridge1
      obtain ⟨-, -, hsub2⟩ := busNumbers_of_written (hv.wf _ (hv.same _ _ hsame2 hok1)) hbridge2
        (hv.closeBridge _ hok1 hbridge1 n secBus (secBus + 1 + below.count - 1) locals _ (by omega)
          (by omega) (by omega))
        (by omega) (by omega) (by omega)
      rw [visitSlot_bridge hv hok hbridge h hn' hslot hcall (by omega),
        Bus.visit_bridge (hv.bridge f hok hbridge) (isBridge_iff.mp hbridge)]
      dsimp only
      rw [hcount]
      refine hgo _ _ _ _ _ (by omega) (by omega)
        (fun bus hbus => ⟨hdone bus (by omega), claims_eq_false ?_⟩)
      omega
    · have hheader : f.headerType ≠ type1Header := fun h => hbridge (isBridge_iff.mpr h)
      rw [Bus.count, if_neg hbridge, zero_add] at hroom
      rw [visitSlot_func hv hok h hn' hslot rfl, Bus.visit]
      have hstay : ∀ bus, secBus ≤ bus → done.claims bus = false ∧ f.claims bus = false :=
        fun bus hbus => ⟨hdone bus hbus, claims_of_not_bridge hbridge⟩
      split
      · exact hgo f below secBus locals globals hn hroom hstay
      · split
        · refine hgo _ below secBus locals _ hn hroom (fun bus hbus => ⟨hdone bus hbus, ?_⟩)
          apply claims_of_not_bridge
          rw [(sameHw_run _ f).isBridge_eq (hv.wf f hok)]
          exact hbridge
        · exact hgo f below secBus locals globals hn hroom hstay

theorem enumerateDevice_eq (hv : v.Lawful ok) (hslots : b.slots.Sublist allSlots)
    (hfresh : b.Fresh ok) (hroom : root + 1 + b.count ≤ v.lastBus) (hfuel : b.count < fuel)
    (globals : σ) :
    let r := b.visit v root (root + 1) (v.enter globals) globals
    enumerateDevice v root fuel root (root + 1) b globals = some (r.secBus - 1, r.bus,
      r.globals) := by
  obtain ⟨fuel, rfl⟩ : ∃ k, fuel = k + 1 := ⟨fuel - 1, by omega⟩
  exact enumerateDevice_succ [] (by omega)
    (foldlM_visitSlot hv _ _ _ _ _ rfl (Nat.lt_succ_self root) (fun _ _ => rfl) hfresh hslots
      nodup_allSlots (fun _ h => absurd h not_mem_nil) hroom (by omega))

end

end ServerSoc.PcieEnum
