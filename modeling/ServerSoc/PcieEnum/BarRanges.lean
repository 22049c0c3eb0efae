/-
The ranges of the BARs after an enumeration (pal_pcie_enumerate).

The BARs in a topology, in the order of the walk, are the steps of the pools, except for those that
the code does not program.
-/
import ServerSoc.Base.Ranges
import ServerSoc.PcieEnum.Allocate

namespace ServerSoc.PcieEnum

open Base Func Function List

/-! ## The history of a pool

The BARs of a pool are aligned and disjoint exactly when each step finds a start that is a multiple
of the size of its BAR, and a last BAR that ends before the new address. -/

/-- The address that a step gets from the start, with the bus and the size of the last BAR. -/
def Step.reach (prev s : Step) : Nat :=
  s.start + if prev.bus = s.bus then Nat.max (prev.size % 2 ^ 32) s.size else 0

structure StepsOk (l : List Step) : Prop where
  aligned : ∀ s ∈ l, s.size ∣ s.start
  past : l.IsChain fun prev s => prev.address + prev.size ≤ prev.reach s

def Step.range (s : Step) : Nat × Nat := (s.address, s.size)

structure RangesOk (l : List (Nat × Nat)) : Prop where
  aligned : ∀ r ∈ l, r.2 ∣ r.1
  apart : l.Pairwise Apart

structure Alloc.Inv (a : Alloc) : Prop where
  first : a.steps = [] → a.size = 0
  last : ∀ s ∈ a.steps.getLast?, a.bus = s.bus ∧ a.size = s.size % 2 ^ 32 ∧ s.address ≤ a.start
  linked : a.steps.IsChain (fun prev s => s.address = prev.reach s ∧ prev.address ≤ s.start)
  moved : ∀ s ∈ a.steps, ∃ c, s.address = s.start + c * s.size
  power : ∀ s ∈ a.steps, ∃ k, s.size = 2 ^ k

section

variable {a : Alloc} {bus base : Nat} {q : PoolName}

section

variable (h : a.Inv)
include h

theorem Alloc.Inv.size_eq : a.size = 0 ∨ ∃ j, a.size = 2 ^ j := by
  cases hl : a.steps.getLast? with
  | none => exact .inl (h.first (getLast?_eq_none_iff.mp hl))
  | some s =>
    obtain ⟨-, hsize, -⟩ := h.last s hl
    obtain ⟨k, hk⟩ := h.power s (mem_of_getLast? hl)
    rw [hsize, hk]
    by_cases hlt : k < 32
    · exact .inr ⟨k, Nat.mod_eq_of_lt (Nat.pow_lt_pow_right (by decide) hlt)⟩
    · exact .inl (Nat.mod_eq_zero_of_dvd (Nat.pow_dvd_pow 2 (by omega)))

theorem Alloc.Inv.dvd_max (k : Nat) : 2 ^ k ∣ Nat.max a.size (2 ^ k) := by
  show 2 ^ k ∣ Max.max a.size (2 ^ k)
  rcases le_total a.size (2 ^ k) with hle | hle
  · rw [Nat.max_eq_right hle]
  · rw [Nat.max_eq_left hle]
    rcases h.size_eq with hzero | ⟨j, hj⟩
    · rw [hzero]
      exact Nat.dvd_zero _
    · rw [hj] at hle ⊢
      exact Nat.pow_dvd_pow 2 ((Nat.pow_le_pow_iff_right (by decide)).mp hle)

theorem Alloc.Inv.place (k : Nat) : (a.place bus (2 ^ k)).Inv where
  first hnil := by simp [Alloc.place] at hnil
  last s hs := by
    simp only [Alloc.place, getLast?_concat, Option.mem_some_iff] at hs
    subst hs
    exact ⟨rfl, rfl, le_rfl⟩
  linked := by
    refine h.linked.append (isChain_singleton _) fun s hs s' hs' => ?_
    obtain ⟨hbus, hsize, hle⟩ := h.last s hs
    simp only [head?_cons, Option.mem_some_iff] at hs'
    subst hs'
    refine ⟨?_, hle⟩
    rw [Step.reach, ← hbus, ← hsize]
    rfl
  moved s hs := by
    rcases mem_append.mp hs with hs | hs
    · exact h.moved s hs
    · obtain rfl := mem_singleton.mp hs
      rw [Alloc.nextStart]
      split
      · obtain ⟨c, hc⟩ := h.dvd_max k
        exact ⟨c, by rw [hc, mul_comm]⟩
      · exact ⟨0, by rw [zero_mul]⟩
  power s hs := by
    rcases mem_append.mp hs with hs | hs
    · exact h.power s hs
    · obtain rfl := mem_singleton.mp hs
      exact ⟨k, rfl⟩

theorem Alloc.Inv.raise {a' : Alloc} (hsteps : a'.steps = a.steps)
    (hsize : a'.size = a.size) (hbus : a'.bus = a.bus) (hle : a.start ≤ a'.start) : a'.Inv where
  first := by rw [hsteps, hsize]; exact h.first
  last := by
    rw [hsteps, hsize, hbus]
    intro s hs
    obtain ⟨h1, h2, h3⟩ := h.last s hs
    exact ⟨h1, h2, h3.trans hle⟩
  linked := hsteps ▸ h.linked
  moved := hsteps ▸ h.moved
  power := hsteps ▸ h.power

theorem Alloc.Inv.close (base : Nat) (q : PoolName) : (a.close base q).Inv := by
  obtain ⟨start, hle, heq⟩ := a.close_eq base q
  rw [heq]
  exact h.raise rfl rfl rfl hle

theorem Alloc.Inv.rangesOk_iff : RangesOk (a.steps.map Step.range) ↔ StepsOk a.steps := by
  have haligned : (∀ r ∈ a.steps.map Step.range, r.2 ∣ r.1) ↔ ∀ s ∈ a.steps, s.size ∣ s.start := by
    rw [forall_mem_map]
    refine forall₂_congr fun s hs => ?_
    obtain ⟨c, hc⟩ := h.moved s hs
    show s.size ∣ s.address ↔ _
    rw [hc]
    exact Nat.dvd_add_left (Nat.dvd_mul_left _ _)
  have hmono : (a.steps.map Step.range).IsChain (fun r r' => r.1 ≤ r'.1) := by
    rw [isChain_map]
    refine h.linked.imp fun prev s hlink => ?_
    obtain ⟨h1, h2⟩ := hlink
    show prev.address ≤ s.address
    rw [h1, Step.reach]
    omega
  have hpos : ∀ r ∈ a.steps.map Step.range, 0 < r.2 := by
    rw [forall_mem_map]
    intro s hs
    obtain ⟨k, hk⟩ := h.power s hs
    show 0 < s.size
    rw [hk]
    exact Nat.two_pow_pos k
  have hpast : (a.steps.map Step.range).IsChain Ahead ↔
      a.steps.IsChain (fun prev s => prev.address + prev.size ≤ prev.reach s) := by
    rw [isChain_map]
    constructor
    · intro hc
      refine isChain_imp₂ h.linked hc fun prev s _ _ hlink hahead => ?_
      rw [← hlink.1]
      exact hahead
    · intro hc
      refine isChain_imp₂ h.linked hc fun prev s _ _ hlink hpast => ?_
      show prev.address + prev.size ≤ s.address
      rw [hlink.1]
      exact hpast
  constructor
  · intro hr
    exact ⟨haligned.mp hr.aligned, hpast.mp ((pairwise_apart_iff hmono hpos).mp hr.apart)⟩
  · intro hs
    exact ⟨haligned.mpr hs.aligned, (pairwise_apart_iff hmono hpos).mpr (hpast.mpr hs.past)⟩

end

end

/-! ## The BARs of a topology -/

def Func.placed (f : Func) (q : PoolName) : List (Nat × Nat) :=
  (f.bars.filter (fun b => b.pool = q)).map fun b => (f.address b, b.size)

def Func.programmed (f : Func) (q : PoolName) : List (Nat × Nat) :=
  (f.bars.filter (fun b => b.pool = q ∧ b.seenSize ≠ 0)).map fun b => (f.address b, b.size)

namespace Bus

def placed (q : PoolName) : Bus → List (Nat × Nat)
  | nil => []
  | cons _ f below rest =>
    (match f.kind with
      | .host | .other => []
      | .bridge => below.placed q
      | .endpoint => f.placed q) ++ rest.placed q

def programmed (q : PoolName) : Bus → List (Nat × Nat)
  | nil => []
  | cons _ f below rest =>
    (match f.kind with
      | .host | .other => []
      | .bridge => below.programmed q
      | .endpoint => f.programmed q) ++ rest.programmed q

def Sized : Bus → Prop
  | nil => True
  | cons _ f below rest =>
    (match f.kind with
      | .host | .other => True
      | .bridge => below.Sized
      | .endpoint => ∀ b ∈ f.bars, b.seenSize ≠ 0) ∧ rest.Sized

end Bus

variable {A : Allocs} {g : Globals}

section

variable {f f' : Func} {bus : Nat} {s : BarState} {l : List Bar} {b : Bar}

theorem SameHw.kind_eq (h : SameHw f f') (hf : f.Wf) : f'.kind = f.kind := by
  rw [kind, h.value_eq hf.classMask, h.headerType_eq hf, kind]

theorem size_of_mem_barsFrom {turns offset : Nat} (h : f.BarsWf turns offset)
    (hb : b ∈ f.barsFrom turns offset) : ∃ k, b.size = 2 ^ k := by
  induction turns generalizing offset with
  | zero => cases hb
  | succ turns ih =>
    rw [barsFrom] at hb
    split at hb
    · rename_i hoff
      obtain ⟨hbar, hrest⟩ := h hoff
      rcases mem_append.mp hb with hb | hb
      · split_ifs at hb with hsize
        · cases hb
        · obtain rfl := mem_singleton.mp hb
          obtain ⟨k, -, hk⟩ := hbar.size.resolve_left hsize
          exact ⟨k, hk⟩
      · exact ih hrest hb
    · cases hb

theorem seenSize_eq (h : ∃ k, b.size = 2 ^ k) (hseen : b.seenSize ≠ 0) : b.seenSize = b.size := by
  obtain ⟨k, hk⟩ := h
  rw [Bar.seenSize] at hseen ⊢
  split_ifs with hpre
  · rfl
  · rw [if_neg hpre, hk] at hseen
    rw [hk]
    apply Nat.mod_eq_of_lt
    apply Nat.pow_lt_pow_right (by decide)
    by_contra hlt
    exact hseen (Nat.mod_eq_zero_of_dvd (Nat.pow_dvd_pow 2 (by omega)))

theorem bars_steps (h : s.Sim bus A) (hfits : (A.bars bus l).Fits) {addr : Bar → Nat}
    (haddr : List.Forall₂ (fun b start => b.seenSize ≠ 0 → addr b = start) l (starts bus l s))
    (q : PoolName) :
    ∃ new, (A.bars bus l q).steps = (A q).steps ++ new ∧
      new.map Step.range = (l.filter (fun b => b.pool = q ∧ b.seenSize ≠ 0)).map
        (fun b => (addr b, b.seenSize)) := by
  induction l generalizing s A with
  | nil => exact ⟨[], (append_nil _).symm, rfl⟩
  | cons b l ih =>
    have hfits' : (A.bar bus b).Fits := hfits.mono fun q => ((A.bar bus b).grows_bars bus l q).le
    have hstep := h.step b hfits'
    obtain ⟨hhead, htail⟩ := forall₂_cons.mp haddr
    obtain ⟨new, hsteps, hmap⟩ := ih hstep hfits htail
    by_cases hb : b.seenSize = 0
    · have hbar : A.bar bus b = A := if_pos hb
      refine ⟨new, ?_, ?_⟩
      · refine hsteps.trans ?_
        rw [hbar]
      · rw [filter_cons_of_neg (by simp [hb]), hmap]
    have hbar : A.bar bus b = update A b.pool ((A b.pool).place bus b.seenSize) := if_neg hb
    by_cases hq : b.pool = q
    · refine ⟨⟨(A q).start, bus, b.seenSize, (A q).nextStart bus b.seenSize⟩ :: new, ?_, ?_⟩
      · refine hsteps.trans ?_
        rw [hbar, ← hq, update_self, Alloc.place, append_assoc]
        rfl
      · have haddr' : addr b = (A q).nextStart bus b.seenSize := by
          rw [hhead hb, (hstep.globals b.pool).start, hbar, update_self, hq]
          rfl
        rw [filter_cons_of_pos (by simp [hq, hb]), map_cons, map_cons, hmap, haddr']
        rfl
    · refine ⟨new, ?_, ?_⟩
      · refine hsteps.trans ?_
        rw [hbar, update_of_ne (fun h => hq h.symm)]
      · rw [filter_cons_of_neg (by simp [hq]), hmap]

theorem endpoint_steps (h : g.Sim A) (hf : f.BarsWf 6 bar0Offset)
    (hfits : (A.endpoint bus f.bars).Fits) (q : PoolName) :
    ∃ new, (A.endpoint bus f.bars q).steps = (A q).steps ++ new ∧
      new.map Step.range = ((palPcieProgramBarReg bus g).run funcPort f).2.programmed q := by
  have hspec := programBars_spec bus ⟨0, 0, 0, g⟩ hf
  obtain ⟨new, hsteps, hmap⟩ := bars_steps (h.barState bus) hfits hspec.address q
  refine ⟨new, hsteps, ?_⟩
  rw [hmap, programmed, (sameHw_run _ f).bars_eq, run_palPcieProgramBarReg]
  refine map_congr_left fun b hb => ?_
  obtain ⟨hmem, hseen⟩ := mem_filter.mp hb
  rw [seenSize_eq (size_of_mem_barsFrom hf hmem) (of_decide_eq_true hseen).2]

theorem Func.placed_eq_programmed (h : ∀ b ∈ f.bars, b.seenSize ≠ 0) (q : PoolName) :
    f.placed q = f.programmed q := by
  rw [placed]
  congr 1
  refine filter_congr fun b hb => ?_
  simp [h b hb]

end

/-! ## The walk -/

section

variable {b : Bus} {here secBus : Nat} {bases : Bases} {B : PoolName → Nat}

/-- The walk gives out the bus numbers of the allocation, and its addresses step by step. -/
structure Visited.Sim (r : Visited Globals Bases) (A : Allocs)
    (a : Nat × (PoolName → Nat) × Allocs) : Prop where
  secBus : r.secBus = a.1
  globals : r.globals.Sim a.2.2
  steps : ∀ q, ∃ new, (a.2.2 q).steps = (A q).steps ++ new ∧
    new.map Step.range = r.bus.programmed q

theorem visit_sim (endBusNum : Nat) (hb : b.Fresh Func.AllocOk) (hsim : g.Sim A)
    (hB : ∀ q, bases.get q = B q) (hfits : (b.allocate here secBus B A).2.2.Fits) :
    (b.visit (palVisitor endBusNum) here secBus bases g).Sim A (b.allocate here secBus B A) := by
  induction b generalizing here secBus bases B g A with
  | nil => exact ⟨rfl, hsim, fun _ => ⟨[], (append_nil _).symm, rfl⟩⟩
  | cons slot f below rest ihbelow ihrest =>
    obtain ⟨hok, -, hbelow, hrest⟩ := hb
    rw [Bus.allocate] at hfits ⊢
    rw [visit_pal_cons]
    cases hkind : f.kind with
    | host | other =>
      rw [hkind] at hfits
      obtain ⟨hsec, hglobals, hsteps⟩ := ihrest hrest hsim hB hfits
      refine ⟨hsec, hglobals, fun q => ?_⟩
      obtain ⟨new, hnew, hmap⟩ := hsteps q
      refine ⟨new, hnew, ?_⟩
      rw [hmap]
      show _ = Bus.programmed q (.cons slot f below _)
      rw [Bus.programmed, hkind, nil_append]
    | endpoint =>
      rw [hkind] at hfits
      have hwf := hok.bars (headerType_of_endpoint hkind)
      have hfits' := hfits.mono fun q => rest.le_allocate here _ _ _ q
      obtain ⟨hsec, hglobals, hsteps⟩ := ihrest hrest (hsim.endpoint here hwf hfits') hB hfits
      refine ⟨hsec, hglobals, fun q => ?_⟩
      obtain ⟨new1, hnew1, hmap1⟩ := endpoint_steps hsim hwf hfits' q
      obtain ⟨new, hnew, hmap⟩ := hsteps q
      refine ⟨new1 ++ new, by rw [hnew, hnew1, append_assoc], ?_⟩
      rw [map_append, hmap, hmap1]
      show _ = Bus.programmed q (.cons slot _ below _)
      rw [Bus.programmed, (sameHw_run _ f).kind_eq hok.toWf, hkind]
    | bridge =>
      rw [hkind] at hfits
      dsimp only at hfits ⊢
      have hfits1 := hfits.mono fun q => rest.le_allocate here _ _ _ q
      have hfresh := (hbelow ((kind_eq_bridge_iff hok.toPalOk).mp hkind)).2
      obtain ⟨hsec1, hsim1, hsteps1⟩ := ihbelow hfresh hsim hsim.bases
        (hfits1.mono (fun q => Alloc.le_close _ _))
      obtain ⟨hsim2, hB2⟩ := hsim1.close here
        secBus ((below.visit (palVisitor endBusNum) secBus (secBus + 1) g.bases g).secBus - 1)
          hB hfits1
      rw [hsec1] at hsim2 hB2 ⊢
      obtain ⟨hsec, hglobals, hsteps⟩ := ihrest hrest hsim2 hB2 hfits
      refine ⟨hsec, hglobals, fun q => ?_⟩
      obtain ⟨new1, hnew1, hmap1⟩ := hsteps1 q
      obtain ⟨new, hnew, hmap⟩ := hsteps q
      obtain ⟨start, -, hclose⟩ := Alloc.close_eq
        ((below.allocate secBus (secBus + 1) A.bases A).2.2 q) (B q) q
      refine ⟨new1 ++ new, ?_, ?_⟩
      · rw [hnew, Allocs.close, hclose, hnew1, append_assoc]
      · rw [map_append, hmap, hmap1]
        show _ = Bus.programmed q (.cons slot _ _ _)
        rw [Bus.programmed, (sameHw_run_run f).kind_eq hok.toWf, hkind]

theorem Allocs.inv_bars (hA : ∀ q, (A q).Inv) (l : List Bar) (hl : ∀ b ∈ l, ∃ k, b.size = 2 ^ k)
    (bus : Nat) (q : PoolName) : (A.bars bus l q).Inv := by
  induction l generalizing A with
  | nil => exact hA q
  | cons b l ih =>
    refine ih (fun q => ?_) fun b' hb' => hl b' (mem_cons_of_mem b hb')
    show (A.bar bus b q).Inv
    rw [Allocs.bar]
    split_ifs with hseen
    · exact hA q
    · by_cases hq : q = b.pool
      · obtain ⟨k, hk⟩ := hl b mem_cons_self
        rw [hq, update_self, seenSize_eq ⟨k, hk⟩ hseen, hk]
        exact (hA b.pool).place k
      · rw [update_of_ne hq]
        exact hA q

theorem Bus.inv_allocate (hb : b.Fresh Func.AllocOk) (hA : ∀ q, (A q).Inv) (q : PoolName) :
    ((b.allocate here secBus B A).2.2 q).Inv := by
  induction b generalizing here secBus B A q with
  | nil => exact hA q
  | cons slot f below rest ihbelow ihrest =>
    obtain ⟨hok, -, hbelow, hrest⟩ := hb
    rw [Bus.allocate]
    cases hkind : f.kind with
    | host | other => exact ihrest hrest hA q
    | endpoint =>
      refine ihrest hrest (fun q => ?_) q
      have hsizes := fun b hb =>
        size_of_mem_barsFrom (b := b) (hok.bars (headerType_of_endpoint hkind)) hb
      exact (Allocs.inv_bars hA f.bars hsizes here q).raise rfl rfl rfl le_rfl
    | bridge =>
      have hfresh := (hbelow ((kind_eq_bridge_iff hok.toPalOk).mp hkind)).2
      exact ihrest hrest (fun q => (ihbelow hfresh hA q).close _ q) q

theorem placed_of_unsized {f : Func} (bus : Nat) (g : Globals) (hf : f.BarsWf 6 bar0Offset)
    {bar : Bar} (hmem : bar ∈ f.bars) (hseen : bar.seenSize = 0) :
    ∃ r ∈ ((palPcieProgramBarReg bus g).run funcPort f).2.placed .np, ¬ r.2 ∣ r.1 := by
  obtain ⟨k, hk⟩ := size_of_mem_barsFrom hf hmem
  have hpos := Nat.two_pow_pos k
  rw [Bar.seenSize] at hseen
  split_ifs at hseen with hpre
  · omega
  · have hpool : bar.pool = .np := by rw [Bar.pool, if_neg hpre]
    have hwritten := (programBars_spec bus ⟨0, 0, 0, g⟩ hf).unsized bar hmem
      (by rw [Bar.seenSize, if_neg hpre]; exact hseen)
    refine ⟨(_, bar.size), mem_map.mpr ⟨bar, ?_, rfl⟩, fun hdvd => ?_⟩
    · rw [(sameHw_run _ f).bars_eq]
      exact mem_filter.mpr ⟨hmem, by simp [hpool]⟩
    · have h32 := Nat.dvd_trans (Nat.dvd_of_mod_eq_zero hseen) hdvd
      rw [run_palPcieProgramBarReg, address, hwritten] at h32
      split at h32 <;> omega

/-- The BARs of a part of the topology are those that the code programs if it reads all their
sizes, and otherwise one of them is not aligned. -/
structure PlacedIf (sized : Prop) (placed programmed : PoolName → List (Nat × Nat)) : Prop where
  all : sized → ∀ q, placed q = programmed q
  unaligned : ¬ sized → ∃ r ∈ placed .np, ¬ r.2 ∣ r.1

theorem PlacedIf.append {s s' : Prop} {p p' l l' : PoolName → List (Nat × Nat)}
    (h : PlacedIf s p l) (h' : PlacedIf s' p' l') :
    PlacedIf (s ∧ s') (fun q => p q ++ p' q) (fun q => l q ++ l' q) where
  all hs q := by rw [h.all hs.1, h'.all hs.2]
  unaligned hnot := by
    by_cases hs : s
    · obtain ⟨r, hr, hdvd⟩ := h'.unaligned (fun hs' => hnot ⟨hs, hs'⟩)
      exact ⟨r, mem_append_right _ hr, hdvd⟩
    · obtain ⟨r, hr, hdvd⟩ := h.unaligned hs
      exact ⟨r, mem_append_left _ hr, hdvd⟩

theorem visit_placed (endBusNum : Nat) (hb : b.Fresh Func.AllocOk) :
    PlacedIf b.Sized (fun q => (b.visit (palVisitor endBusNum) here secBus bases g).bus.placed q)
      (fun q => (b.visit (palVisitor endBusNum) here secBus bases g).bus.programmed q) := by
  induction b generalizing here secBus bases g with
  | nil => exact ⟨fun _ _ => rfl, fun h => absurd trivial h⟩
  | cons slot f below rest ihbelow ihrest =>
    obtain ⟨hok, -, hbelow, hrest⟩ := hb
    rw [visit_pal_cons]
    cases hkind : f.kind with
    | host | other =>
      simp only [Visited.push, Bus.Sized, Bus.placed, Bus.programmed, hkind]
      exact PlacedIf.append ⟨fun _ _ => rfl, fun h => absurd trivial h⟩ (ihrest hrest)
    | endpoint =>
      simp only [Visited.push, Bus.Sized, Bus.placed, Bus.programmed,
        (sameHw_run _ f).kind_eq hok.toWf, hkind]
      refine PlacedIf.append ⟨fun h q => placed_eq_programmed ?_ q, fun h => ?_⟩ (ihrest hrest)
      · rw [(sameHw_run _ f).bars_eq]
        exact h
      · push Not at h
        obtain ⟨bar, hmem, hzero⟩ := h
        exact placed_of_unsized here g (hok.bars (headerType_of_endpoint hkind)) hmem hzero
    | bridge =>
      simp only [Visited.push, Bus.Sized, Bus.placed, Bus.programmed,
        (sameHw_run_run f).kind_eq hok.toWf, hkind]
      exact (ihbelow (hbelow ((kind_eq_bridge_iff hok.toPalOk).mp hkind)).2).append (ihrest hrest)

end

end ServerSoc.PcieEnum
