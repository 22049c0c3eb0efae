/-
The allocation of addresses, pool by pool.

A pool gives out its start: moved by the larger of the sizes of the last BAR and the new one if
both are on one bus, and as it is otherwise.  Here numbers have no width, and a pool keeps its
history; `visit_sim` says that the code computes the same as long as no start leaves its width.
-/
import ServerSoc.PcieEnum.Bars

namespace ServerSoc.PcieEnum

open Base Function List Nat

/-! ## Pools with their history -/

structure Step where
  start : Nat
  bus : Nat
  size : Nat
  address : Nat
  deriving DecidableEq, Repr

structure Alloc where
  start : Nat
  size : Nat
  bus : Nat
  max : Nat
  steps : List Step
  deriving DecidableEq, Repr

namespace Alloc

def nextStart (a : Alloc) (bus size : Nat) : Nat :=
  a.start + if a.bus = bus then Nat.max a.size size else 0

def place (a : Alloc) (bus size : Nat) : Alloc where
  start := a.nextStart bus size
  size := size % 2 ^ 32
  bus := bus
  max := a.max
  steps := a.steps ++ [⟨a.start, bus, size, a.nextStart bus size⟩]

def finish (a : Alloc) : Alloc := { a with max := a.start }

end Alloc

def roundUp32 (start : Nat) : Nat :=
  if start % 2 ^ 20 = 0 then start else start / 2 ^ 20 * 2 ^ 20 + 2 ^ 20

/-- The code adds the increment twice, unless the low 52 bits are clear. -/
def roundUp64 (start : Nat) : Nat :=
  if start % 2 ^ 52 = 0 then start + 2 ^ 20 else start / 2 ^ 20 * 2 ^ 20 + 2 ^ 21

def Alloc.close (a : Alloc) (base : Nat) : PoolName → Alloc
  | .np | .p => if base ≠ a.start then { a with start := roundUp32 a.start } else a
  | .p64 =>
    if base ≠ a.max ∧ a.start ≤ a.max then { a with start := roundUp64 a.start } else a

abbrev Allocs := PoolName → Alloc

namespace Allocs

def bar (A : Allocs) (bus : Nat) (b : Bar) : Allocs :=
  if b.seenSize = 0 then A else update A b.pool ((A b.pool).place bus b.seenSize)

def bars (A : Allocs) (bus : Nat) (l : List Bar) : Allocs := l.foldl (fun A b => A.bar bus b) A

def endpoint (A : Allocs) (bus : Nat) (l : List Bar) : Allocs := fun q => (A.bars bus l q).finish

def bases (A : Allocs) : PoolName → Nat := fun q => (A q).start

def close (A : Allocs) (bases : PoolName → Nat) : Allocs := fun q => (A q).close (bases q) q

end Allocs

inductive Kind where
  | host | bridge | endpoint | other
  deriving DecidableEq, Repr

def Func.kind (f : Func) : Kind :=
  if isHostBridge (f type01Ridr).value then .host
  else if f.headerType = type1Header then .bridge
  else if f.headerType = type0Header then .endpoint
  else .other

/-- The allocation for a bus: the next bus number, the local bases and the pools. -/
def Bus.allocate : Bus → Nat → Nat → (PoolName → Nat) → Allocs → Nat × (PoolName → Nat) × Allocs
  | .nil, _, secBus, bases, A => (secBus, bases, A)
  | .cons _ f below rest, here, secBus, bases, A =>
    match f.kind with
    | .host | .other => rest.allocate here secBus bases A
    | .bridge =>
      let b := below.allocate secBus (secBus + 1) A.bases A
      rest.allocate here b.1 (b.2.2.close bases).bases (b.2.2.close bases)
    | .endpoint => rest.allocate here secBus bases (A.endpoint here f.bars)

/-! ## Starts only grow -/

variable {A : Allocs} {q : PoolName} {bus : Nat}

section

variable {bases : PoolName → Nat}

theorem le_roundUp32 (start : Nat) : start ≤ roundUp32 start := by
  rw [roundUp32]
  split <;> omega

theorem le_roundUp64 (start : Nat) : start ≤ roundUp64 start := by
  rw [roundUp64]
  split <;> omega

theorem Alloc.close_eq (a : Alloc) (base : Nat) (q : PoolName) :
    ∃ start, a.start ≤ start ∧ a.close base q = { a with start := start } := by
  cases q with
  | np | p =>
    rw [Alloc.close]
    split
    · exact ⟨_, le_roundUp32 a.start, rfl⟩
    · exact ⟨_, le_rfl, rfl⟩
  | p64 =>
    rw [Alloc.close]
    split
    · exact ⟨_, le_roundUp64 a.start, rfl⟩
    · exact ⟨_, le_rfl, rfl⟩

theorem Alloc.le_close (a : Alloc) (base : Nat) : a.start ≤ (a.close base q).start := by
  obtain ⟨start, hle, heq⟩ := a.close_eq base q
  rwa [heq]

def Alloc.Grows (a a' : Alloc) : Prop :=
  ∃ new, a'.steps = a.steps ++ new ∧ a.start ≤ a'.start ∧
    ∀ s ∈ new, a.start ≤ s.address ∧ s.address ≤ a'.start ∧ 0 < s.size

namespace Alloc

variable {a a' a'' : Alloc}

theorem Grows.of_steps (h : a'.steps = a.steps) (hle : a.start ≤ a'.start) : a.Grows a' :=
  ⟨[], by rw [h, append_nil], hle, nofun⟩

theorem Grows.le (h : a.Grows a') : a.start ≤ a'.start := by
  obtain ⟨-, -, hle, -⟩ := h
  exact hle

theorem Grows.trans (h : a.Grows a') (h' : a'.Grows a'') : a.Grows a'' := by
  obtain ⟨new, hsteps, hle, hnew⟩ := h
  obtain ⟨new', hsteps', hle', hnew'⟩ := h'
  refine ⟨new ++ new', by rw [hsteps', hsteps, append_assoc], hle.trans hle', ?_⟩
  intro s hs
  rcases mem_append.mp hs with hs | hs
  · obtain ⟨h1, h2, h3⟩ := hnew s hs
    exact ⟨h1, h2.trans hle', h3⟩
  · obtain ⟨h1, h2, h3⟩ := hnew' s hs
    exact ⟨hle.trans h1, h2, h3⟩

theorem grows_place (a : Alloc) (bus : Nat) {size : Nat} (h : size ≠ 0) :
    a.Grows (a.place bus size) := by
  refine ⟨_, rfl, Nat.le_add_right _ _, fun s hs => ?_⟩
  obtain rfl := mem_singleton.mp hs
  exact ⟨Nat.le_add_right _ _, le_rfl, Nat.pos_of_ne_zero h⟩

theorem grows_close (a : Alloc) (base : Nat) (q : PoolName) : a.Grows (a.close base q) := by
  obtain ⟨start, hle, heq⟩ := a.close_eq base q
  exact heq ▸ Grows.of_steps rfl hle

end Alloc

theorem Allocs.grows_bar (A : Allocs) (bus : Nat) (b : Bar) (q : PoolName) :
    (A q).Grows (A.bar bus b q) := by
  rw [Allocs.bar]
  split_ifs with hseen
  · exact Alloc.Grows.of_steps rfl le_rfl
  · by_cases hq : q = b.pool
    · rw [hq, update_self]
      exact (A b.pool).grows_place bus hseen
    · rw [update_of_ne hq]
      exact Alloc.Grows.of_steps rfl le_rfl

theorem Allocs.grows_bars (A : Allocs) (bus : Nat) (l : List Bar) (q : PoolName) :
    (A q).Grows (A.bars bus l q) := by
  induction l generalizing A with
  | nil => exact Alloc.Grows.of_steps rfl le_rfl
  | cons b l ih => exact (A.grows_bar bus b q).trans (ih (A.bar bus b))

theorem Bus.grows_allocate (b : Bus) (here secBus : Nat) (B : PoolName → Nat) (A : Allocs)
    (q : PoolName) : (A q).Grows ((b.allocate here secBus B A).2.2 q) := by
  induction b generalizing here secBus B A with
  | nil => exact Alloc.Grows.of_steps rfl le_rfl
  | cons slot f below rest ihbelow ihrest =>
    rw [Bus.allocate]
    cases f.kind with
    | host | other => exact ihrest here secBus B A
    | bridge => exact ((ihbelow _ _ _ A).trans (Alloc.grows_close _ (B q) q)).trans (ihrest _ _ _ _)
    | endpoint =>
      exact ((A.grows_bars here f.bars q).trans (.of_steps rfl le_rfl)).trans (ihrest _ _ _ _)

theorem Bus.le_allocate (b : Bus) (here secBus : Nat) (bases : PoolName → Nat) (A : Allocs)
    (q : PoolName) : (A q).start ≤ ((b.allocate here secBus bases A).2.2 q).start :=
  (b.grows_allocate here secBus bases A q).le

end

def Allocs.Fits (A : Allocs) : Prop := ∀ q, (A q).start < 2 ^ q.width

theorem Allocs.Fits.mono {A' : Allocs} (h : A'.Fits) (hle : ∀ q, (A q).start ≤ (A' q).start) :
    A.Fits :=
  fun q => (hle q).trans_lt (h q)

/-! ## The code against the allocation -/

structure Pool.Sim (pool : Pool) (a : Alloc) : Prop where
  start : pool.start = a.start
  size : pool.size = a.size
  bus : pool.bus = a.bus
  max : pool.max = a.max

def Globals.Sim (g : Globals) (A : Allocs) : Prop := ∀ q, (g.pool q).Sim (A q)

/-- In a function the size of its last BAR from a pool is the size of the last BAR. -/
structure BarState.Sim (s : BarState) (bus : Nat) (A : Allocs) : Prop where
  globals : s.globals.Sim A
  size : ∀ q, s.localSize q ≠ 0 → (A q).bus = bus ∧ s.localSize q = (A q).size

section

variable {s : BarState} {q' : PoolName}

theorem BarState.put_pool (s : BarState) (q q' : PoolName) (pool : Pool) (size : Nat) :
    (s.put q pool size).globals.pool q' = if q' = q then pool else s.globals.pool q' := by
  cases q <;> cases q' <;> rfl

theorem BarState.put_localSize (s : BarState) (q q' : PoolName) (pool : Pool) (size : Nat) :
    (s.put q pool size).localSize q' = if q' = q then size else s.localSize q' := by
  cases q <;> cases q' <;> rfl

theorem Pool.nextStart_eq {pool : Pool} {a : Alloc} (h : pool.Sim a) {width localSize size : Nat}
    (hlocal : localSize ≠ 0 → a.bus = bus ∧ localSize = a.size)
    (hlt : a.nextStart bus size < 2 ^ width) :
    pool.nextStart width bus localSize size = a.nextStart bus size := by
  rw [Alloc.nextStart] at hlt ⊢
  rw [Pool.nextStart, h.start, h.size, h.bus]
  by_cases hbus : a.bus = bus
  · rw [if_pos hbus] at hlt ⊢
    have hmax : Nat.max a.size size = if a.size < size then size else a.size := by
      refine (Nat.max_def).trans ?_
      split <;> split <;> omega
    rw [hmax] at hlt ⊢
    by_cases hzero : localSize = 0
    · rw [if_pos ⟨hzero, hbus⟩]
      split_ifs with hsize
      · rw [if_pos hsize] at hlt
        exact mod_eq_of_lt hlt
      · rw [if_neg hsize] at hlt
        exact mod_eq_of_lt hlt
    · rw [if_neg (fun h => hzero h.1)]
      split
      · rename_i hsize
        rw [if_pos hsize.1] at hlt ⊢
        exact mod_eq_of_lt hlt
      · rename_i hsize
        have hsize' : ¬ a.size < size := fun h => hsize ⟨h, hzero⟩
        rw [if_neg hsize'] at hlt ⊢
        rw [(hlocal hzero).2]
        exact mod_eq_of_lt hlt
  · have hzero : localSize = 0 := by
      by_contra hne
      exact hbus (hlocal hne).1
    rw [if_neg hbus] at hlt ⊢
    rw [if_neg (fun h => hbus h.2), if_neg (fun h => h.2 hzero), hzero]
    exact mod_eq_of_lt hlt

theorem BarState.Sim.step (h : s.Sim bus A) (b : Bar) (hfits : (A.bar bus b).Fits) :
    (b.step bus s).Sim bus (A.bar bus b) := by
  rw [Bar.step, Allocs.bar]
  split_ifs with hseen
  · exact h
  · have hstart : (s.globals.pool b.pool).nextStart b.pool.width bus (s.localSize b.pool)
        b.seenSize = (A b.pool).nextStart bus b.seenSize := by
      refine Pool.nextStart_eq (h.globals b.pool) (h.size b.pool) ?_
      have hlt := hfits b.pool
      rw [Allocs.bar, if_neg hseen, update_self] at hlt
      exact hlt
    constructor
    · intro q
      rw [BarState.put_pool]
      split_ifs with hq
      · rw [hq, update_self]
        exact ⟨hstart, rfl, rfl, (h.globals b.pool).max⟩
      · rw [update_of_ne hq]
        exact h.globals q
    · intro q
      rw [BarState.put_localSize]
      split_ifs with hq
      · rw [hq, update_self]
        exact fun _ => ⟨rfl, rfl⟩
      · rw [update_of_ne hq]
        exact h.size q

theorem BarState.Sim.foldl (h : s.Sim bus A) (l : List Bar) (hfits : (A.bars bus l).Fits) :
    (l.foldl (fun s b => b.step bus s) s).Sim bus (A.bars bus l) := by
  induction l generalizing s A with
  | nil => exact h
  | cons b l ih =>
    have hfits' : (A.bar bus b).Fits := hfits.mono fun q => ((A.bar bus b).grows_bars bus l q).le
    exact ih (h.step b hfits') hfits

end

/-! ## Endpoints and bridges -/

def Bases.get (b : Bases) : PoolName → Nat
  | .np => b.np
  | .p => b.p
  | .p64 => b.p64

section

variable {g : Globals} {f : Func} {start base : Nat} {pool : Pool} {a : Alloc}

theorem run_palPcieProgramBarReg (g : Globals) (f : Func) (bus : Nat) :
    (palPcieProgramBarReg bus g).run funcPort f =
      (((programBars bus 6 bar0Offset ⟨0, 0, 0, g⟩).run funcPort f).1.globals.setMax,
        ((programBars bus 6 bar0Offset ⟨0, 0, 0, g⟩).run funcPort f).2) := by
  rw [palPcieProgramBarReg, Access.run_bind, Access.run_pure]

theorem Globals.Sim.barState (h : g.Sim A) (bus : Nat) : (⟨0, 0, 0, g⟩ : BarState).Sim bus A :=
  ⟨h, fun q hq => by cases q <;> exact absurd rfl hq⟩

theorem Globals.Sim.bases (h : g.Sim A) (q : PoolName) : g.bases.get q = A.bases q := by
  cases q with
  | np => exact (h .np).start
  | p => exact (h .p).start
  | p64 => exact (h .p64).start

theorem Globals.Sim.setMax (h : g.Sim A) : g.setMax.Sim (fun q => (A q).finish) := by
  intro q
  have hq := h q
  cases q <;> exact ⟨hq.start, hq.size, hq.bus, hq.start⟩

theorem Globals.Sim.endpoint (h : g.Sim A) (bus : Nat) (hf : f.BarsWf 6 bar0Offset)
    (hfits : (A.endpoint bus f.bars).Fits) :
    ((palPcieProgramBarReg bus g).run funcPort f).1.Sim (A.endpoint bus f.bars) := by
  rw [run_palPcieProgramBarReg, (programBars_spec bus _ hf).state]
  exact ((h.barState bus).foldl f.bars hfits).globals.setMax

theorem roundUp32_eq (h : roundUp32 start < 2 ^ 32) :
    (if start <<< 12 % 2 ^ 32 ≠ 0 then ((start &&& memBase32LimMask) + barIncrement) % 2 ^ 32
      else start) = roundUp32 start := by
  have hand : start &&& memBase32LimMask = start / 2 ^ 20 % 2 ^ 12 * 2 ^ 20 := by
    rw [memBase32LimMask, show 0xFFF00000 = (2 ^ 12 - 1) <<< 20 from rfl, and_mask, shiftLeft_eq]
  rw [barIncrement]
  rw [roundUp32] at h ⊢
  split_ifs at h with hzero
  · rw [if_neg (by omega), if_pos hzero]
  · rw [if_pos (by omega), if_neg hzero]
    omega

theorem roundUp64_eq (h : roundUp64 start < 2 ^ 64) :
    (((if start <<< 12 % 2 ^ 64 ≠ 0 then ((start &&& memBase64LimMask) + barIncrement) % 2 ^ 64
      else start) &&& memBase64LimMask) + barIncrement) % 2 ^ 64 = roundUp64 start := by
  have hand : ∀ x, x &&& memBase64LimMask = x / 2 ^ 20 % 2 ^ 44 * 2 ^ 20 := by
    intro x
    rw [memBase64LimMask, show 0xFFFFFFFFFFF00000 = (2 ^ 44 - 1) <<< 20 from rfl, and_mask,
      shiftLeft_eq]
  rw [hand, hand, barIncrement]
  rw [roundUp64] at h ⊢
  split_ifs at h with hzero
  · rw [if_neg (by omega), if_pos hzero]
    omega
  · rw [if_pos (by omega), if_neg hzero]
    omega

theorem Pool.Sim.resourceBase32 (h : pool.Sim a) {offset limit : Nat} (hq : q ≠ .p64)
    (hlt : (a.close base q).start < 2 ^ 32) :
    ((resourceBase32 offset base limit pool).run funcPort f).1.Sim (a.close base q) := by
  have hclose : a.close base q =
      if base ≠ a.start then { a with start := roundUp32 a.start } else a := by
    cases q with
    | np | p => rfl
    | p64 => exact absurd rfl hq
  rw [hclose] at hlt ⊢
  simp only [PcieEnum.resourceBase32, h.start]
  by_cases hbase : base ≠ a.start
  · rw [if_pos hbase] at hlt ⊢
    rw [if_pos hbase, roundUp32_eq hlt]
    exact ⟨rfl, h.size, h.bus, h.max⟩
  · rw [if_neg hbase, if_neg hbase]
    exact h

theorem Pool.Sim.getResourceBase64 (h : pool.Sim a) (hlt : (a.close base .p64).start < 2 ^ 64) :
    ((getResourceBase64 base pool).run funcPort f).1.Sim (a.close base .p64) := by
  rw [Alloc.close] at hlt ⊢
  simp only [PcieEnum.getResourceBase64,
    h.start, h.max]
  by_cases hbase : base ≠ a.max ∧ a.start ≤ a.max
  · rw [if_pos hbase] at hlt ⊢
    rw [if_pos hbase, roundUp64_eq hlt]
    exact ⟨rfl, h.size, h.bus, rfl⟩
  · rw [if_neg hbase, if_neg hbase]
    exact h

theorem rpProgramBars_pool (turns offset : Nat) (g : Globals) (f : Func) (q : PoolName) :
    ((rpProgramBars turns offset g).run funcPort f).1.pool q = g.pool q := by
  induction turns generalizing offset g f with
  | zero => rfl
  | succ turns ih =>
    rw [rpProgramBars]
    split
    · rw [Access.run_bind, ih]
      simp only [rpProgramBar, Access.run_bind, run_ite]
      split
      · split <;> rfl
      · split
        · rfl
        · cases q <;> rfl
    · rfl

theorem Globals.Sim.close (h : g.Sim A) (here secBus subBus : Nat) {bases : Bases}
    {B : PoolName → Nat} (hB : ∀ q, bases.get q = B q) (hfits : (A.close B).Fits) :
    ((palCloseBridge here secBus subBus bases g).run funcPort f).1.2.Sim (A.close B) ∧
      ∀ q, ((palCloseBridge here secBus subBus bases g).run funcPort f).1.1.get q =
        (A.close B).bases q := by
  obtain rfl : bases.get = B := funext hB
  have hsim : ((palCloseBridge here secBus subBus bases g).run funcPort f).1.2.Sim
      (A.close bases.get) := by
    simp only [palCloseBridge, Access.run_bind, Access.run_pure]
    intro q
    rw [palPcieRpProgramBar, rpProgramBars_pool]
    cases q with
    | np => exact (h .np).resourceBase32 (by decide) (hfits .np)
    | p => exact (h .p).resourceBase32 (by decide) (hfits .p)
    | p64 => exact (h .p64).getResourceBase64 (hfits .p64)
  refine ⟨hsim, fun q => ?_⟩
  simpa [palCloseBridge] using hsim.bases q

end

/-! ## The walk -/

structure Func.AllocOk (f : Func) : Prop extends f.PalOk where
  bars : f.headerType = type0Header → f.BarsWf 6 bar0Offset

variable {f : Func}

theorem kind_eq_bridge_iff (h : f.PalOk) : f.kind = .bridge ↔ f.isBridge = true := by
  constructor
  · intro hkind
    rw [Func.kind] at hkind
    split at hkind
    · cases hkind
    · split at hkind
      · exact isBridge_iff.mpr (by assumption)
      · split at hkind <;> cases hkind
  · intro hbridge
    rw [Func.kind, h.notHost hbridge, if_neg Bool.false_ne_true, if_pos (isBridge_iff.mp hbridge)]

theorem headerType_of_endpoint (h : f.kind = .endpoint) : f.headerType = type0Header := by
  rw [Func.kind] at h
  split at h
  · cases h
  · split at h
    · cases h
    · split at h
      · assumption
      · cases h

theorem visit_pal_cons (slot : Slot) (f : Func) (below rest : Bus) (endBusNum here secBus : Nat)
    (bases : Bases) (g : Globals) :
    (Bus.cons slot f below rest).visit (palVisitor endBusNum) here secBus bases g =
      match f.kind with
      | .host | .other => (rest.visit (palVisitor endBusNum) here secBus bases g).push slot f below
      | .bridge => let b := below.visit (palVisitor endBusNum) secBus (secBus + 1) g.bases g
        let closed := (palCloseBridge here secBus (b.secBus - 1) bases b.globals).run funcPort
          ((palOpenBridge here secBus g).run funcPort f).2
        (rest.visit (palVisitor endBusNum) here b.secBus closed.1.1 closed.1.2).push
          slot closed.2 b.bus
      | .endpoint =>
        let programmed := (palPcieProgramBarReg here g).run funcPort f
        (rest.visit (palVisitor endBusNum) here secBus bases programmed.1).push slot programmed.2
          below := by
  have hhost : ((palVisitor endBusNum).skip.run funcPort f).1 =
      isHostBridge (f type01Ridr).value := rfl
  rw [Bus.visit, hhost, Func.kind]
  split
  · rfl
  · split
    · rfl
    · split <;> rfl

end ServerSoc.PcieEnum
