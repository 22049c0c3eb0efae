/-
Which bridges route the BARs below them.

A bridge is left with the limits its pools have then.  They are right if the last BARs end within
the MiB of the last address, if the pool has moved since the local base was taken, and if the
window for 64-bit addresses does not take the place of one that is used.
-/
import ServerSoc.PcieEnum.BarContract
import ServerSoc.PcieEnum.Windows

namespace ServerSoc.PcieEnum

open List

/-! ## The contract of the windows -/

def Window.has (w : Window) (x : Nat) : Prop := w.1 ≤ x ∧ x < w.2

def Within (r : Nat × Nat) (w : Window) : Prop := w.1 ≤ r.1 ∧ r.1 + r.2 ≤ w.2

def WindowsApart (f f' : Func) : Prop :=
  ∀ x, (f.npWindow.has x ∨ f.pWindow.has x) → ¬ (f'.npWindow.has x ∨ f'.pWindow.has x)

/-- Each bridge routes the BARs that are programmed below it, and the windows of bridges on a
bus are apart. -/
def Bus.WindowsOk : Bus → Prop
  | .nil => True
  | .cons _ f below rest =>
    (f.isBridge = true →
      (∀ q, ∀ r ∈ below.programmed q, Within r f.npWindow ∨ Within r f.pWindow) ∧
      (∀ f' ∈ rest.bridges, WindowsApart f f') ∧ below.WindowsOk) ∧
    rest.WindowsOk

/-! ## The condition -/

/-- A BAR in the state before its bridge is left, with the local bases `B` and the pools `A`. -/
def Step.Covered (B : PoolName → Nat) (A : Allocs) (s : Step) : PoolName → Prop
  | .np => B .np ≠ (A .np).start ∧ s.address + s.size ≤ (A .np).bound (B .np)
  | .p =>
    ¬ (A .p64).opens64 (B .p64) ∧ B .p ≠ (A .p).start ∧ s.address + s.size ≤ (A .p).bound (B .p)
  | .p64 => (A .p64).opens64 (B .p64) ∧ s.address + s.size ≤ floorMib (A .p64).max + 2 ^ 20

def Alloc.added (a a' : Alloc) : List Step := a'.steps.drop a.steps.length

def Bus.ClosesOk : Bus → Nat → Nat → (PoolName → Nat) → Allocs → Prop
  | .nil, _, _, _, _ => True
  | .cons _ f below rest, here, secBus, B, A =>
    match f.kind with
    | .host | .other => rest.ClosesOk here secBus B A
    | .bridge =>
      let b := below.allocate secBus (secBus + 1) A.bases A
      (∀ q, ∀ s ∈ (A q).added (b.2.2 q), s.Covered B b.2.2 q) ∧
        below.ClosesOk secBus (secBus + 1) A.bases A ∧
        rest.ClosesOk here b.1 (b.2.2.close B).bases (b.2.2.close B)
    | .endpoint => rest.ClosesOk here secBus B (A.endpoint here f.bars)

/-! ## Pools grow -/

variable {A : Allocs}

theorem Alloc.max_close (a : Alloc) (base : Nat) (q : PoolName) : (a.close base q).max = a.max := by
  obtain ⟨start, -, heq⟩ := a.close_eq base q
  rw [heq]

theorem Bus.max_le_allocate (b : Bus) (here secBus : Nat) (B : PoolName → Nat)
    (h : ∀ q, (A q).max ≤ (A q).start) (q : PoolName) :
    ((b.allocate here secBus B A).2.2 q).max ≤ ((b.allocate here secBus B A).2.2 q).start := by
  induction b generalizing here secBus B A q with
  | nil => exact h q
  | cons slot f below rest ihbelow ihrest =>
    rw [Bus.allocate]
    cases f.kind with
    | host | other => exact ihrest _ _ _ h q
    | endpoint => exact ihrest _ _ _ (fun _ => le_rfl) q
    | bridge =>
      refine ihrest _ _ _ (fun q => ?_) q
      rw [Allocs.close, Alloc.max_close]
      exact (ihbelow _ _ _ h q).trans (Alloc.le_close _ _)

/-! ## One bridge -/

structure Regions where
  lo : PoolName → Nat
  hi : PoolName → Nat
  aligned : ∀ q, 2 ^ 20 ∣ lo q
  low : ∀ q, 2 ^ 20 ≤ lo q
  top : ∀ q, hi q ≤ 2 ^ q.width
  apart : ∀ q q', q ≠ q' → hi q ≤ lo q' ∨ hi q' ≤ lo q

structure Func.WindowsIn (f : Func) (lo hi : PoolName → Nat) : Prop where
  np : ∀ x, f.npWindow.has x → lo .np ≤ x ∧ x < hi .np
  p : ∀ x, f.pWindow.has x → lo .p ≤ x ∧ x < hi .p ∨ lo .p64 ≤ x ∧ x < hi .p64

variable {f : Func} {B : PoolName → Nat} {R : Regions}

section

variable {f' : Func} {A' : Allocs} {a : Alloc} {base x y : Nat} {lo hi lo' hi' : PoolName → Nat}
  {q : PoolName}

theorem floorMib_le (x : Nat) : floorMib x ≤ x := by
  rw [floorMib]
  omega

theorem floorMib_mono (h : x ≤ y) : floorMib x ≤ floorMib y := by
  rw [floorMib, floorMib]
  omega

theorem le_floorMib (hx : 2 ^ 20 ∣ x) (h : x ≤ y) : x ≤ floorMib y := by
  rw [floorMib]
  omega

theorem Func.WindowsIn.mono (h : f.WindowsIn lo hi) (hlo : ∀ q, lo' q ≤ lo q)
    (hhi : ∀ q, hi q ≤ hi' q) : f.WindowsIn lo' hi' where
  np x hx := by
    obtain ⟨h1, h2⟩ := h.np x hx
    exact ⟨(hlo _).trans h1, h2.trans_le (hhi _)⟩
  p x hx := by
    rcases h.p x hx with ⟨h1, h2⟩ | ⟨h1, h2⟩
    · exact .inl ⟨(hlo _).trans h1, h2.trans_le (hhi _)⟩
    · exact .inr ⟨(hlo _).trans h1, h2.trans_le (hhi _)⟩

theorem Func.WindowsIn.exists_pool (h : f.WindowsIn lo hi)
    (hx : f.npWindow.has x ∨ f.pWindow.has x) : ∃ q, lo q ≤ x ∧ x < hi q := by
  rcases hx with hx | hx
  · exact ⟨.np, h.np x hx⟩
  · rcases h.p x hx with hx | hx
    · exact ⟨.p, hx⟩
    · exact ⟨.p64, hx⟩

theorem windowsApart_of_windowsIn {mid : PoolName → Nat} (h : f.WindowsIn lo mid)
    (h' : f'.WindowsIn mid hi) (hlo : ∀ q, R.lo q ≤ lo q) (hle : ∀ q, lo q ≤ mid q)
    (hle' : ∀ q, mid q ≤ hi q) (hhi : ∀ q, hi q ≤ R.hi q) : WindowsApart f f' := by
  intro x hx hx'
  obtain ⟨q, h1, h2⟩ := h.exists_pool hx
  obtain ⟨q', h3, h4⟩ := h'.exists_pool hx'
  by_cases hq : q = q'
  · subst hq
    omega
  · have hqlo := hlo q
    have hqlo' := hlo q'
    have hqle := hle q'
    have hqle' := hle' q
    have hqhi := hhi q
    have hqhi' := hhi q'
    rcases R.apart q q' hq with hapart | hapart <;> omega

theorem Alloc.bound_le (hq : q ≠ .p64) (hmax : a.max ≤ a.start)
    (hbase : base ≠ a.start) : a.bound base ≤ floorMib (a.close base q).start := by
  have hclose : (a.close base q).start = roundUp32 a.start := by
    cases q with
    | np | p => rw [Alloc.close, if_pos hbase]
    | p64 => exact absurd rfl hq
  have hdvd := roundUp32_dvd a.start
  have hle := le_roundUp32 a.start
  rw [Alloc.bound, if_neg hbase]
  apply le_floorMib
  · split_ifs with hend
    · rw [hend]
      exact hdvd
    · rw [floorMib]
      omega
  · split
    · omega
    · rw [floorMib]
      omega

theorem Alloc.bound64_le (hmax : a.max ≤ a.start) (hopen : a.opens64 base) :
    floorMib a.max + 2 ^ 20 ≤ floorMib (a.close base .p64).start := by
  have hclose : (a.close base .p64).start = roundUp64 a.start := by
    rw [Alloc.close, if_pos (show base ≠ a.max ∧ a.start ≤ a.max from hopen)]
  rw [hclose, roundUp64]
  split <;> rw [floorMib, floorMib] <;> omega

structure Leaves (R : Regions) (f : Func) (B : PoolName → Nat) (A A' : Allocs) : Prop where
  npWindow : f.npWindow = (floorMib (A .np).start, (A' .np).bound (B .np))
  pWindow : f.pWindow =
    if (A' .p64).opens64 (B .p64) then (floorMib (B .p64), floorMib (A' .p64).max + 2 ^ 20)
    else (floorMib (A .p).start, (A' .p).bound (B .p))
  lo : ∀ q, R.lo q ≤ B q
  base : ∀ q, B q ≤ (A q).start
  start : ∀ q, (A q).start ≤ (A' q).start
  max : ∀ q, (A' q).max ≤ (A' q).start
  hi : ∀ q, (A'.close B q).start < R.hi q

section

variable (h : Leaves R f B A A')
include h

theorem Leaves.has_bound (hq : q ≠ .p64)
    (hx : Window.has (floorMib (A q).start, (A' q).bound (B q)) x) :
    floorMib (B q) ≤ x ∧ x < floorMib (A'.close B q).start := by
  obtain ⟨h1, h2⟩ := hx
  have hmono := floorMib_mono (h.base q)
  have hlow := le_floorMib (R.aligned q) (h.lo q)
  have hmib := R.low q
  refine ⟨hmono.trans h1, ?_⟩
  by_cases hbase : B q = (A' q).start
  · rw [Alloc.bound, if_pos hbase] at h2
    omega
  · exact h2.trans_le (Alloc.bound_le hq (h.max q) hbase)

theorem Leaves.has_bound64 (hopen : (A' .p64).opens64 (B .p64))
    (hx : Window.has (floorMib (B .p64), floorMib (A' .p64).max + 2 ^ 20) x) :
    floorMib (B .p64) ≤ x ∧ x < floorMib (A'.close B .p64).start :=
  ⟨hx.1, hx.2.trans_le (Alloc.bound64_le (h.max .p64) hopen)⟩

theorem Leaves.in_region (hx : floorMib (B q) ≤ x ∧ x < floorMib (A'.close B q).start) :
    R.lo q ≤ x ∧ x < R.hi q :=
  ⟨(le_floorMib (R.aligned q) (h.lo q)).trans hx.1, hx.2.trans ((floorMib_le _).trans_lt (h.hi q))⟩

theorem Leaves.windowsIn :
    f.WindowsIn (fun q => floorMib (B q)) (fun q => floorMib (A'.close B q).start) where
  np x hx := by
    rw [h.npWindow] at hx
    exact h.has_bound (by decide) hx
  p x hx := by
    rw [h.pWindow] at hx
    split_ifs at hx with hopen
    · exact .inr (h.has_bound64 hopen hx)
    · exact .inl (h.has_bound (by decide) hx)

theorem Leaves.windowsIn_regions : f.WindowsIn R.lo R.hi :=
  h.windowsIn.mono (fun q => le_floorMib (R.aligned q) (h.lo q))
    (fun q => (floorMib_le _).trans (h.hi q).le)

theorem Leaves.address_in {s : Step} (hs : (A q).start ≤ s.address)
    (hs' : s.address ≤ (A' q).start) : R.lo q ≤ s.address ∧ s.address < R.hi q := by
  have h1 := h.lo q
  have h2 := h.base q
  have h3 := h.hi q
  have h4 : (A' q).start ≤ (A'.close B q).start := Alloc.le_close _ _
  omega

end

theorem Regions.unique (R : Regions) {q' : PoolName} (h : R.lo q ≤ x ∧ x < R.hi q)
    (h' : R.lo q' ≤ x ∧ x < R.hi q') : q = q' := by
  by_contra hne
  rcases R.apart q q' hne with hapart | hapart <;> omega

theorem Within.has {r : Nat × Nat} {w : Window} (h : Within r w) (hpos : 0 < r.2) : w.has r.1 := by
  obtain ⟨h1, h2⟩ := h
  exact ⟨h1, by omega⟩

theorem Leaves.within_iff (h : Leaves R f B A A') {s : Step} (hs : (A q).start ≤ s.address)
    (hs' : s.address ≤ (A' q).start) (hpos : 0 < s.size) :
    Within s.range f.npWindow ∨ Within s.range f.pWindow ↔ s.Covered B A' q := by
  have hin := h.address_in hs hs'
  have hregions := h.windowsIn_regions
  have hfloor := floorMib_le (A q).start
  -- a 32-bit window covers what ends before its bound
  have hbound : q ≠ .p64 → (Within s.range (floorMib (A q).start, (A' q).bound (B q)) ↔
      B q ≠ (A' q).start ∧ s.address + s.size ≤ (A' q).bound (B q)) := by
    intro hq
    constructor
    · intro hw
      refine ⟨fun hbase => ?_, hw.2⟩
      have hbound := hw.2
      have hlow := R.low q
      rw [Alloc.bound, if_pos hbase] at hbound
      change s.address + s.size ≤ 2 ^ 20 at hbound
      omega
    · intro hw
      exact ⟨hfloor.trans hs, hw.2⟩
  have hnp : Within s.range f.npWindow → q = .np := fun hw =>
    R.unique hin (hregions.np _ (hw.has hpos))
  have hp : Within s.range f.pWindow → q = .p ∨ q = .p64 := by
    intro hw
    rcases hregions.p _ (hw.has hpos) with hx | hx
    · exact .inl (R.unique hin hx)
    · exact .inr (R.unique hin hx)
  cases q with
  | np =>
    rw [or_iff_left (fun hw => by rcases hp hw with hq | hq <;> cases hq), h.npWindow]
    exact hbound (by decide)
  | p =>
    rw [or_iff_right (fun hw => by cases hnp hw), Step.Covered]
    by_cases hopen : (A' .p64).opens64 (B .p64)
    · refine iff_of_false (fun hw => ?_) (fun hc => hc.1 hopen)
      -- the window is in the region of the 64-bit pool
      have hx := hw.has hpos
      rw [h.pWindow, if_pos hopen] at hx
      cases R.unique hin (h.in_region (h.has_bound64 hopen hx))
    · rw [h.pWindow, if_neg hopen, and_iff_right hopen]
      exact hbound (by decide)
  | p64 =>
    rw [or_iff_right (fun hw => by cases hnp hw), Step.Covered]
    by_cases hopen : (A' .p64).opens64 (B .p64)
    · rw [h.pWindow, if_pos hopen, and_iff_right hopen]
      constructor
      · exact fun hw => hw.2
      · intro hend
        exact ⟨(floorMib_le _).trans ((h.base .p64).trans hs), hend⟩
    · refine iff_of_false (fun hw => ?_) (fun hc => hopen hc.1)
      have hx := hw.has hpos
      rw [h.pWindow, if_neg hopen] at hx
      cases R.unique hin (h.in_region (h.has_bound (by decide) hx))

end

/-! ## The walk -/

section

variable {b below : Bus} {here secBus : Nat} {bases : Bases} {g : Globals}

theorem Regions.fits (R : Regions) (h : ∀ q, (A q).start < R.hi q) : A.Fits :=
  fun q => (h q).trans_le (R.top q)

theorem isBridge_of_kind (hf : f.PalOk) (h : f.kind ≠ .bridge) : f.isBridge = false := by
  rw [← Bool.not_eq_true]
  exact fun hbridge => h ((kind_eq_bridge_iff hf).mpr hbridge)

theorem leaves_bridge (endBusNum here subBus : Nat) (hf : f.WindowOk) (hbridge : f.isBridge = true)
    (hfresh : below.Fresh Func.WindowOk) (hsim : g.Sim A) (hB : ∀ q, bases.get q = B q)
    (hlo : ∀ q, R.lo q ≤ B q) (hle : ∀ q, B q ≤ (A q).start) (hmax : ∀ q, (A q).max ≤ (A q).start)
    (hhi : ∀ q, ((below.allocate secBus (secBus + 1) A.bases A).2.2.close B q).start < R.hi q) :
    Leaves R ((palCloseBridge here secBus subBus bases
      (below.visit (palVisitor endBusNum) secBus (secBus + 1) g.bases g).globals).run funcPort
        ((palOpenBridge here secBus g).run funcPort f).2).2 B A
      (below.allocate secBus (secBus + 1) A.bases A).2.2 := by
  have hgrows := fun q => below.le_allocate secBus (secBus + 1) A.bases A q
  have hfits := R.fits hhi
  have hfits1 := hfits.mono fun q => Alloc.le_close _ _
  have hsim1 :=
    (visit_sim endBusNum (hfresh.imp (fun _ h => h.toAllocOk)) hsim hsim.bases hfits1).globals
  have hmax1 := fun q => below.max_le_allocate secBus (secBus + 1) A.bases hmax q
  have hlow := fun q => (R.low q).trans ((hlo q).trans ((hle q).trans (hgrows q)))
  obtain ⟨hnp, hp⟩ := windows_of_bridge hf hbridge hsim (hfits1.mono hgrows) hsim1 hB hfits
    (fun q => (hle q).trans (hgrows q)) hmax1 hlow here secBus subBus
  exact ⟨hnp, hp, hlo, hle, hgrows, hmax1, hhi⟩

theorem routed_iff (endBusNum : Nat) (hfresh : below.Fresh Func.WindowOk) (hsim : g.Sim A)
    {f' : Func} (h : Leaves R f' B A (below.allocate secBus (secBus + 1) A.bases A).2.2) :
    (∀ q, ∀ r ∈ (below.visit (palVisitor endBusNum) secBus (secBus + 1) g.bases g).bus.programmed q,
        Within r f'.npWindow ∨ Within r f'.pWindow) ↔
      ∀ q, ∀ s ∈ (A q).added ((below.allocate secBus (secBus + 1) A.bases A).2.2 q),
        s.Covered B (below.allocate secBus (secBus + 1) A.bases A).2.2 q := by
  have hfits := (R.fits h.hi).mono fun q => Alloc.le_close _ _
  refine forall_congr' fun q => ?_
  obtain ⟨new, hsteps, hmap⟩ :=
    (visit_sim endBusNum (hfresh.imp (fun _ h => h.toAllocOk)) hsim hsim.bases hfits).steps q
  obtain ⟨new', hsteps', -, hnew⟩ := below.grows_allocate secBus (secBus + 1) A.bases A q
  obtain rfl : new = new' := append_cancel_left (hsteps.symm.trans hsteps')
  rw [Alloc.added, hsteps, drop_left, ← hmap, forall_mem_map]
  refine forall₂_congr fun s hs => ?_
  obtain ⟨h1, h2, h3⟩ := hnew s hs
  exact h.within_iff h1 h2 h3

/-- After the walk the windows are right exactly when the bridges were left in the right
states, and those on the bus itself lie behind its bases. -/
theorem visit_windows (endBusNum : Nat) (hb : b.Fresh Func.WindowOk) (hsim : g.Sim A)
    (hB : ∀ q, bases.get q = B q) (hlo : ∀ q, R.lo q ≤ B q) (hle : ∀ q, B q ≤ (A q).start)
    (hmax : ∀ q, (A q).max ≤ (A q).start)
    (hhi : ∀ q, ((b.allocate here secBus B A).2.2 q).start < R.hi q) :
    ((b.visit (palVisitor endBusNum) here secBus bases g).bus.WindowsOk ↔
        b.ClosesOk here secBus B A) ∧
      ∀ f ∈ (b.visit (palVisitor endBusNum) here secBus bases g).bus.bridges,
        f.WindowsIn (fun q => floorMib (B q)) R.hi := by
  induction b generalizing here secBus bases B g A with
  | nil => exact ⟨Iff.rfl, fun _ h => absurd h not_mem_nil⟩
  | cons slot f below rest ihbelow ihrest =>
    obtain ⟨hok, -, hbelow, hrest⟩ := hb
    rw [Bus.allocate] at hhi
    rw [visit_pal_cons, Bus.ClosesOk]
    cases hkind : f.kind with
    | host | other =>
      rw [hkind] at hhi
      have hnot := isBridge_of_kind hok.toPalOk (by rw [hkind]; decide)
      obtain ⟨hiff, hin⟩ := ihrest hrest hsim hB hlo hle hmax hhi
      dsimp only [Visited.push]
      rw [Bus.WindowsOk, Bus.bridges, hnot]
      exact ⟨(and_iff_right (fun h => absurd h Bool.false_ne_true)).trans hiff, hin⟩
    | endpoint =>
      rw [hkind] at hhi
      have hgrow := fun q => rest.le_allocate here secBus B (A.endpoint here f.bars) q
      have hfits := (R.fits hhi).mono hgrow
      have hsim1 := hsim.endpoint here (hok.bars (headerType_of_endpoint hkind)) hfits
      have hnot : ((palPcieProgramBarReg here g).run funcPort f).2.isBridge = false :=
        ((sameHw_run _ f).isBridge_eq hok.toWf).trans
          (isBridge_of_kind hok.toPalOk (by rw [hkind]; decide))
      obtain ⟨hiff, hin⟩ := ihrest hrest hsim1 hB hlo
        (fun q => (hle q).trans (A.grows_bars here f.bars q).le) (fun _ => le_rfl) hhi
      dsimp only [Visited.push]
      rw [Bus.WindowsOk, Bus.bridges, hnot, if_neg Bool.false_ne_true]
      exact ⟨(and_iff_right (fun h => absurd h Bool.false_ne_true)).trans hiff, hin⟩
    | bridge =>
      rw [hkind] at hhi
      dsimp only at hhi ⊢
      have hbridge := (kind_eq_bridge_iff hok.toPalOk).mp hkind
      have hfresh := (hbelow hbridge).2
      have hfresh' := hfresh.imp fun _ h => h.toAllocOk
      have hhi1 := fun q => (rest.le_allocate here _ _ _ q).trans_lt (hhi q)
      have hhi2 := fun q => (Alloc.le_close _ (B q)).trans_lt (hhi1 q)
      have hstart := fun q => below.le_allocate secBus (secBus + 1) A.bases A q
      -- below the bridge
      obtain ⟨hiff1, -⟩ := ihbelow hfresh hsim hsim.bases
        (fun q => (hlo q).trans (hle q)) (fun _ => le_rfl) hmax hhi2
      obtain ⟨hsec, hsim1, -⟩ := visit_sim endBusNum hfresh' hsim hsim.bases (R.fits hhi2)
      -- the bridge itself
      have hleaves := fun subBus => leaves_bridge endBusNum here subBus hok hbridge hfresh hsim hB
        hlo hle hmax hhi1
      have hrouted := fun subBus => routed_iff endBusNum hfresh hsim (hleaves subBus)
      generalize below.visit (palVisitor endBusNum) secBus (secBus + 1) g.bases g = V at *
      have hleaves := hleaves (V.secBus - 1)
      have hrouted := hrouted (V.secBus - 1)
      obtain ⟨hsim2, hB2⟩ := hsim1.close here secBus (V.secBus - 1) hB (R.fits hhi1)
      have hsame := (sameHw_run (palOpenBridge here secBus g) f).trans
        (sameHw_run (palCloseBridge here secBus (V.secBus - 1) bases V.globals) _)
      have hbridge' := (hsame.isBridge_eq hok.toWf).trans hbridge
      -- the bridges behind it
      have hbehind : ∀ q, B q ≤
          ((below.allocate secBus (secBus + 1) A.bases A).2.2.close B q).start := fun q =>
        ((hle q).trans (hstart q)).trans (Alloc.le_close _ _)
      rw [hsec] at hsim2 hB2 hleaves hrouted hbridge' ⊢
      obtain ⟨hiff2, hin⟩ := ihrest hrest hsim2 hB2 (fun q => (hlo q).trans (hbehind q))
        (fun _ => le_rfl)
        (fun q => by
          rw [Allocs.close, Alloc.max_close]
          exact (hleaves.max q).trans (Alloc.le_close _ _)) hhi
      have hapart : ∀ f' ∈ (rest.visit (palVisitor endBusNum) here _ _ _).bus.bridges,
          WindowsApart _ f' := fun f' hf' =>
        windowsApart_of_windowsIn hleaves.windowsIn (hin f' hf')
          (fun q => le_floorMib (R.aligned q) (hlo q)) (fun q => floorMib_mono (hbehind q))
          (fun q => (floorMib_le _).trans (hhi1 q).le) fun _ => le_rfl
      dsimp only [Visited.push]
      rw [Bus.bridges, if_pos hbridge']
      constructor
      · constructor
        · intro hwin
          obtain ⟨hcover, -, hwin1⟩ := hwin.1 hbridge'
          exact ⟨hrouted.mp hcover, hiff1.mp hwin1, hiff2.mp hwin.2⟩
        · rintro ⟨hcover, hcloses1, hcloses2⟩
          exact ⟨fun _ => ⟨hrouted.mpr hcover, hapart, hiff1.mpr hcloses1⟩, hiff2.mpr hcloses2⟩
      · intro f' hf'
        rcases mem_cons.mp hf' with rfl | hf'
        · exact hleaves.windowsIn.mono (fun _ => le_rfl)
            (fun q => (floorMib_le _).trans (hhi1 q).le)
        · exact (hin f' hf').mono (fun q => floorMib_mono (hbehind q)) fun _ => le_rfl

end

/-! ## The contract -/

/-- After the enumeration of a bus from pools that stay in their regions, the buses are
numbered, and the windows of all bridges are right exactly when each bridge is left in a
state in which the BARs below it are covered. -/
theorem palPcieEnumerateDevice_windows_iff (R : Regions) (fuel : Nat) (e : Ecam) (g : Globals)
    (he : e.Ok fuel) (hfresh : e.bus.Fresh Func.WindowOk) (hlo : ∀ q, R.lo q ≤ (g.pool q).start)
    (hmax : ∀ q, (g.pool q).max ≤ (g.pool q).start)
    (hhi : ∀ q, (e.allocate g.allocs q).start < R.hi q) :
    ∃ last b g', palPcieEnumerateDevice e.startBusNum e.endBusNum fuel e.startBusNum
          (e.startBusNum + 1) e.bus g = some (last, b, g') ∧
      b.Numbered e.startBusNum ∧
      (b.WindowsOk ↔
        e.bus.ClosesOk e.startBusNum (e.startBusNum + 1) g.allocs.bases g.allocs) := by
  have hsim : g.Sim g.allocs := fun _ => ⟨rfl, rfl, rfl, rfl⟩
  have hroom := he.room
  have hlast := he.last
  refine ⟨_, _, _, he.enumerate_eq g, ?_, ?_⟩
  · exact (walked_visit (palVisitor_lawful he.last) _ _ (he.fresh.imp (fun _ h => h.toPalOk))
      (Nat.lt_add_one _) (by omega)).numbered
  · exact (visit_windows e.endBusNum hfresh hsim hsim.bases hlo (fun _ => le_rfl) hmax hhi).1

def windowBridge : Func := fun offset =>
  if offset = nonPreFetOffset then ⟨0, 0xFFF0FFF0, 0⟩
  else if offset = preFetOffset then ⟨0, 0xFFF0FFF0, 0x00010001⟩
  else if offset = preFetOffset + 4 ∨ offset = preFetOffset + 8 then ⟨0, 0xFFFFFFFF, 0⟩
  else plainFunc 0x0604 1 offset

theorem windowOk_bridge : windowBridge.WindowOk where
  vendorMask := rfl
  classMask := rfl
  headerMask := rfl
  present := by decide
  busNumMask _ := rfl
  busNumFixed _ := rfl
  notHost _ := by decide
  barMask _ := by decide
  barType _ := by decide
  bars := nofun
  np _ := ⟨rfl, .inl rfl⟩
  p _ := ⟨rfl, .inr rfl⟩
  upperBase _ := ⟨⟨rfl, rfl⟩, rfl⟩
  upperLimit _ := ⟨⟨rfl, rfl⟩, rfl⟩

theorem windowOk_memFunc (bar0 bar1 : Bool) : (memFunc bar0 bar1).WindowOk where
  toAllocOk := allocOk_memFunc bar0 bar1
  np h := absurd h (memFunc_not_bridge bar0 bar1)
  p h := absurd h (memFunc_not_bridge bar0 bar1)
  upperBase h := absurd h (memFunc_not_bridge bar0 bar1)
  upperLimit h := absurd h (memFunc_not_bridge bar0 bar1)

def windowEcam (bar1 : Bool) : Ecam where
  startBusNum := 0
  endBusNum := 1
  bus := .cons (1, 0) windowBridge (.cons (0, 0) (memFunc true bar1) .nil .nil) .nil

theorem fresh_windowEcam (bar1 : Bool) : (windowEcam bar1).bus.Fresh Func.WindowOk := by
  have hquiet : ∀ bus, 0 < bus → windowBridge.claims bus = false :=
    fun bus hbus => claims_eq_false hbus
  have hnot := memFunc_not_bridge true bar1
  have hnone : ∀ bus, 0 < bus → (memFunc true bar1).claims bus = false :=
    fun bus _ => claims_of_not_bridge hnot
  exact ⟨windowOk_bridge, hquiet,
    fun _ => ⟨singleton_sublist.mpr (by decide), windowOk_memFunc true bar1, hnone,
      fun h => absurd h hnot, trivial⟩, trivial⟩

theorem ok_windowEcam (bar1 : Bool) : (windowEcam bar1).Ok 2 where
  slots := singleton_sublist.mpr (by decide)
  fresh := (fresh_windowEcam bar1).imp (fun _ h => h.toAllocOk)
  room := by cases bar1 <;> decide
  last := by cases bar1 <;> decide
  depth := by cases bar1 <;> decide

def rdn2Regions : Regions where
  lo q := match q with | .np => 0x60000000 | .p => 0x60600000 | .p64 => 0x4000000000
  hi q := match q with | .np => 0x60600000 | .p => 0x60800000 | .p64 => 0x8000000000
  aligned q := by cases q <;> decide
  low q := by cases q <;> decide
  top q := by cases q <;> decide
  apart q q' := by cases q <;> cases q' <;> decide

/-- One BAR: the pool has not moved when the port is left, and its window stays closed. -/
theorem palPcieEnumerateDevice_uncovered :
    (windowEcam false).Ok 2 ∧ (windowEcam false).bus.Fresh Func.WindowOk ∧
      (∀ q, ((windowEcam false).allocate rdn2Globals.allocs q).start < rdn2Regions.hi q) ∧
      ∃ last f below g', palPcieEnumerateDevice 0 1 2 0 1 (windowEcam false).bus rdn2Globals =
          some (last, .cons (1, 0) f below .nil, g') ∧
        below.programmed .np = [(0x60000000, 0x1000)] ∧ f.npWindow = (0x60000000, 0x100000) ∧
        f.pWindow = (0x60600000, 0x100000) ∧ ¬ (Bus.cons (1, 0) f below .nil).WindowsOk := by
  refine ⟨ok_windowEcam false, fresh_windowEcam false, fun q => by cases q <;> decide, _, _, _, _,
    (ok_windowEcam false).enumerate_eq rdn2Globals, by decide, by decide, by decide, fun h => ?_⟩
  have hcover := (h.1 (by decide)).1 .np (0x60000000, 0x1000) (by decide)
  have hnot : ∀ w : Window, w = (0x60000000, 0x100000) ∨ w = (0x60600000, 0x100000) →
      ¬ Within (0x60000000, 0x1000) w := by
    intro w hw hin
    have hend := hin.2
    rcases hw with rfl | rfl <;> exact absurd hend (by decide)
  rcases hcover with hin | hin
  · exact hnot _ (.inl (by decide)) hin
  · exact hnot _ (.inr (by decide)) hin

/-- Two BARs: the window of the port is open up to the end of its first MiB. -/
theorem palPcieEnumerateDevice_windows_two :
    ∃ last b g', palPcieEnumerateDevice 0 1 2 0 1 (windowEcam true).bus rdn2Globals =
      some (last, b, g') ∧ b.Numbered 0 ∧ b.WindowsOk := by
  obtain ⟨last, b, g', heq, hnum, hiff⟩ := palPcieEnumerateDevice_windows_iff rdn2Regions 2
    (windowEcam true) rdn2Globals (ok_windowEcam true) (fresh_windowEcam true)
    (fun q => by cases q <;> decide) (fun q => by cases q <;> decide) fun q => by cases q <;> decide
  refine ⟨last, b, g', heq, hnum, hiff.mpr ⟨fun q => ?_, trivial, trivial⟩⟩
  cases q with
  | np =>
    have hcovered :
        ∀ s ∈ (rdn2Globals.allocs .np).added ((windowEcam true).allocate rdn2Globals.allocs .np),
        s.address + s.size ≤ 0x60100000 := by decide
    exact fun s hs => ⟨by decide, hcovered s hs⟩
  | p | p64 => nofun

end ServerSoc.PcieEnum
