/-
The memory windows of a bridge, in units of a MiB.

The code writes the bases when it enters a bridge and the limits when it leaves it, from the starts
of the pools then.  The window for 64-bit addresses takes the place of the prefetchable one.
-/
import ServerSoc.PcieEnum.BarRanges

namespace ServerSoc.PcieEnum

open Base Func Nat

/-! ## Registers -/

def windowBase (value : Nat) : Nat := getField 12 4 value * 2 ^ 20
def windowLimit (value : Nat) : Nat := getField 12 20 value * 2 ^ 20

abbrev Window := Nat × Nat

namespace Func

def npWindow (f : Func) : Window :=
  (windowBase (f nonPreFetOffset).value, windowLimit (f nonPreFetOffset).value + 2 ^ 20)

/-- The upper halves of the addresses are in the next two registers. -/
def pWindow (f : Func) : Window :=
  (windowBase (f preFetOffset).value + (f (preFetOffset + 4)).value * 2 ^ 32,
    windowLimit (f preFetOffset).value + (f (preFetOffset + 8)).value * 2 ^ 32 + 2 ^ 20)

end Func

/-- The register of a 32-bit window, or the low half of one with 64 bits. -/
structure WindowReg (r : Reg) : Prop where
  mask : r.mask = 0xFFF0FFF0
  fixed : r.fixed = 0 ∨ r.fixed = 0x00010001

structure UpperReg (r : Reg) : Prop where
  mask : r.mask = 0xFFFFFFFF
  fixed : r.fixed = 0

/-- A bridge that has both windows, the prefetchable one with 64 bits and its upper halves
clear. -/
structure Func.WindowOk (f : Func) : Prop extends f.AllocOk where
  np : f.isBridge = true → WindowReg (f nonPreFetOffset)
  p : f.isBridge = true → WindowReg (f preFetOffset)
  upperBase : f.isBridge = true → UpperReg (f (preFetOffset + 4)) ∧
    (f (preFetOffset + 4)).written = 0
  upperLimit : f.isBridge = true → UpperReg (f (preFetOffset + 8)) ∧
    (f (preFetOffset + 8)).written = 0

def floorMib (x : Nat) : Nat := x / 2 ^ 20 * 2 ^ 20

section

variable {r : Reg} {k : Nat}

theorem getField_and (w k x y : Nat) :
    getField w k (x &&& y) = getField w k x &&& getField w k y := by
  refine eq_of_testBit_eq fun i => ?_
  simp only [testBit_getField, testBit_and]
  cases decide (i < w) <;> rfl

section

variable (h : WindowReg r)
include h

theorem WindowReg.field (hk : k = 4 ∨ k = 20) :
    getField 12 k r.value = getField 12 k r.written := by
  have hmask : getField 12 k 0xFFF0FFF0 = 2 ^ 12 - 1 := by
    rcases hk with rfl | rfl <;> decide
  have hfixed : getField 12 k r.fixed = 0 := by
    rcases h.fixed with hf | hf <;> rw [hf] <;> rcases hk with rfl | rfl <;> decide
  rw [Reg.value, h.mask, getField_or, hfixed, or_zero, getField_and, hmask, and_low,
    getField_eq, mod_mod]

theorem WindowReg.base_eq : windowBase r.value = windowBase r.written := by
  rw [windowBase, h.field (.inl rfl), windowBase]

theorem WindowReg.limit_eq : windowLimit r.value = windowLimit r.written := by
  rw [windowLimit, h.field (.inr rfl), windowLimit]

theorem WindowReg.write (data : Nat) : WindowReg (r.write data) := ⟨h.mask, h.fixed⟩

end

theorem UpperReg.value_eq (h : UpperReg r) : r.value = r.written % 2 ^ 32 := by
  rw [Reg.value, h.mask, h.fixed, or_zero, show 0xFFFFFFFF = 2 ^ 32 - 1 from rfl, and_low]

theorem UpperReg.value_write (h : UpperReg r) (data : Nat) :
    (r.write (data % 2 ^ 32)).value = data % 2 ^ 32 := by
  have hwrite : UpperReg (r.write (data % 2 ^ 32)) := ⟨h.mask, h.fixed⟩
  rw [hwrite.value_eq]
  exact mod_mod _ _

theorem window_open {start : Nat} (h : start < 2 ^ 32) :
    windowBase ((start >>> 16 &&& 0xFFF0) % 2 ^ 32) = floorMib start ∧
      windowLimit ((start >>> 16 &&& 0xFFF0) % 2 ^ 32) = 0 := by
  have hand : start >>> 16 &&& 0xFFF0 = start / 2 ^ 20 * 2 ^ 4 := by
    rw [show 0xFFF0 = (2 ^ 12 - 1) <<< 4 from rfl, and_mask]
    omega
  rw [windowBase, windowLimit, getField_eq, getField_eq, floorMib]
  omega

theorem window_close {limit value : Nat} (h : limit < 2 ^ 32) (hvalue : value < 2 ^ 32)
    (hclosed : windowLimit value = 0) :
    windowBase ((limit &&& memBase32LimMask ||| value) % 2 ^ 32) = windowBase value ∧
      windowLimit ((limit &&& memBase32LimMask ||| value) % 2 ^ 32) = floorMib limit := by
  have hand : limit &&& memBase32LimMask = setField 12 20 (limit / 2 ^ 20) := by
    rw [memBase32LimMask, show 0xFFF00000 = (2 ^ 12 - 1) <<< 20 from rfl, and_mask_eq_setField]
  have hlt : setField 12 20 (limit / 2 ^ 20) < 2 ^ 32 := by
    rw [setField_eq]
    omega
  have hzero : getField 12 20 value = 0 := by
    rw [windowLimit] at hclosed
    omega
  rw [hand, mod_eq_of_lt (or_lt_two_pow hlt hvalue), windowBase, windowLimit, getField_or,
    getField_or, getField_setField_of_disjoint (by decide),
    getField_setField_inside (by decide) (by decide), hzero, zero_or, or_zero, getField_zero]
  refine ⟨rfl, ?_⟩
  rw [floorMib]
  omega

theorem value_lt (h : WindowReg r) : r.value < 2 ^ 32 := by
  refine or_lt_two_pow ?_ ?_
  · refine and_le_right.trans_lt ?_
    rw [h.mask]
    decide
  · rcases h.fixed with hf | hf <;> rw [hf] <;> decide

theorem window64 (base limit : Nat) :
    windowBase ((regMaskShift (limit % 2 ^ 32) <<< 16 ||| regMaskShift (base % 2 ^ 32)) % 2 ^ 32) =
        floorMib (base % 2 ^ 32) ∧
      windowLimit
        ((regMaskShift (limit % 2 ^ 32) <<< 16 ||| regMaskShift (base % 2 ^ 32)) % 2 ^ 32) =
        floorMib (limit % 2 ^ 32) := by
  have hshift : ∀ x, regMaskShift x = x / 2 ^ 20 % 2 ^ 12 * 2 ^ 4 := by
    intro x
    rw [regMaskShift, memBase32LimMask, show 0xFFF00000 = (2 ^ 12 - 1) <<< 20 from rfl, and_mask]
    omega
  have hbase : regMaskShift (base % 2 ^ 32) < 2 ^ 16 := by
    rw [hshift]
    omega
  rw [shiftLeft_or hbase, windowBase, windowLimit, getField_eq, getField_eq, hshift, hshift,
    floorMib, floorMib]
  omega

end

/-! ## Leaving a bridge -/

/-- The end of the 32-bit window of a pool, if `base` is the local base of the pool.  A limit
that is the new start is moved back by a MiB. -/
def Alloc.bound (a : Alloc) (base : Nat) : Nat :=
  if base = a.start then 2 ^ 20
  else if a.max = roundUp32 a.start then a.max
  else floorMib a.max + 2 ^ 20

def Alloc.opens64 (a : Alloc) (base : Nat) : Prop := base ≠ a.max ∧ a.start ≤ a.max

instance (a : Alloc) (base : Nat) : Decidable (a.opens64 base) := instDecidableAnd

section

variable {f : Func} {g g' : Globals} {A A' : Allocs} {bases : Bases} {B : PoolName → Nat}
  {offset : Nat} {pool : Pool} {a : Alloc}

theorem roundUp32_dvd (start : Nat) : 2 ^ 20 ∣ roundUp32 start := by
  rw [roundUp32]
  split <;> omega

theorem resourceBase32_window (base : Nat) (h : pool.Sim a) (hreg : WindowReg (f offset))
    (hclosed : windowLimit (f offset).value = 0) (hmax : a.max ≤ a.start) (hlow : 2 ^ 20 ≤ a.start)
    (hlt : base ≠ a.start → roundUp32 a.start < 2 ^ 32) :
    WindowReg (((resourceBase32 offset base pool.max pool).run funcPort f).2 offset) ∧
      windowBase (((resourceBase32 offset base pool.max pool).run funcPort f).2 offset).value =
        windowBase (f offset).value ∧
      windowLimit (((resourceBase32 offset base pool.max pool).run funcPort f).2 offset).value +
        2 ^ 20 = a.bound base := by
  simp only [resourceBase32, run_ite,
    Access.run_pure, h.start, h.max]
  rw [Alloc.bound]
  by_cases hbase : base = a.start
  · rw [if_neg (not_not.mpr hbase), if_pos hbase]
    exact ⟨hreg, rfl, by rw [hclosed, zero_add]⟩
  · have hlt := hlt hbase
    rw [if_pos hbase, roundUp32_eq hlt]
    have hle := le_roundUp32 a.start
    -- the limit that the code writes
    have hlimit : ∀ limit, limit < 2 ^ 32 → WindowReg (f.set offset
        ((limit &&& memBase32LimMask ||| (f offset).value) % 2 ^ 32) offset) ∧
        windowBase (f.set offset
          ((limit &&& memBase32LimMask ||| (f offset).value) % 2 ^ 32) offset).value =
          windowBase (f offset).value ∧
        windowLimit (f.set offset
          ((limit &&& memBase32LimMask ||| (f offset).value) % 2 ^ 32) offset).value =
          floorMib limit := by
      intro limit hlimit
      obtain ⟨h1, h2⟩ := window_close hlimit (value_lt hreg) hclosed
      rw [set_self]
      refine ⟨hreg.write _, ?_, ?_⟩
      · rw [(hreg.write _).base_eq]
        exact h1
      · rw [(hreg.write _).limit_eq]
        exact h2
    split_ifs with hend
    · obtain ⟨h1, h2, h3⟩ := hlimit ((a.max + 2 ^ 32 - barIncrement) % 2 ^ 32)
        (mod_lt _ (by decide))
      refine ⟨h1, h2, ?_⟩
      have hdvd := roundUp32_dvd a.start
      refine (congrArg (· + 2 ^ 20) h3).trans ?_
      rw [floorMib, barIncrement]
      omega
    · obtain ⟨h1, h2, h3⟩ := hlimit a.max (by omega)
      exact ⟨h1, h2, congrArg (· + 2 ^ 20) h3⟩

theorem palOpenBridge_window (h : g.Sim A) (hfits : A.Fits) (here secBus : Nat) {q : PoolName}
    (hq : q = .np ∧ offset = nonPreFetOffset ∨ q = .p ∧ offset = preFetOffset)
    (hreg : WindowReg (f offset)) :
    let r := ((palOpenBridge here secBus g).run funcPort f).2 offset
    WindowReg r ∧ windowBase r.value = floorMib (A q).start ∧ windowLimit r.value = 0 := by
  intro r
  have hset : r = (f offset).write (((A q).start >>> 16 &&& 0xFFF0) % 2 ^ 32) := by
    simp only [r, palOpenBridge, Access.run_bind, run_palPciCfgWrite]
    rcases hq with ⟨rfl, rfl⟩ | ⟨rfl, rfl⟩
    · rw [← (h .np).start]
      rfl
    · rw [← (h .p).start]
      rfl
  have hlt : (A q).start < 2 ^ 32 := by
    rcases hq with ⟨rfl, -⟩ | ⟨rfl, -⟩
    · exact hfits .np
    · exact hfits .p
  obtain ⟨h1, h2⟩ := window_open hlt
  rw [hset, (hreg.write _).base_eq, (hreg.write _).limit_eq]
  exact ⟨hreg.write _, h1, h2⟩

theorem getResourceBase64_window (base : Nat) (h : pool.Sim a) (hreg : WindowReg (f preFetOffset))
    (hbase : UpperReg (f (preFetOffset + 4)) ∧ (f (preFetOffset + 4)).written = 0)
    (hlimit : UpperReg (f (preFetOffset + 8)) ∧ (f (preFetOffset + 8)).written = 0)
    (hlt : base < 2 ^ 64) (hmax : a.max < 2 ^ 64) :
    ((getResourceBase64 base pool).run funcPort f).2.pWindow =
      if a.opens64 base then (floorMib base, floorMib a.max + 2 ^ 20)
      else (windowBase (f preFetOffset).value, windowLimit (f preFetOffset).value + 2 ^ 20) := by
  have hsplit : ∀ x < 2 ^ 64, floorMib (x % 2 ^ 32) + x >>> 32 % 2 ^ 32 * 2 ^ 32 = floorMib x := by
    intro x hx
    rw [floorMib, floorMib, shiftRight_eq_div_pow]
    omega
  simp only [getResourceBase64, run_ite, Access.run_bind, run_palPciCfgWrite, Access.run_pure,
    h.start, h.max]
  by_cases hopen : base ≠ a.max ∧ a.start ≤ a.max
  · rw [if_pos hopen, if_pos (show a.opens64 base from hopen)]
    obtain ⟨h1, h2⟩ := window64 base a.max
    simp only [pWindow]
    rw [set_of_ne (by decide), set_of_ne (by decide), set_self,
      set_of_ne (by decide), set_self, set_of_ne (by decide), set_self,
      set_of_ne (by decide), set_of_ne (by decide), (hreg.write _).base_eq,
      (hreg.write _).limit_eq, hbase.1.value_write, hlimit.1.value_write]
    refine Prod.ext ?_ ?_
    · exact (congrArg (· + base >>> 32 % 2 ^ 32 * 2 ^ 32) h1).trans (hsplit base hlt)
    · exact (congrArg (· + a.max >>> 32 % 2 ^ 32 * 2 ^ 32 + 2 ^ 20) h2).trans
        (congrArg (· + 2 ^ 20) (hsplit a.max hmax))
  · rw [if_neg hopen, if_neg (show ¬ a.opens64 base from hopen)]
    simp only [pWindow]
    rw [hbase.1.value_eq, hlimit.1.value_eq, hbase.2, hlimit.2, zero_mod, zero_mul,
      add_zero, add_zero]

theorem palCloseBridge_windows (hf : f.PalOk) (hbridge : f.isBridge = true) (hsim : g.Sim A)
    (hB : ∀ q, bases.get q = B q) (hfits : (A.close B).Fits) (hle : ∀ q, B q ≤ (A q).start)
    (hmax : ∀ q, (A q).max ≤ (A q).start) (hlow : ∀ q, 2 ^ 20 ≤ (A q).start)
    (hnp : WindowReg (f nonPreFetOffset)) (hnp' : windowLimit (f nonPreFetOffset).value = 0)
    (hp : WindowReg (f preFetOffset)) (hp' : windowLimit (f preFetOffset).value = 0)
    (hbase : UpperReg (f (preFetOffset + 4)) ∧ (f (preFetOffset + 4)).written = 0)
    (hlimit : UpperReg (f (preFetOffset + 8)) ∧ (f (preFetOffset + 8)).written = 0)
    (here secBus subBus : Nat) :
    let f' := ((palCloseBridge here secBus subBus bases g).run funcPort f).2
    f'.npWindow = (windowBase (f nonPreFetOffset).value, (A .np).bound (B .np)) ∧
      f'.pWindow =
        if (A .p64).opens64 (B .p64) then (floorMib (B .p64), floorMib (A .p64).max + 2 ^ 20)
        else (windowBase (f preFetOffset).value, (A .p).bound (B .p)) := by
  obtain rfl : bases.get = B := funext hB
  simp only [palCloseBridge, Access.run_bind, Access.run_pure, run_palPciCfgWrite]
  -- the function after each step
  generalize hf1 : f.set busNumRegOffset (busNumRegCfg subBus secBus here % 2 ^ 32) = f1
  generalize hf2 : (resourceBase32 nonPreFetOffset bases.np g.np.max g.np).run funcPort f1 = r2
  generalize hf3 : (resourceBase32 preFetOffset bases.p g.p.max g.p).run funcPort r2.2 = r3
  generalize hf4 : (getResourceBase64 bases.p64 g.p64).run funcPort r3.2 = r4
  have hkeep1 : ∀ offset, offset ≠ busNumRegOffset → f1 offset = f offset := by
    intro offset hne
    rw [← hf1, set_of_ne hne]
  have hkeep2 : ∀ offset, offset ≠ nonPreFetOffset → r2.2 offset = f1 offset := by
    intro offset hne
    rw [← hf2, resourceBase32_keeps hne]
  have hkeep3 : ∀ offset, offset ≠ preFetOffset → r3.2 offset = r2.2 offset := by
    intro offset hne
    rw [← hf3, resourceBase32_keeps hne]
  have hsame : SameHw f r4.2 := by
    rw [← hf4, ← hf3, ← hf2, ← hf1]
    exact ((sameHw_run (palPciCfgWrite busNumRegOffset (busNumRegCfg subBus secBus here)) f).trans
      (sameHw_run _ _)).trans ((sameHw_run _ _).trans (sameHw_run _ _))
  have hkeep5 : ∀ g' offset, busNumRegOffset ≤ offset →
      ((palPcieRpProgramBar g').run funcPort r4.2).2 offset = r4.2 offset := fun g' offset hge =>
    rpProgramBars_keeps (hf.same hsame) ((hsame.isBridge_eq hf.toWf).trans hbridge) g' hge
  have hround : ∀ q, q ≠ .p64 → bases.get q ≠ (A q).start → roundUp32 (A q).start < 2 ^ 32 := by
    intro q hq hne
    have hlt := hfits q
    rw [Allocs.close] at hlt
    cases q with
    | np | p =>
      rw [Alloc.close, if_pos hne] at hlt
      exact hlt
    | p64 => exact absurd rfl hq
  constructor
  · -- the non-prefetchable window
    rw [npWindow, hkeep5 _ _ (by decide), ← hf4, getResourceBase64_keeps (by decide),
      hkeep3 _ (by decide), ← hf2]
    rw [← hkeep1 nonPreFetOffset (by decide)] at hnp hnp' ⊢
    obtain ⟨-, h1, h2⟩ := resourceBase32_window bases.np (hsim .np) hnp hnp' (hmax .np)
      (hlow .np) (hround .np (by decide))
    exact Prod.ext h1 h2
  · -- the prefetchable one
    have hreg : r2.2 preFetOffset = f preFetOffset := by
      rw [hkeep2 _ (by decide), hkeep1 _ (by decide)]
    have hupper : ∀ offset, preFetOffset < offset → r3.2 offset = f offset := by
      intro offset hlt
      have hne : ∀ offset' ≤ preFetOffset, offset ≠ offset' := fun _ hle heq =>
        not_lt.mpr hle (heq ▸ hlt)
      rw [hkeep3 _ (hne _ (by decide)), hkeep2 _ (hne _ (by decide)), hkeep1 _ (hne _ (by decide))]
    rw [← hreg] at hp hp' ⊢
    obtain ⟨h1, h2, h3⟩ := resourceBase32_window bases.p (hsim .p) hp hp' (hmax .p)
      (hlow .p) (hround .p (by decide))
    have hlt64 : (A .p64).start < 2 ^ 64 := (Alloc.le_close _ _).trans_lt (hfits .p64)
    have hwindow := getResourceBase64_window bases.p64 (hsim .p64)
      (hf3 ▸ h1) (by rw [hupper _ (by decide)]; exact hbase)
        (by rw [hupper _ (by decide)]; exact hlimit)
      ((hle .p64).trans_lt hlt64) ((hmax .p64).trans_lt hlt64)
    rw [pWindow, hkeep5 _ _ (by decide), hkeep5 _ _ (by decide), hkeep5 _ _ (by decide), ← hf4]
    refine hwindow.trans ?_
    rw [← hf3]
    exact congrArg (ite _ _) (Prod.ext h2 h3)

theorem windows_of_bridge (hf : f.WindowOk) (hbridge : f.isBridge = true) (hopen : g.Sim A)
    (hfits : A.Fits) (hclose : g'.Sim A') (hB : ∀ q, bases.get q = B q) (hfits' : (A'.close B).Fits)
    (hle : ∀ q, B q ≤ (A' q).start) (hmax : ∀ q, (A' q).max ≤ (A' q).start)
    (hlow : ∀ q, 2 ^ 20 ≤ (A' q).start) (here secBus subBus : Nat) :
    let f' := ((palCloseBridge here secBus subBus bases g').run funcPort
      ((palOpenBridge here secBus g).run funcPort f).2).2
    f'.npWindow = (floorMib (A .np).start, (A' .np).bound (B .np)) ∧
      f'.pWindow =
        if (A' .p64).opens64 (B .p64) then (floorMib (B .p64), floorMib (A' .p64).max + 2 ^ 20)
        else (floorMib (A .p).start, (A' .p).bound (B .p)) := by
  have hsame := sameHw_run (palOpenBridge here secBus g) f
  obtain ⟨hnp, hnpBase, hnpLimit⟩ :=
    palOpenBridge_window hopen hfits here secBus (.inl ⟨rfl, rfl⟩) (hf.np hbridge)
  obtain ⟨hp, hpBase, hpLimit⟩ :=
    palOpenBridge_window hopen hfits here secBus (.inr ⟨rfl, rfl⟩) (hf.p hbridge)
  have hbase := hf.upperBase hbridge
  have hlimit := hf.upperLimit hbridge
  have hwindows := palCloseBridge_windows (hf.toPalOk.same hsame)
    ((hsame.isBridge_eq hf.toWf).trans hbridge) hclose hB hfits' hle hmax hlow
    hnp hnpLimit hp hpLimit hbase hlimit here secBus subBus
  rw [hnpBase, hpBase] at hwindows
  exact hwindows

end

end ServerSoc.PcieEnum
