/-
The BARs of an endpoint.

The hardware fixes the type of a BAR in its lowest bits and its size in the bits that can be
written.  `programBar_turn` says what a turn of `pal_pcie_program_bar_reg` does to one.
-/
import ServerSoc.PcieEnum.BusNumbers

namespace ServerSoc.PcieEnum

open Base Func Nat

/-! ## Layout -/

inductive PoolName where
  | np | p | p64
  deriving DecidableEq, Repr

structure Bar where
  offset : Nat
  prefetchable : Bool
  is64 : Bool
  size : Nat
  deriving DecidableEq, Repr

namespace Bar

def pool (b : Bar) : PoolName := if b.prefetchable then if b.is64 then .p64 else .p else .np

def seenSize (b : Bar) : Nat := if b.prefetchable then b.size else b.size % 2 ^ 32

def next (b : Bar) : Nat := if b.is64 then b.offset + 8 else b.offset + 4

end Bar

namespace Func

def barAt (f : Func) (offset : Nat) : Bar where
  offset := offset
  prefetchable := barMem (f offset).fixed == 1
  is64 := barReg (f offset).fixed == 1
  size :=
    if barReg (f offset).fixed = 1 then negate 64 ((f offset).mask + (f (offset + 4)).mask * 2 ^ 32)
    else negate 32 (f offset).mask

def barsFrom (f : Func) : Nat → Nat → List Bar
  | 0, _ => []
  | turns + 1, offset =>
    if offset ≤ type0BarMaxOff then
      (if (f.barAt offset).size = 0 then [] else [f.barAt offset]) ++
        f.barsFrom turns (f.barAt offset).next
    else []

def bars (f : Func) : List Bar := f.barsFrom 6 bar0Offset

def address (f : Func) (b : Bar) : Nat :=
  (f b.offset).written + if b.is64 then (f (b.offset + 4)).written * 2 ^ 32 else 0

/-- The low bits of a BAR are its type, and its size is a power of two. -/
structure BarWf (f : Func) (offset : Nat) : Prop where
  mask : (f offset).mask % 16 = 0
  mask_lt : (f offset).mask < 2 ^ 32
  fixed_lt : (f offset).fixed < 16
  upper_mask : barReg (f offset).fixed = 1 → (f (offset + 4)).mask < 2 ^ 32
  upper_fixed : barReg (f offset).fixed = 1 → (f (offset + 4)).fixed = 0
  size : (f.barAt offset).size = 0 ∨ ∃ k, 4 ≤ k ∧ (f.barAt offset).size = 2 ^ k

def BarsWf (f : Func) : Nat → Nat → Prop
  | 0, _ => True
  | turns + 1, offset =>
    offset ≤ type0BarMaxOff → f.BarWf offset ∧ f.BarsWf turns (f.barAt offset).next

end Func

/-! ## Registers -/

variable {f f' : Func} {offset : Nat}

section

variable {r : Reg}

theorem barMem_eq (value : Nat) : barMem value = (value.testBit 3).toNat := by
  rw [barMem, toNat_testBit, shiftRight_eq_div_pow, show 0xF = 2 ^ 4 - 1 from rfl, and_low]
  omega

theorem barMem_value (h : r.mask % 16 = 0) : barMem r.value = barMem r.fixed := by
  have hbit : r.mask.testBit 3 = false := by
    rw [testBit_eq_decide_div_mod_eq]
    simp
    omega
  rw [barMem_eq, barMem_eq, Reg.value, testBit_or, testBit_and, hbit, Bool.and_false,
    Bool.false_or]

theorem and_barMask (x : Nat) : x &&& barMask = x / 2 ^ 4 % 2 ^ 28 * 2 ^ 4 := by
  rw [barMask, show 0xFFFFFFF0 = (2 ^ 28 - 1) <<< 4 from rfl, and_mask, shiftLeft_eq]

theorem value_and_barMask (hmask : r.mask % 16 = 0) (hlt : r.mask < 2 ^ 32)
    (hfixed : r.fixed < 16) : (r.write 0xFFFFFFF0).value &&& barMask = r.mask := by
  have hones : 0xFFFFFFF0 &&& r.mask = r.mask := by
    rw [Nat.and_comm]
    have hand := and_barMask r.mask
    rw [barMask] at hand
    omega
  have hor : r.mask ||| r.fixed = r.mask + r.fixed := by
    have hshift := shiftLeft_or (a := r.mask / 16) (k := 4) hfixed
    rw [shiftLeft_eq] at hshift
    rw [show r.mask / 16 * 2 ^ 4 = r.mask by omega] at hshift
    exact hshift
  rw [Reg.value, Reg.write, hones, hor, and_barMask]
  omega

theorem value_upper (hlt : r.mask < 2 ^ 32) (hfixed : r.fixed = 0) :
    (r.write 0xFFFFFFFF).value = r.mask := by
  rw [Reg.value, Reg.write, hfixed, or_zero, Nat.and_comm, show 0xFFFFFFFF = 2 ^ 32 - 1 from rfl,
    and_low, mod_eq_of_lt hlt]

theorem run_sizeBar32 (f : Func) (offset : Nat) :
    (sizeBar32 offset).run funcPort f =
      (((f offset).write 0xFFFFFFF0).value, f.set offset 0xFFFFFFF0) := by
  simp [sizeBar32]

/-- The code reads the size of a BAR with one register, and the low half of a larger one. -/
theorem negate_size32 (h : f.BarWf offset) :
    negate 32 (((f offset).write 0xFFFFFFF0).value &&& barMask) = negate 32 (f offset).mask := by
  rw [value_and_barMask h.mask h.mask_lt h.fixed_lt]

theorem run_sizeBar64 (h : f.BarWf offset) (h64 : barReg (f offset).fixed = 1) :
    (sizeBar64 offset).run funcPort f =
      ((f.barAt offset).size, (f.set offset 0xFFFFFFF0).set (offset + 4) 0xFFFFFFFF) := by
  have hlow : ((f.set offset 0xFFFFFFF0).set (offset + 4) 0xFFFFFFFF) offset =
      (f offset).write 0xFFFFFFF0 := by
    rw [set_of_ne (by omega), set_self]
  have hhigh : ((f.set offset 0xFFFFFFF0).set (offset + 4) 0xFFFFFFFF) (offset + 4) =
      (f (offset + 4)).write 0xFFFFFFFF := by
    rw [set_self, set_of_ne (by omega)]
  simp only [sizeBar64, Access.run_bind, run_palPciCfgRead, run_palPciCfgWrite, Access.run_pure]
  rw [show 0xFFFFFFF0 % 2 ^ 32 = 0xFFFFFFF0 from rfl,
    show 0xFFFFFFFF % 2 ^ 32 = 0xFFFFFFFF from rfl,
    hlow, hhigh, value_and_barMask h.mask h.mask_lt h.fixed_lt,
    value_upper (h.upper_mask h64) (h.upper_fixed h64), Nat.or_comm, shiftLeft_or h.mask_lt,
    barAt, if_pos h64, add_comm]

end

/-! ## One turn -/

def PoolName.width : PoolName → Nat
  | .np | .p => 32
  | .p64 => 64

def Globals.pool (g : Globals) : PoolName → Pool
  | .np => g.np
  | .p => g.p
  | .p64 => g.p64

def BarState.localSize (s : BarState) : PoolName → Nat
  | .np => s.npBarSize
  | .p => s.pBarSize
  | .p64 => s.pBar64Size

def BarState.put (s : BarState) (q : PoolName) (pool : Pool) (size : Nat) : BarState :=
  match q with
  | .np => { s with npBarSize := size, globals := { s.globals with np := pool } }
  | .p => { s with pBarSize := size, globals := { s.globals with p := pool } }
  | .p64 => { s with pBar64Size := size, globals := { s.globals with p64 := pool } }

def Bar.step (b : Bar) (bus : Nat) (s : BarState) : BarState :=
  if b.seenSize = 0 then s
  else
    s.put b.pool ((s.globals.pool b.pool).place b.pool.width bus (s.localSize b.pool) b.seenSize)
      (b.seenSize % 2 ^ 32)

structure Turn (b : Bar) (bus : Nat) (s : BarState) (f : Func) (r : (Nat × BarState) × Func) :
    Prop where
  next : r.1.1 = b.next
  state : r.1.2 = b.step bus s
  frame : ∀ offset, offset ≠ b.offset → (b.is64 = true → offset ≠ b.offset + 4) →
    r.2 offset = f offset
  address : b.seenSize ≠ 0 → r.2.address b = ((b.step bus s).globals.pool b.pool).start
  unsized : b.seenSize = 0 → (r.2 b.offset).written = 0xFFFFFFF0

variable {bus : Nat} {s : BarState}

section

variable {next : Nat}

theorem Pool.nextStart_lt (pool : Pool) (width bus localSize barSize : Nat) :
    pool.nextStart width bus localSize barSize < 2 ^ width := by
  have hpos := Nat.two_pow_pos width
  rw [Pool.nextStart]
  split
  all_goals
    split
    all_goals exact mod_lt _ hpos

theorem negate_lt (width value : Nat) : negate width value < 2 ^ width :=
  mod_lt _ (Nat.two_pow_pos width)

theorem low_add_high {x : Nat} (h : x < 2 ^ 64) : x % 2 ^ 32 + x >>> 32 % 2 ^ 32 * 2 ^ 32 = x := by
  omega

theorem Turn.of_zero (hseen : (f.barAt offset).seenSize = 0)
    (hnext : next = (f.barAt offset).next) :
    Turn (f.barAt offset) bus s f ((next, s), f.set offset 0xFFFFFFF0) := by
  refine ⟨hnext, by rw [Bar.step, if_pos hseen], fun offset' hne _ => set_of_ne hne _ _,
    fun hne => absurd hseen hne, fun _ => ?_⟩
  show (f.set offset _ offset).written = _
  rw [set_self]
  rfl

theorem Turn.of_narrow (hnarrow : (f.barAt offset).is64 = false)
    (hseen : (f.barAt offset).seenSize ≠ 0) {start : Nat} {s' : BarState}
    (hnext : next = (f.barAt offset).next) (hstate : s' = (f.barAt offset).step bus s)
    (hstart : start = (s'.globals.pool (f.barAt offset).pool).start) (hlt : start < 2 ^ 32) :
    Turn (f.barAt offset) bus s f ((next, s'),
      (f.set offset 0xFFFFFFF0).set offset (start % 2 ^ 32)) := by
  refine ⟨hnext, hstate, fun offset' hne _ => ?_, fun _ => ?_, fun hzero => absurd hzero hseen⟩
  · exact (Func.set_of_ne hne _ _).trans (Func.set_of_ne hne _ _)
  · rw [Func.address, hnarrow, if_neg Bool.false_ne_true, ← hstate, ← hstart]
    show (((f.set offset _).set offset _) offset).written + 0 = _
    rw [Func.set_self]
    exact mod_eq_of_lt hlt

section

variable (h : f.BarWf offset) (hp : barMem (f offset).fixed = 1)
include h hp

theorem turn_p64 (h64 : barReg (f offset).fixed = 1) :
    Turn (f.barAt offset) bus s f ((programBarP64 bus offset s).run funcPort f) := by
  have hpre : (f.barAt offset).prefetchable = true := by simp [barAt, hp]
  have hwide : (f.barAt offset).is64 = true := by simp [barAt, h64]
  have hpool : (f.barAt offset).pool = .p64 := by rw [Bar.pool, hpre, hwide]; rfl
  have hseen : (f.barAt offset).seenSize = (f.barAt offset).size := by rw [Bar.seenSize, hpre]; rfl
  have hoff : (f.barAt offset).offset = offset := rfl
  simp only [programBarP64, Access.run_bind, run_sizeBar64 h h64, run_ite, run_palPciCfgWrite,
    Access.run_pure]
  split_ifs with hsize
  · refine ⟨by rw [Bar.next, hwide]; rfl, by rw [Bar.step, hseen, if_pos hsize], ?_, ?_, ?_⟩
    · intro offset' hne hne'
      rw [hoff] at hne hne'
      show ((f.set offset _).set (offset + 4) _) offset' = _
      rw [set_of_ne (hne' hwide), set_of_ne hne]
    · rw [hseen]
      exact fun hne => absurd hsize hne
    · intro _
      show (((f.set offset _).set (offset + 4) _) offset).written = _
      rw [set_of_ne (by omega), set_self]
      rfl
  · refine ⟨by rw [Bar.next, hwide]; rfl, ?_, ?_, ?_, ?_⟩
    · rw [Bar.step, hseen, if_neg hsize, hpool]
      rfl
    · intro offset' hne hne'
      rw [hoff] at hne hne'
      show ((((f.set offset _).set (offset + 4) _).set offset _).set (offset + 4) _) offset' = _
      rw [set_of_ne (hne' hwide), set_of_ne hne, set_of_ne (hne' hwide),
        set_of_ne hne]
    · intro _
      rw [address, hwide, Bar.step, hseen, if_neg hsize, hpool]
      show (((((f.set offset _).set (offset + 4) _).set offset _).set (offset + 4) _)
          offset).written +
        (((((f.set offset _).set (offset + 4) _).set offset _).set (offset + 4) _)
          (offset + 4)).written * 2 ^ 32 = _
      rw [set_self, set_of_ne (by omega), set_self]
      exact low_add_high (Pool.nextStart_lt _ _ _ _ _)
    · rw [hseen]
      exact fun h => absurd h hsize

theorem turn_p32 (h32 : barReg (f offset).fixed ≠ 1) :
    Turn (f.barAt offset) bus s f ((programBarP32 bus offset s).run funcPort f) := by
  have hpre : (f.barAt offset).prefetchable = true := by simp [barAt, hp]
  have hnarrow : (f.barAt offset).is64 = false := by simp [barAt, h32]
  have hpool : (f.barAt offset).pool = .p := by rw [Bar.pool, hpre, hnarrow]; rfl
  have hsize : (f.barAt offset).size = negate 32 (f offset).mask := by rw [barAt, if_neg h32]
  have hseen : (f.barAt offset).seenSize = negate 32 (f offset).mask := by
    rw [Bar.seenSize, hpre, if_pos rfl, hsize]
  have hnext : offset + 4 = (f.barAt offset).next := by rw [Bar.next, hnarrow]; rfl
  simp only [programBarP32, Access.run_bind, run_sizeBar32, negate_size32 h]
  split_ifs with hzero
  · exact .of_zero (hseen.trans hzero) hnext
  · refine .of_narrow hnarrow (hseen.symm ▸ hzero) hnext ?_ (by rw [hpool]; rfl)
      (Pool.nextStart_lt _ _ _ _ _)
    rw [Bar.step, hseen, if_neg hzero, hpool, mod_eq_of_lt (negate_lt 32 _)]
    rfl

end

section

variable (h : f.BarWf offset) (hp : barMem (f offset).fixed ≠ 1)
include h hp

theorem seenSize_np : (f.barAt offset).seenSize = negate 32 (f offset).mask := by
  have hpre : (f.barAt offset).prefetchable = false := by simp [barAt, hp]
  have hmask := h.mask_lt
  rw [Bar.seenSize, hpre, if_neg Bool.false_ne_true, barAt]
  dsimp only
  split_ifs with h64
  · have hupper := h.upper_mask h64
    rw [negate, negate]
    omega
  · exact mod_eq_of_lt (negate_lt 32 _)

theorem turn_np : Turn (f.barAt offset) bus s f ((programBarNp bus offset s).run funcPort f) := by
  have hpre : (f.barAt offset).prefetchable = false := by simp [barAt, hp]
  have hpool : (f.barAt offset).pool = .np := by rw [Bar.pool, hpre]; rfl
  have hseen := seenSize_np h hp
  have hoff : (f.barAt offset).offset = offset := rfl
  have hreg : ∀ data, barReg ((f offset).write data).value = barReg (f offset).fixed :=
    fun data => barReg_value h.mask
  have hreg' : ∀ data, barReg (((f.set offset 0xFFFFFFF0).set offset data) offset).value =
      barReg (f offset).fixed := by
    intro data
    rw [set_self, set_self]
    exact barReg_value h.mask
  have hnext : (f.barAt offset).next = if barReg (f offset).fixed = 1 then offset + 8
      else offset + 4 := by
    simp [Bar.next, barAt]
  simp only [programBarNp, Access.run_bind, run_sizeBar32, negate_size32 h, run_ite,
    run_palPciCfgWrite, run_palPciCfgRead, Access.run_pure, hreg, hreg']
  by_cases hzero : negate 32 (f offset).mask = 0
  · rw [if_pos hzero]
    exact .of_zero (hseen.trans hzero) hnext.symm
  · rw [if_neg hzero]
    have hstep : (f.barAt offset).step bus s =
        { s with
          npBarSize := negate 32 (f offset).mask
          globals := { s.globals with
            np := s.globals.np.place 32 bus s.npBarSize (negate 32 (f offset).mask) } } := by
      rw [Bar.step, hseen, if_neg hzero, hpool, mod_eq_of_lt (negate_lt 32 _)]
      rfl
    by_cases h64 : barReg (f offset).fixed = 1
    · have hwide : (f.barAt offset).is64 = true := by simp [barAt, h64]
      rw [if_pos h64]
      refine ⟨by rw [hnext, if_pos h64], hstep.symm, ?_, ?_, ?_⟩
      · intro offset' hne hne'
        rw [hoff] at hne hne'
        show (((f.set offset _).set offset _).set (offset + 4) _) offset' = _
        rw [set_of_ne (hne' hwide), set_of_ne hne, set_of_ne hne]
      · intro _
        rw [address, hwide, hstep, hpool]
        show ((((f.set offset _).set offset _).set (offset + 4) _) offset).written +
          ((((f.set offset _).set offset _).set (offset + 4) _) (offset + 4)).written * 2 ^ 32 = _
        rw [set_self, set_of_ne (by omega), set_self]
        show _ % 2 ^ 32 + 0 % 2 ^ 32 * 2 ^ 32 = _
        exact mod_eq_of_lt (Pool.nextStart_lt _ _ _ _ _)
      · rw [hseen]
        exact fun h => absurd h hzero
    · have hnarrow : (f.barAt offset).is64 = false := by simp [barAt, h64]
      rw [if_neg h64]
      exact .of_narrow hnarrow (hseen.symm ▸ hzero) (by rw [hnext, if_neg h64]) hstep.symm
        (by rw [hpool]; rfl) (Pool.nextStart_lt _ _ _ _ _)

end

theorem programBar_turn (bus : Nat) (s : BarState) (h : f.BarWf offset) :
    Turn (f.barAt offset) bus s f ((programBar bus offset s).run funcPort f) := by
  simp only [programBar, Access.run_bind, run_palPciCfgRead, run_ite, barMem_value h.mask,
    barReg_value h.mask]
  split_ifs with hp h64
  · exact turn_p64 h hp h64
  · exact turn_p32 h hp h64
  · exact turn_np h hp

end

/-! ## The loop over the registers -/

section

variable {turns : Nat} {b : Bar}

section

variable (h : SameHw f f')
include h

theorem SameHw.barAt_eq (offset : Nat) : f'.barAt offset = f.barAt offset := by
  rw [barAt, (h offset).1, (h offset).2, (h (offset + 4)).1, barAt]

theorem SameHw.barsFrom_eq : f'.barsFrom turns offset = f.barsFrom turns offset := by
  induction turns generalizing offset with
  | zero => rfl
  | succ turns ih => rw [barsFrom, h.barAt_eq, ih, barsFrom]

theorem SameHw.bars_eq : f'.bars = f.bars := h.barsFrom_eq

theorem SameHw.barWf (hf : f.BarWf offset) : f'.BarWf offset where
  mask := by rw [(h offset).1]; exact hf.mask
  mask_lt := by rw [(h offset).1]; exact hf.mask_lt
  fixed_lt := by rw [(h offset).2]; exact hf.fixed_lt
  upper_mask h64 := by
    rw [(h offset).2] at h64
    rw [(h (offset + 4)).1]
    exact hf.upper_mask h64
  upper_fixed h64 := by
    rw [(h offset).2] at h64
    rw [(h (offset + 4)).2]
    exact hf.upper_fixed h64
  size := by rw [h.barAt_eq]; exact hf.size

theorem SameHw.barsWf (hf : f.BarsWf turns offset) : f'.BarsWf turns offset := by
  induction turns generalizing offset with
  | zero => trivial
  | succ turns ih =>
    intro hoff
    obtain ⟨hbar, hrest⟩ := hf hoff
    rw [h.barAt_eq]
    exact ⟨h.barWf hbar, ih hrest⟩

end

def starts (bus : Nat) : List Bar → BarState → List Nat
  | [], _ => []
  | b :: l, s => ((b.step bus s).globals.pool b.pool).start :: starts bus l (b.step bus s)

structure Programmed (l : List Bar) (offset bus : Nat) (s : BarState) (f : Func)
    (r : BarState × Func) : Prop where
  state : r.1 = l.foldl (fun s b => b.step bus s) s
  frame : ∀ offset' < offset, r.2 offset' = f offset'
  address : List.Forall₂ (fun b start => b.seenSize ≠ 0 → r.2.address b = start) l (starts bus l s)
  unsized : ∀ b ∈ l, b.seenSize = 0 → (r.2 b.offset).written = 0xFFFFFFF0

theorem Func.address_congr (h : f' b.offset = f b.offset)
    (h' : b.is64 = true → f' (b.offset + 4) = f (b.offset + 4)) : f'.address b = f.address b := by
  rw [address, address, h]
  split_ifs with h64
  · rw [h' h64]
  · rfl

theorem Bar.offset_lt_next (b : Bar) :
    b.offset < b.next ∧ (b.is64 = true → b.offset + 4 < b.next) := by
  rw [Bar.next]
  split_ifs with h
  · omega
  · exact ⟨by omega, fun h' => absurd h' h⟩

theorem Bar.step_eq_self (h : b.size = 0) (bus : Nat) (s : BarState) : b.step bus s = s := by
  have hseen : b.seenSize = 0 := by
    rw [Bar.seenSize, h, zero_mod, ite_self]
  rw [Bar.step, if_pos hseen]

theorem programBars_spec (bus : Nat) (s : BarState) (h : f.BarsWf turns offset) :
    Programmed (f.barsFrom turns offset) offset bus s f
      ((programBars bus turns offset s).run funcPort f) := by
  induction turns generalizing offset s f with
  | zero => exact ⟨rfl, fun _ _ => rfl, .nil, nofun⟩
  | succ turns ih =>
    rw [programBars, barsFrom]
    by_cases hoff : offset ≤ type0BarMaxOff
    · obtain ⟨hbar, hrest⟩ := h hoff
      have hturn := programBar_turn bus s hbar
      have hsame := sameHw_run (programBar bus offset s) f
      rw [if_pos hoff, if_pos hoff, Access.run_bind, hturn.next]
      have hloop := ih ((programBar bus offset s).run funcPort f).1.2 (hsame.barsWf hrest)
      rw [hsame.barsFrom_eq] at hloop
      generalize (programBar bus offset s).run funcPort f = r at hturn hsame hloop ⊢
      obtain ⟨hlt, hlt'⟩ := (f.barAt offset).offset_lt_next
      rw [hturn.state] at hloop ⊢
      generalize (programBars bus turns (f.barAt offset).next ((f.barAt offset).step bus s)).run
        funcPort r.2 = out at hloop ⊢
      have hframe : ∀ offset' < offset, out.2 offset' = f offset' := by
        intro offset' hlt''
        have hoffset : (f.barAt offset).offset = offset := rfl
        rw [hloop.frame offset' (by omega), hturn.frame offset' (by omega) (fun _ => by omega)]
      split_ifs with hsize
      · rw [Bar.step_eq_self hsize] at hloop
        exact ⟨hloop.state, hframe, hloop.address, hloop.unsized⟩
      · have hkeep := hloop.frame (f.barAt offset).offset hlt
        refine ⟨hloop.state, hframe, .cons (fun hseen => ?_) hloop.address, ?_⟩
        · rw [← hturn.address hseen]
          exact address_congr hkeep fun h64 => hloop.frame _ (hlt' h64)
        · intro b hb hseen
          rcases List.mem_cons.mp hb with rfl | hb
          · rw [hkeep]
            exact hturn.unsized hseen
          · exact hloop.unsized b hb hseen
    · rw [if_neg hoff, if_neg hoff]
      exact ⟨rfl, fun _ _ => rfl, .nil, nofun⟩

end

end ServerSoc.PcieEnum
