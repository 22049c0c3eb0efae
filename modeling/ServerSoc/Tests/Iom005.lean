/-
Test iom005: the IOMMUs must have the paging modes of the hart (test_os_iom005.c).

Of the modes that the ISA string names only the first in the order of the searches is looked for
in the IOMMUs, and of the modes that an MMU node implies only the largest.
-/
import Mathlib.Data.List.Infix
import ServerSoc.Hart.Entry
import ServerSoc.Iommu.Table
import ServerSoc.Val.Status

namespace ServerSoc.Tests.Iom005

open Memory Hart Iommu Val List Option

def testNum : Nat := 1200 + 5

inductive Mode where
  | sv39 | sv48 | sv57
  deriving DecidableEq, Repr

def Mode.type : Mode → Nat
  | .sv39 => 0
  | .sv48 => 1
  | .sv57 => 2

def Mode.capMsk : Mode → Nat
  | .sv39 => 1 <<< 9
  | .sv48 => 1 <<< 10
  | .sv57 => 1 <<< 11

def Mode.name : Mode → List UInt8
  | .sv39 => [115, 118, 51, 57]
  | .sv48 => [115, 118, 52, 56]
  | .sv57 => [115, 118, 53, 55]

/-- The bytes at `a` up to the first zero, `none` when there is none among `fuel` bytes. -/
def cString (m : Mem) : Nat → Nat → Option (List UInt8)
  | 0, _ => none
  | fuel + 1, a => if m a = 0 then some [] else (cString m fuel (a + 1)).map (m a :: ·)

def isaString (t : Mem) (hartIndex fuel : Nat) : Option (List UInt8) :=
  (valHartGetIsaString t hartIndex).bind (cString t fuel)

def hartMmuType (t : Mem) (hartIndex : Nat) (isa : List UInt8) : Nat :=
  if Mode.sv39.name <:+: isa then Mode.sv39.type
  else if Mode.sv48.name <:+: isa then Mode.sv48.type
  else if Mode.sv57.name <:+: isa then Mode.sv57.type
  else valHartGetMmuType t hartIndex

def checkIommu (bus : RegBus) (g : Option Mem) (mmuType index : Nat) : Option Nat :=
  if valIommuGetInfo g index .type = typeIommu then
    let regCap := valIommuReadIommuReg bus g index riscvIommuRegCap 2
    if mmuType = Mode.sv39.type ∧ regCap &&& Mode.sv39.capMsk ≠ Mode.sv39.capMsk then
      some (resultFail testNum 1)
    else if mmuType = Mode.sv48.type ∧ regCap &&& Mode.sv48.capMsk ≠ Mode.sv48.capMsk then
      some (resultFail testNum 1)
    else if mmuType = Mode.sv57.type ∧ regCap &&& Mode.sv57.capMsk ≠ Mode.sv57.capMsk then
      some (resultFail testNum 1)
    else none
  else none

def payload (bus : RegBus) (g : Option Mem) (t : Mem) (hartIndex fuel : Nat) : Option Nat :=
  (isaString t hartIndex fuel).map fun isa =>
    let mmuType := hartMmuType t hartIndex isa
    if mmuType = 0xff then resultSkip testNum 1
    else ((List.range (valIommuGetNum g)).findSome? (checkIommu bus g mmuType)).getD
      (resultPass testNum 1)

/-! ## What PASS is to mean -/

/-- The ISA string names the mode, or it names none and the MMU node has this or a larger one. -/
def Supports (t : Mem) (hartIndex : Nat) (isa : List UInt8) (mode : Mode) : Prop :=
  mode.name <:+: isa ∨
    (∀ other : Mode, ¬ other.name <:+: isa) ∧ mode.type ≤ valHartGetMmuType t hartIndex

def Advertises (bus : RegBus) (g : Option Mem) (index : Nat) (mode : Mode) : Prop :=
  valIommuReadIommuReg bus g index riscvIommuRegCap 2 &&& mode.capMsk = mode.capMsk

instance (bus : RegBus) (g : Option Mem) (index : Nat) (mode : Mode) :
    Decidable (Advertises bus g index mode) :=
  inferInstanceAs (Decidable (_ = _))

def Has (bus : RegBus) (g : Option Mem) (p : Mode → Prop) (index : Nat) : Prop :=
  valIommuGetInfo g index .type = typeIommu → ∀ mode, p mode → Advertises bus g index mode

section

variable {bus : RegBus} {g : Option Mem} {t : Mem} {hartIndex fuel : Nat} {isa : List UInt8}

theorem checkIommu_cases (bus : RegBus) (g : Option Mem) (mmuType index : Nat) :
    checkIommu bus g mmuType index = none ∧ Has bus g (·.type = mmuType) index ∨
      checkIommu bus g mmuType index = some (resultFail testNum 1) ∧
        ¬ Has bus g (·.type = mmuType) index := by
  rw [checkIommu]
  split_ifs with htype
  · dsimp only
    split
    · rename_i h
      exact .inr ⟨rfl, fun hall => h.2 (hall htype .sv39 h.1.symm)⟩
    · split
      · rename_i h
        exact .inr ⟨rfl, fun hall => h.2 (hall htype .sv48 h.1.symm)⟩
      · split
        · rename_i h
          exact .inr ⟨rfl, fun hall => h.2 (hall htype .sv57 h.1.symm)⟩
        · rename_i h39 h48 h57
          refine .inl ⟨rfl, fun _ mode hmode => by_contra fun hno => ?_⟩
          cases mode with
          | sv39 => exact h39 ⟨hmode.symm, hno⟩
          | sv48 => exact h48 ⟨hmode.symm, hno⟩
          | sv57 => exact h57 ⟨hmode.symm, hno⟩
  · exact .inl ⟨rfl, fun h => absurd h htype⟩

theorem payload_pass_iff (hisa : isaString t hartIndex fuel = some isa) :
    payload bus g t hartIndex fuel = some (resultPass testNum 1) ↔
      hartMmuType t hartIndex isa ≠ 0xff ∧
        ∀ index < valIommuGetNum g, Has bus g (·.type = hartMmuType t hartIndex isa) index := by
  rw [payload, hisa, map_some]
  generalize hartMmuType t hartIndex isa = mmuType
  by_cases hff : mmuType = 0xff
  · rw [if_pos hff]
    exact iff_of_false (by decide) fun h => h.1 hff
  · rw [if_neg hff, and_iff_right hff]
    cases hfind : (range (valIommuGetNum g)).findSome? (checkIommu bus g mmuType) with
    | none =>
      refine iff_of_true rfl fun index hindex => ?_
      have hnone := findSome?_eq_none_iff.mp hfind index (mem_range.mpr hindex)
      rcases checkIommu_cases bus g mmuType index with hok | hfail
      · exact hok.2
      · cases hnone.symm.trans hfail.1
    | some status =>
      obtain ⟨index, hindex, hsome⟩ := exists_of_findSome?_eq_some hfind
      rcases checkIommu_cases bus g mmuType index with hok | hfail
      · cases hok.1.symm.trans hsome
      · obtain rfl := some.inj (hfail.1.symm.trans hsome)
        exact iff_of_false (by decide) fun h => hfail.2 (h index (mem_range.mp hindex))

def oneIommu : Mem := store (fun _ => 0) 0 4 1

def allBut (mode : Mode) : RegBus :=
  ⟨fun _ => 0, fun _ => 0xe00 - mode.capMsk, fun _ => 0, fun _ _ => 0⟩

theorem allBut_advertises (mode other : Mode) :
    Advertises (allBut mode) (some oneIommu) 0 other ↔ other ≠ mode := by
  cases mode <;> cases other <;> decide

theorem Mode.forall_iff {p : Mode → Prop} : (∀ mode, p mode) ↔ p .sv39 ∧ p .sv48 ∧ p .sv57 := by
  constructor
  · intro h
    exact ⟨h .sv39, h .sv48, h .sv57⟩
  · rintro ⟨h39, h48, h57⟩ mode
    cases mode
    · exact h39
    · exact h48
    · exact h57

/-- No mode of the hart but the one that is looked for. -/
theorem hartMmuType_only_iff :
    (hartMmuType t hartIndex isa = 0xff ∨
        ∀ mode, Supports t hartIndex isa mode → mode.type = hartMmuType t hartIndex isa) ↔
      (∀ mode other : Mode, mode.name <:+: isa → other.name <:+: isa → mode = other) ∧
        ((∀ mode : Mode, ¬ mode.name <:+: isa) →
          valHartGetMmuType t hartIndex = Mode.sv39.type ∨
            valHartGetMmuType t hartIndex = 0xff) := by
  simp only [Mode.forall_iff, Supports, hartMmuType]
  by_cases h39 : Mode.sv39.name <:+: isa <;> by_cases h48 : Mode.sv48.name <:+: isa <;>
    by_cases h57 : Mode.sv57.name <:+: isa <;> simp [h39, h48, h57, Mode.type]
  omega

/-- PASS means on every platform that the IOMMUs have the modes of the hart, exactly when the
ISA string names one mode, or none and the MMU type is Sv39 or, which skips the test, 0xff. -/
theorem modes_sound_iff (hisa : isaString t hartIndex fuel = some isa) :
    (∀ bus g, payload bus g t hartIndex fuel = some (resultPass testNum 1) →
        ∀ index < valIommuGetNum g, Has bus g (Supports t hartIndex isa) index) ↔
      (∀ mode other : Mode, mode.name <:+: isa → other.name <:+: isa → mode = other) ∧
        ((∀ mode : Mode, ¬ mode.name <:+: isa) →
          valHartGetMmuType t hartIndex = Mode.sv39.type ∨
            valHartGetMmuType t hartIndex = 0xff) := by
  rw [← hartMmuType_only_iff]
  constructor
  · intro h
    by_contra hno
    push Not at hno
    obtain ⟨hff, mode, hsup, hne⟩ := hno
    refine (allBut_advertises mode mode).mp ?_ rfl
    refine h _ _ ((payload_pass_iff hisa).mpr ⟨hff, fun index hindex _ other hother => ?_⟩)
      0 (by decide) (by decide) mode hsup
    refine (allBut_advertises mode other).mpr fun heq => hne ?_
    rw [← heq, hother]
  · intro h bus g hpass index hindex htype mode hsup
    obtain ⟨hff, hall⟩ := (payload_pass_iff hisa).mp hpass
    exact hall index hindex htype mode (h.resolve_left hff mode hsup)

end

def hartWith (isa : List UInt8) : Mem := putString 44 (store (fun _ => 0) 0 4 1) isa

theorem payload_sound_sv48 :
    isaString (hartWith Mode.sv48.name) 0 5 = some Mode.sv48.name ∧ ∀ bus g,
      payload bus g (hartWith Mode.sv48.name) 0 5 = some (resultPass testNum 1) →
        ∀ index < valIommuGetNum g,
          Has bus g (Supports (hartWith Mode.sv48.name) 0 Mode.sv48.name) index := by
  have hisa : isaString (hartWith Mode.sv48.name) 0 5 = some Mode.sv48.name := by decide
  refine ⟨hisa, (modes_sound_iff hisa).mpr ⟨?_, fun hnone => ?_⟩⟩
  · simp only [Mode.forall_iff]
    decide
  · exact absurd (infix_refl _) (hnone .sv48)

/-- The string names sv39 and sv48, and sv48 is not looked for. -/
theorem payload_misses_sv48 :
    isaString (hartWith (Mode.sv39.name ++ Mode.sv48.name)) 0 9 =
        some (Mode.sv39.name ++ Mode.sv48.name) ∧
      payload (allBut .sv48) (some oneIommu) (hartWith (Mode.sv39.name ++ Mode.sv48.name)) 0 9 =
        some (resultPass testNum 1) ∧
      ¬ ∀ index < valIommuGetNum (some oneIommu), Has (allBut .sv48) (some oneIommu)
        (Supports (hartWith (Mode.sv39.name ++ Mode.sv48.name)) 0
          (Mode.sv39.name ++ Mode.sv48.name)) index := by
  refine ⟨by decide, by decide, fun h => ?_⟩
  have hadv := h 0 (by decide) (by decide) .sv48 (.inl (suffix_append _ _).isInfix)
  exact (allBut_advertises .sv48 .sv48).mp hadv rfl

end ServerSoc.Tests.Iom005
