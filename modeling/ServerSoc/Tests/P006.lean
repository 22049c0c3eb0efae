/-
Test p006: every host bridge has a 32-bit and a 64-bit memory window (test_os_p006.c).

The test scans the DSDT for devices named `PCI…` and reads the windows of their `_CRS` buffers.  The
last write of the payload is PASS as soon as one bridge was found, so the windows decide nothing.
-/
import Mathlib.Logic.Function.Basic
import Mathlib.Tactic.IntervalCases
import ServerSoc.Memory.Bytes
import ServerSoc.Val.Status

namespace ServerSoc.Tests.P006

open Base Memory Val List Nat Option

def testNum : Nat := 800 + 6

/-! ## AML tables -/

/-- A resource descriptor of a `_CRS` buffer.  The two address space descriptors keep
the resource type 0 (memory); everything else is a run of bytes. -/
inductive Resource where
  | dwordMemory (flags typeFlags : UInt8) (granularity min max offset length : Nat)
  | qwordMemory (flags typeFlags : UInt8) (granularity min max offset length : Nat)
  | other (bytes : List UInt8)

def wordBytes (n v : Nat) : List UInt8 := (range n).map (byteOf v)

def Resource.encode : Resource → List UInt8
  | .dwordMemory flags typeFlags granularity min max offset length =>
    [0x87, 0x17, 0, 0, flags, typeFlags] ++
      [granularity, min, max, offset, length].flatMap (wordBytes 4)
  | .qwordMemory flags typeFlags granularity min max offset length =>
    [0x8A, 0x2B, 0, 0, flags, typeFlags] ++
      [granularity, min, max, offset, length].flatMap (wordBytes 8)
  | .other bytes => bytes

def Resource.IsWindow32 : Resource → Prop
  | .dwordMemory _ _ _ _ _ _ length => length % 2 ^ 32 ≠ 0
  | _ => False

def Resource.IsWindow64 : Resource → Prop
  | .qwordMemory _ _ _ _ _ _ length => length % 2 ^ 64 ≠ 0
  | _ => False

/-- An object of the table.  `width` is the number of bytes that follow the lead byte
of its package length.  Objects other than devices that hold objects (scopes, methods)
are blocks, what holds none is a run of bytes. -/
inductive Term where
  | device (width : Nat) (name : List UInt8) (body : List Term)
  | crs (width : Nat) (bufferSize : List UInt8) (resources : List Resource)
  | block (opcode : List UInt8) (width : Nat) (header : List UInt8) (body : List Term)
  | other (bytes : List UInt8)

def pkgLengthBytes (width length : Nat) : List UInt8 :=
  if width = 0 then [UInt8.ofNat length]
  else UInt8.ofNat (width * 64 + length % 16) :: wordBytes width (length / 16)

/-- A package: its length, which counts its own bytes, and what it holds. -/
def encodePkg (width : Nat) (content : List UInt8) : List UInt8 :=
  pkgLengthBytes width (1 + width + content.length) ++ content

mutual

def Term.encode : Term → List UInt8
  | .device width name body => [0x5B, 0x82] ++ encodePkg width (name ++ encodeTerms body)
  | .crs width bufferSize resources =>
    [0x08, 0x5F, 0x43, 0x52, 0x53, 0x11] ++
      encodePkg width (bufferSize ++ resources.flatMap Resource.encode ++ [0x79, 0])
  | .block opcode width header body => opcode ++ encodePkg width (header ++ encodeTerms body)
  | .other bytes => bytes

def encodeTerms : List Term → List UInt8
  | [] => []
  | t :: ts => t.encode ++ encodeTerms ts

end

mutual

/-- The bodies of the devices whose name starts with `PCI`, at every depth. -/
def Term.pciDevices : Term → List (List Term)
  | .device _ name body =>
    if name.take 3 = [0x50, 0x43, 0x49] then body :: pciDevicesOf body else pciDevicesOf body
  | .crs _ _ _ => []
  | .block _ _ _ body => pciDevicesOf body
  | .other _ => []

def pciDevicesOf : List Term → List (List Term)
  | [] => []
  | t :: ts => t.pciDevices ++ pciDevicesOf ts

end

def HasWindows (body : List Term) : Prop :=
  ∃ width bufferSize resources, Term.crs width bufferSize resources ∈ body ∧
    (∃ r ∈ resources, r.IsWindow32) ∧ ∃ r ∈ resources, r.IsWindow64

structure Dsdt where
  signature : List UInt8
  /-- The header behind the length field. -/
  header : List UInt8
  terms : List Term

def Dsdt.length (d : Dsdt) : Nat :=
  d.signature.length + 4 + d.header.length + (encodeTerms d.terms).length

def Dsdt.bytes (d : Dsdt) : List UInt8 :=
  d.signature ++ wordBytes 4 d.length ++ d.header ++ encodeTerms d.terms

def Dsdt.image (d : Dsdt) (ptr : Nat) (m : Mem) : Mem :=
  fun x => if ptr ≤ x then d.bytes.getD (x - ptr) (m x) else m x

def Sound (d : Dsdt) : Prop :=
  pciDevicesOf d.terms ≠ [] ∧ ∀ body ∈ pciDevicesOf d.terms, HasWindows body

/-! ## The test -/

structure PcieMmioRange where
  mem32Start : Nat := 0
  mem32Len : Nat := 0
  mem64Start : Nat := 0
  mem64Len : Nat := 0
  deriving DecidableEq, Repr

/-- The globals `host_num` and `mmio_range`.  The array has 10 places; a place beyond
them is one of its own here. -/
structure Bridges where
  hostNum : Nat := 0
  mmioRange : Nat → PcieMmioRange := fun _ => {}

/-- `strncmp(str1, str2, len)` of the test, for a `str2` of `len` characters. -/
def strncmp (m : Mem) (str1 : Nat) : List UInt8 → UInt8
  | [] => 1
  | [c] => m str1 - c
  | c :: rest =>
    if m str1 ≠ 0 ∧ c ≠ 0 ∧ m str1 = c then strncmp m (str1 + 1) rest else m str1 - c

/-- `parse_pkg_length`: the length and the pointer behind its bytes.  The form with three
following bytes is not known to it. -/
def parsePkgLength (m : Mem) (ptr : Nat) : Nat × Nat :=
  let lead := (m ptr).toNat
  if lead &&& 0xC0 = 0x00 then (lead &&& 0x3F, ptr + 1)
  else if lead &&& 0xC0 = 0x40 then
    ((m (ptr + 1)).toNat <<< 4 ||| (lead &&& 0x0F), ptr + 2)
  else if lead &&& 0xC0 = 0x80 then
    ((m (ptr + 2)).toNat <<< 12 ||| (m (ptr + 1)).toNat <<< 4 ||| (lead &&& 0x0F), ptr + 3)
  else (0, ptr)

/-- The loop of `parse_crs` on the range of the bridge.  The pointer moves in every round,
so `crsEnd - ptr` rounds are enough. -/
def parseCrs (m : Mem) (crsEnd : Nat) : Nat → Nat → PcieMmioRange → PcieMmioRange
  | 0, _, range => range
  | rounds + 1, ptr, range =>
    if ptr < crsEnd ∧ m ptr ≠ 0x79 then
      if m ptr = 0x8A then
        parseCrs m crsEnd rounds (ptr + 0x2B)
          { range with mem64Start := load m (ptr + 14) 8, mem64Len := load m (ptr + 38) 8 }
      else if m ptr = 0x87 then
        if m (ptr + 5) ≠ 0x01 then parseCrs m crsEnd rounds (ptr + 5) range
        else
          parseCrs m crsEnd rounds (ptr + 0x17)
            { range with mem32Start := load m (ptr + 10) 4, mem32Len := load m (ptr + 22) 4 }
      else parseCrs m crsEnd rounds (ptr + 1) range
    else range

/-- The search for `_CRS` buffers between `curPtr` and the end of the device. -/
def findCrs (m : Mem) (deviceEnd : Nat) : Nat → Nat → PcieMmioRange → PcieMmioRange
  | 0, _, range => range
  | rounds + 1, curPtr, range =>
    if curPtr < deviceEnd then
      if strncmp m curPtr [0x5F, 0x43, 0x52, 0x53] = 0 ∧ m (curPtr + 4) = 0x11 then
        let pkg := parsePkgLength m (curPtr + 5)
        let range :=
          if pkg.1 > 100 then parseCrs m (pkg.2 + pkg.1) pkg.1 pkg.2 range else range
        findCrs m deviceEnd rounds (pkg.2 + pkg.1) range
      else findCrs m deviceEnd rounds (curPtr + 1) range
    else range

def IsDeviceOp (m : Mem) (ptr : Nat) : Prop := m ptr = 0x5B ∧ m (ptr + 1) = 0x82

instance (m : Mem) (ptr : Nat) : Decidable (IsDeviceOp m ptr) := inferInstanceAs (Decidable (_ ∧ _))

def IsPciDevice (m : Mem) (ptr : Nat) : Prop :=
  strncmp m (parsePkgLength m (ptr + 2)).2 [0x50, 0x43, 0x49] = 0

instance (m : Mem) (ptr : Nat) : Decidable (IsPciDevice m ptr) :=
  inferInstanceAs (Decidable (_ = _))

/-- What the scan does with the device at `ptr` once its name matched. -/
def addBridge (m : Mem) (ptr : Nat) (s : Bridges) : Bridges :=
  let pkg := parsePkgLength m (ptr + 2)
  let range := findCrs m (pkg.2 + pkg.1) pkg.1 (pkg.2 + 4) (s.mmioRange s.hostNum)
  { hostNum := (s.hostNum + 1) % 2 ^ 8
    mmioRange := Function.update s.mmioRange s.hostNum range }

def scanTable (m : Mem) (tableEnd : Nat) : Nat → Nat → Bridges → Option Bridges
  | 0, _, _ => none
  | fuel + 1, amlStart, s =>
    if amlStart < tableEnd then
      if IsDeviceOp m amlStart then
        scanTable m tableEnd fuel (amlStart + (parsePkgLength m (amlStart + 2)).1)
          (if IsPciDevice m amlStart then addBridge m amlStart s else s)
      else scanTable m tableEnd fuel (amlStart + 1) s
    else some s

def findPciHostBridges (fuel : Nat) (m : Mem) (ptr : Nat) (s : Bridges) : Option Bridges :=
  scanTable m (ptr + load m (ptr + 4) 4) fuel ptr { s with hostNum := 0 }

/-- The status words the payload writes, in order; `none` when the scan has not ended. -/
def payload (fuel : Nat) (m : Mem) (dsdtPtr : Nat) (s : Bridges) : Option (List Nat) :=
  (if dsdtPtr ≠ 0 then findPciHostBridges fuel m dsdtPtr s else some s).map fun s =>
    let invalid := (range s.hostNum).filter fun index =>
      (s.mmioRange index).mem64Len = 0 || (s.mmioRange index).mem32Len = 0
    let testSkip := if s.hostNum ≠ 0 then 0 else 1
    invalid.map (fun _ => resultSkip testNum 1) ++
      [if testSkip = 1 then resultSkip testNum 1 else resultPass testNum 1]

def EndsWithPass (m : Mem) (dsdtPtr : Nat) (s : Bridges) : Prop :=
  ∃ fuel writes, payload fuel m dsdtPtr s = some writes ∧
    writes.getLast? = some (resultPass testNum 1)

/-! ## The devices the scan meets -/

/-- A scan that starts at `ptr` ends, and the device operators with a `PCI` name it meets
are at `found`.  It goes on a byte at a time, and by the package length at a device
operator, whatever that device is called. -/
inductive Scan (m : Mem) (tableEnd : Nat) : Nat → List Nat → Prop where
  | done {ptr : Nat} (h : tableEnd ≤ ptr) : Scan m tableEnd ptr []
  | bridge {ptr : Nat} {found : List Nat} (hin : ptr < tableEnd) (hop : IsDeviceOp m ptr)
      (hpci : IsPciDevice m ptr)
      (next : Scan m tableEnd (ptr + (parsePkgLength m (ptr + 2)).1) found) :
      Scan m tableEnd ptr (ptr :: found)
  | device {ptr : Nat} {found : List Nat} (hin : ptr < tableEnd) (hop : IsDeviceOp m ptr)
      (hpci : ¬IsPciDevice m ptr)
      (next : Scan m tableEnd (ptr + (parsePkgLength m (ptr + 2)).1) found) :
      Scan m tableEnd ptr found
  | byte {ptr : Nat} {found : List Nat} (hin : ptr < tableEnd) (hop : ¬IsDeviceOp m ptr)
      (next : Scan m tableEnd (ptr + 1) found) : Scan m tableEnd ptr found

/-- The scan of the table at `ptr` ends and meets bridges; the count is a byte. -/
def FindsBridge (m : Mem) (ptr : Nat) : Prop :=
  ∃ found, Scan m (ptr + load m (ptr + 4) 4) ptr found ∧ found.length % 2 ^ 8 ≠ 0

section

variable {m : Mem} {tableEnd ptr : Nat} {s s' : Bridges} {found : List Nat}

@[simp] theorem addBridge_hostNum (m : Mem) (ptr : Nat) (s : Bridges) :
    (addBridge m ptr s).hostNum = (s.hostNum + 1) % 2 ^ 8 := rfl

theorem scan_of_scanTable {fuel : Nat} (hs : s.hostNum < 2 ^ 8)
    (h : scanTable m tableEnd fuel ptr s = some s') :
    ∃ found, Scan m tableEnd ptr found ∧ s'.hostNum = (s.hostNum + found.length) % 2 ^ 8 := by
  induction fuel generalizing ptr s with
  | zero => simp [scanTable] at h
  | succ fuel ih =>
    rw [scanTable] at h
    by_cases hin : ptr < tableEnd
    · rw [if_pos hin] at h
      by_cases hop : IsDeviceOp m ptr
      · split_ifs at h with hpci
        · obtain ⟨found, hscan, hnum⟩ := ih (by rw [addBridge_hostNum]; omega) h
          refine ⟨ptr :: found, .bridge hin hop hpci hscan, ?_⟩
          rw [hnum, addBridge_hostNum, length_cons]
          omega
        · obtain ⟨found, hscan, hnum⟩ := ih hs h
          exact ⟨found, .device hin hop hpci hscan, hnum⟩
      · rw [if_neg hop] at h
        obtain ⟨found, hscan, hnum⟩ := ih hs h
        exact ⟨found, .byte hin hop hscan, hnum⟩
    · rw [if_neg hin] at h
      cases h
      refine ⟨[], .done (by omega), ?_⟩
      simp only [length_nil]
      omega

theorem scanTable_of_scan (hscan : Scan m tableEnd ptr found) (s : Bridges) :
    ∃ fuel s', scanTable m tableEnd fuel ptr s = some s' := by
  induction hscan generalizing s with
  | done h => exact ⟨1, s, by rw [scanTable, if_neg (by omega)]⟩
  | bridge hin hop hpci next ih | device hin hop hpci next ih =>
    obtain ⟨fuel, s', h⟩ := ih _
    exact ⟨fuel + 1, s', by rw [scanTable, if_pos hin, if_pos hop]; exact h⟩
  | byte hin hop next ih =>
    obtain ⟨fuel, s', h⟩ := ih s
    exact ⟨fuel + 1, s', by rw [scanTable, if_pos hin, if_neg hop]; exact h⟩

theorem Scan.unique {found' : List Nat} (h : Scan m tableEnd ptr found)
    (h' : Scan m tableEnd ptr found') : found = found' := by
  induction h generalizing found' with
  | done hout =>
    cases h' with
    | done => rfl
    | bridge hin | device hin | byte hin => omega
  | bridge hin hop hpci next ih =>
    cases h' with
    | done hout => omega
    | bridge _ _ _ next' => rw [ih next']
    | device _ _ hpci' => exact absurd hpci hpci'
    | byte _ hop' => exact absurd hop hop'
  | device hin hop hpci next ih =>
    cases h' with
    | done hout => omega
    | bridge _ _ hpci' => exact absurd hpci' hpci
    | device _ _ _ next' => exact ih next'
    | byte _ hop' => exact absurd hop hop'
  | byte hin hop next ih =>
    cases h' with
    | done hout => omega
    | bridge _ hop' | device _ hop' => exact absurd hop' hop
    | byte _ _ next' => exact ih next'

end

variable {dsdtPtr : Nat} {m : Mem}

theorem payload_getLast {fuel : Nat} {s : Bridges} {writes : List Nat} (hptr : dsdtPtr ≠ 0)
    (h : payload fuel m dsdtPtr s = some writes) :
    ∃ s', findPciHostBridges fuel m dsdtPtr s = some s' ∧
      writes.getLast? = some (if s'.hostNum ≠ 0 then resultPass testNum 1
        else resultSkip testNum 1) := by
  rw [payload, if_pos hptr, map_eq_some_iff] at h
  obtain ⟨s', hfind, rfl⟩ := h
  refine ⟨s', hfind, ?_⟩
  by_cases hnum : s'.hostNum ≠ 0 <;> simp

theorem endsWithPass_iff (s : Bridges) (hptr : dsdtPtr ≠ 0) :
    EndsWithPass m dsdtPtr s ↔ FindsBridge m dsdtPtr := by
  constructor
  · rintro ⟨fuel, writes, hrun, hlast⟩
    obtain ⟨s', hfind, hlast'⟩ := payload_getLast hptr hrun
    obtain ⟨found, hscan, hnum⟩ := scan_of_scanTable (by simp) hfind
    refine ⟨found, hscan, ?_⟩
    intro hzero
    have hnone : s'.hostNum = 0 := by
      rw [hnum]
      simpa using hzero
    rw [hlast, hnone] at hlast'
    exact absurd hlast' (by decide)
  · rintro ⟨found, hscan, hcount⟩
    obtain ⟨fuel, s', hfind⟩ := scanTable_of_scan hscan { s with hostNum := 0 }
    obtain ⟨found', hscan', hnum⟩ := scan_of_scanTable (by simp) hfind
    have hsome : s'.hostNum ≠ 0 := by
      rw [hnum, ← hscan.unique hscan']
      simpa using hcount
    obtain ⟨writes, hrun⟩ : ∃ writes, payload fuel m dsdtPtr s = some writes := by
      rw [payload, if_pos hptr, findPciHostBridges, hfind]
      exact ⟨_, rfl⟩
    obtain ⟨s'', hfind', hlast⟩ := payload_getLast hptr hrun
    obtain rfl : s'' = s' := by
      rw [findPciHostBridges, hfind] at hfind'
      exact (some.inj hfind').symm
    exact ⟨fuel, writes, hrun, by rw [hlast, if_pos hsome]⟩

/-- A PASS of the test is right for a table exactly when the table is sound, or when the
scan meets no bridge and the test does not pass. -/
theorem payload_sound_iff (d : Dsdt) (m : Mem) (s : Bridges) {dsdtPtr : Nat}
    (hptr : dsdtPtr ≠ 0) :
    (EndsWithPass (d.image dsdtPtr m) dsdtPtr s → Sound d) ↔
      Sound d ∨ ¬FindsBridge (d.image dsdtPtr m) dsdtPtr := by
  rw [endsWithPass_iff s hptr]
  exact imp_iff_or_not

def oneBridge (resources : List Resource) : Dsdt where
  signature := [0x44, 0x53, 0x44, 0x54]
  header := replicate 28 0
  terms := [.device 2 [0x50, 0x43, 0x49, 0x30] [.crs 1 [0x0A, 0x60] resources]]

def bothWindows : List Resource :=
  [.dwordMemory 0x0C 0x01 0 0x40000000 0x7FFFFFFF 0 0x40000000,
    .qwordMemory 0x0C 0x01 0 0x400000000 0x7FFFFFFFF 0 0x400000000,
    .other (replicate 32 0)]

theorem sound_bothWindows : Sound (oneBridge bothWindows) := by
  refine ⟨by simp [oneBridge, pciDevicesOf, Term.pciDevices], ?_⟩
  intro body hbody
  have hcrs : body = [.crs 1 [0x0A, 0x60] bothWindows] := by
    simpa [oneBridge, pciDevicesOf, Term.pciDevices] using hbody
  rw [hcrs]
  refine ⟨1, [0x0A, 0x60], bothWindows, mem_singleton_self _, ?_, ?_⟩
  · exact ⟨_, mem_cons_self, by simp [Resource.IsWindow32]⟩
  · exact ⟨_, mem_cons_of_mem _ mem_cons_self, by simp [Resource.IsWindow64]⟩

/-- The test passes on a bridge with both windows, and rightly so. -/
theorem payload_bothWindows :
    payload 120 ((oneBridge bothWindows).image 0x1000 fun _ => 0) 0x1000 {} =
        some [resultPass testNum 1] ∧
      (EndsWithPass ((oneBridge bothWindows).image 0x1000 fun _ => 0) 0x1000 {} →
        Sound (oneBridge bothWindows)) :=
  ⟨by decide +kernel,
    (payload_sound_iff _ _ _ (by decide)).mpr (.inl sound_bothWindows)⟩

/-- A bridge without any window: the test writes SKIP and then PASS. -/
theorem payload_noWindows :
    payload 120 ((oneBridge []).image 0x1000 fun _ => 0) 0x1000 {} =
        some [resultSkip testNum 1, resultPass testNum 1] ∧
      EndsWithPass ((oneBridge []).image 0x1000 fun _ => 0) 0x1000 {} ∧
      ¬Sound (oneBridge []) := by
  have hrun : payload 120 ((oneBridge []).image 0x1000 fun _ => 0) 0x1000 {} =
      some [resultSkip testNum 1, resultPass testNum 1] := by decide +kernel
  refine ⟨hrun, ⟨120, _, hrun, rfl⟩, ?_⟩
  rintro ⟨-, hall⟩
  obtain ⟨width, size, resources, hmem, ⟨r, hr, -⟩, -⟩ :=
    hall [.crs 1 [0x0A, 0x60] []] (by simp [oneBridge, pciDevicesOf, Term.pciDevices])
  obtain ⟨-, -, rfl⟩ : width = 1 ∧ size = [0x0A, 0x60] ∧ resources = [] := by
    simpa using hmem
  exact absurd hr (not_mem_nil)

/-! ## Package lengths -/

/-- Six bits in the lead byte, or four there and the rest in up to three bytes. -/
def HasForm (width length : Nat) : Prop :=
  (width = 0 ∧ length < 2 ^ 6) ∨ (0 < width ∧ width ≤ 3 ∧ length < 2 ^ (4 + 8 * width))

/-- Each encoding but that of four bytes is read back. -/
theorem parsePkgLength_iff {width length ptr : Nat} (hform : HasForm width length)
    (hbytes : ∀ i ≤ width, (pkgLengthBytes width length)[i]? = some (m (ptr + i))) :
    parsePkgLength m ptr = (length, ptr + (width + 1)) ↔ width ≠ 3 := by
  have hkind : ∀ x, x &&& 0xC0 = x / 64 % 4 * 64 := fun x => by
    rw [← shiftLeft_eq (x / 64 % 4) 6]
    exact and_mask x 2 6
  have hlow : ∀ x, x &&& 0x3F = x % 64 := fun x => and_low x 6
  have hnibble : ∀ x, x &&& 0x0F = x % 16 := fun x => and_low x 4
  have hlead : (pkgLengthBytes width length)[0]? = some (m ptr) := hbytes 0 (Nat.zero_le _)
  simp only [parsePkgLength, hkind, hlow, hnibble]
  rcases hform with ⟨rfl, hlt⟩ | ⟨hpos, hmax, hlt⟩
  · have h0 : (m ptr).toNat = length := by
      rw [← some.inj hlead, UInt8.toNat_ofNat', mod_eq_of_lt (by omega)]
    rw [h0, if_pos (by omega), show length % 64 = length from mod_eq_of_lt hlt]
    simp
  · rw [pkgLengthBytes, if_neg hpos.ne'] at hlead hbytes
    have h0 : (m ptr).toNat = width * 64 + length % 16 := by
      rw [← some.inj hlead, UInt8.toNat_ofNat', mod_eq_of_lt (by omega)]
    have hrest : ∀ i < width, (m (ptr + (i + 1))).toNat = length / 16 / 256 ^ i % 256 := by
      intro i hi
      have := hbytes (i + 1) hi
      rw [getElem?_cons_succ, wordBytes, getElem?_map, getElem?_range hi] at this
      rw [← some.inj this, byteOf_toNat]
    rw [if_neg (by omega)]
    interval_cases width
    · rw [if_pos (by omega), hrest 0 (by decide), shiftLeft_or (by omega)]
      simp
      omega
    · rw [if_neg (by omega), if_pos (by omega), Nat.or_assoc, hrest 0 (by decide),
        hrest 1 (by decide), shiftLeft_or (k := 4) (by omega), shiftLeft_or (by omega)]
      simp
      omega
    · rw [if_neg (by omega), if_neg (by omega)]
      simp

theorem parsePkgLength_two :
    HasForm 1 0x125 ∧ parsePkgLength (fun x => if x = 0 then 0x45 else 0x12) 0 =
      (0x125, 0 + (1 + 1)) :=
  ⟨.inr (by decide), (parsePkgLength_iff (.inr (by decide)) (by decide)).mpr (by decide)⟩

/-- The length 2 ^ 20 in four bytes. -/
theorem parsePkgLength_four :
    HasForm 3 (2 ^ 20) ∧ pkgLengthBytes 3 (2 ^ 20) = [0xC0, 0, 0, 1] ∧
      parsePkgLength (fun x => [0xC0, 0, 0, 1].getD x 0) 0 = (0, 0) :=
  ⟨.inr (by decide), by decide, by decide⟩

end ServerSoc.Tests.P006
