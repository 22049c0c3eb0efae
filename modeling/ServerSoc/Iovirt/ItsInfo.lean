/-
Queries about ITS groups (acs_iovirt.c, `val_iovirt_get_its_info`).

With identifiers that are distinct over all groups, the number of a group and the index of a block
in it are found back from the identifier, whatever lies between the groups.
-/
import Mathlib.Data.List.Nodup
import ServerSoc.Iovirt.Table
import ServerSoc.Its.Msi

namespace ServerSoc.Iovirt

open List Its

inductive ItsInfo where
  | numGroups | groupNumBlocks | getIdForBlkIndex | getGrpIndexForId | getBlkIndexForId
  deriving DecidableEq, Repr

def numItsGroupsWord : Nat := 4

def isItsGroup (mem : Words) (block : Nat) : Bool := typeOf mem block = NodeType.itsGroup.code

/-- `data_map[0].id[it]` for `it` below `its_count`: from the fifth on, an identifier lies in
the maps behind the first. -/
def itsIds (mem : Words) (block : Nat) : List Nat :=
  (range (mem (dataWord block 0))).map fun it => mem (mapWord block 0 + it)

/-- What a search leaves: its result is written when there is one. -/
def answer (value : Nat) (found : Option Nat) : Nat × Nat :=
  found.elim (Its.acsInvalidIndex, value) (acsStatusPass, ·)

/-- The loops over the identifiers of a group, with `param` an index or an identifier. -/
def groupInfo (mem : Words) (type : ItsInfo) (param value block : Nat) : Nat × Nat :=
  match type with
  | .groupNumBlocks => (acsStatusPass, (itsIds mem block).length)
  | .getIdForBlkIndex => answer value (itsIds mem block)[param]?
  | .getBlkIndexForId => answer value ((itsIds mem block).findIdx? (· = param))
  | _ => (acsStatusErr, value)

/-- The loop over the blocks, with `j` groups passed: the status, and what is behind the
result pointer afterwards. -/
def itsInfoLoop (mem : Words) (type : ItsInfo) (groupIndex param value : Nat) :
    List Nat → Nat → Nat × Nat
  | [], _ => (Its.acsInvalidIndex, value)
  | block :: rest, j =>
    if isItsGroup mem block then
      if type = .getGrpIndexForId then
        if param ∈ itsIds mem block then (acsStatusPass, j)
        else itsInfoLoop mem type groupIndex param value rest (j + 1)
      else if groupIndex = j then groupInfo mem type param value block
      else itsInfoLoop mem type groupIndex param value rest (j + 1)
    else itsInfoLoop mem type groupIndex param value rest j

/-- A result pointer is `none` when it is NULL, and otherwise what it points to. -/
def valIovirtGetItsInfo (table : Option Words) (type : ItsInfo) (groupIndex param : Nat)
    (returnValue : Option Nat) : Nat × Option Nat :=
  match table, returnValue with
  | some mem, some value =>
    if type = .numGroups then (acsStatusPass, some (mem numItsGroupsWord))
    else (itsInfoLoop mem type groupIndex param value (blocks mem) 0).map id some
  | _, _ => (acsStatusErr, returnValue)

def itsGroups (mem : Words) : List Nat := (blocks mem).filter (isItsGroup mem)

section

variable {mem : Words} {type : ItsInfo} {g b id value j : Nat} {l : List Nat}

theorem itsInfoLoop_group (htype : type ≠ .getGrpIndexForId) (hj : j ≤ g) :
    itsInfoLoop mem type g id value l j = ((l.filter (isItsGroup mem))[g - j]?).elim
      (Its.acsInvalidIndex, value) (groupInfo mem type id value) := by
  induction l generalizing j with
  | nil => rfl
  | cons block rest ih =>
    rw [itsInfoLoop, if_neg htype]
    by_cases hblock : isItsGroup mem block
    · rw [if_pos hblock, filter_cons_of_pos hblock]
      by_cases hg : g = j
      · simp [hg]
      · rw [if_neg hg, ih (by omega), show g - j = g - (j + 1) + 1 by omega, getElem?_cons_succ]
    · rw [if_neg hblock, filter_cons_of_neg hblock, ih hj]

theorem itsInfoLoop_id :
    itsInfoLoop mem .getGrpIndexForId g id value l j = answer value
      (((l.filter (isItsGroup mem)).findIdx? (id ∈ itsIds mem ·)).map (· + j)) := by
  induction l generalizing j with
  | nil => rfl
  | cons block rest ih =>
    rw [itsInfoLoop]
    by_cases hblock : isItsGroup mem block
    · rw [if_pos hblock, filter_cons_of_pos hblock, findIdx?_cons]
      by_cases hid : id ∈ itsIds mem block
      · simp [hid, answer]
      · simp [hid, ih, Function.comp_def, add_comm, add_left_comm]
    · rw [if_neg hblock, filter_cons_of_neg hblock, ih]

theorem findIdx?_of_nodup (hd : ((itsGroups mem).flatMap (itsIds mem)).Nodup) {block : Nat}
    (hg : (itsGroups mem)[g]? = some block) (hb : (itsIds mem block)[b]? = some id) :
    (itsGroups mem).findIdx? (id ∈ itsIds mem ·) = some g ∧
      (itsIds mem block).findIdx? (· = id) = some b := by
  obtain ⟨hin, hapart⟩ := nodup_flatMap.mp hd
  obtain ⟨hglt, hg'⟩ := List.getElem?_eq_some_iff.mp hg
  obtain ⟨hblt, hb'⟩ := List.getElem?_eq_some_iff.mp hb
  have hmem := mem_of_getElem? hb
  simp only [findIdx?_eq_some_iff_getElem, decide_eq_true_eq]
  constructor
  · refine ⟨hglt, hg' ▸ hmem, fun k hk hother => ?_⟩
    exact pairwise_iff_getElem.mp hapart k g (hk.trans hglt) hglt hk hother (hg' ▸ hmem)
  · refine ⟨hblt, hb', fun k hk hother => ?_⟩
    have hkb := (hin block (mem_of_getElem? hg)).getElem_inj_iff.mp (hother.trans hb'.symm)
    omega

end

/-- The identifier of a block leads back to its group and its index, and an identifier of no
group is answered with an error that leaves the result alone. -/
theorem itsInfo_inverse (mem : Words) (hd : ((itsGroups mem).flatMap (itsIds mem)).Nodup) :
    (∀ g block b value, (itsGroups mem)[g]? = some block → b < (itsIds mem block).length →
      ∃ id, valIovirtGetItsInfo (some mem) .getIdForBlkIndex g b (some value) =
          (acsStatusPass, some id) ∧
        (∀ any other, valIovirtGetItsInfo (some mem) .getGrpIndexForId any id (some other) =
          (acsStatusPass, some g)) ∧
        ∀ other, valIovirtGetItsInfo (some mem) .getBlkIndexForId g id (some other) =
          (acsStatusPass, some b)) ∧
    ∀ id, (∀ block ∈ itsGroups mem, id ∉ itsIds mem block) → ∀ g value,
      valIovirtGetItsInfo (some mem) .getGrpIndexForId g id (some value) =
          (Its.acsInvalidIndex, some value) ∧
        valIovirtGetItsInfo (some mem) .getBlkIndexForId g id (some value) =
          (Its.acsInvalidIndex, some value) := by
  have hgroups : (blocks mem).filter (isItsGroup mem) = itsGroups mem := rfl
  simp only [valIovirtGetItsInfo, itsInfoLoop_id, itsInfoLoop_group, hgroups, reduceCtorEq, ne_eq,
    not_false_eq_true, Nat.zero_le]
  constructor
  · intro g block b value hg hb
    have hid := getElem?_eq_getElem hb
    obtain ⟨hgroup, hblk⟩ := findIdx?_of_nodup hd hg hid
    simp [hg, hid, hgroup, hblk, groupInfo, answer]
  · intro id hnone g value
    have hgroup : (itsGroups mem).findIdx? (id ∈ itsIds mem ·) = none := by simpa using hnone
    refine ⟨by simp [hgroup, answer], ?_⟩
    cases hg : (itsGroups mem)[g]? with
    | none => rfl
    | some block =>
      have hblk : (itsIds mem block).findIdx? (· = id) = none := by
        simpa using fun it hit (heq : it = id) => hnone block (mem_of_getElem? hg) (heq ▸ hit)
      simp [groupInfo, hblk, answer]

def twoGroups : Words
  | 0 => 2
  | 6 => NodeType.itsGroup.code
  | 7 => 2
  | 8 => 5
  | 81 => NodeType.itsGroup.code
  | 82 => 1
  | 83 => 1
  | a => a

theorem itsInfo_inverse_twoGroups :
    ((itsGroups twoGroups).flatMap (itsIds twoGroups)).Nodup ∧
      ∃ id, valIovirtGetItsInfo (some twoGroups) .getIdForBlkIndex 0 4 (some 0) =
          (acsStatusPass, some id) ∧
        valIovirtGetItsInfo (some twoGroups) .getGrpIndexForId 1 id (some 9) =
          (acsStatusPass, some 0) := by
  have hd : ((itsGroups twoGroups).flatMap (itsIds twoGroups)).Nodup := by decide
  obtain ⟨id, hid, hgroup, -⟩ := (itsInfo_inverse twoGroups hd).1 0 6 4 0 (by decide) (by decide)
  exact ⟨hd, id, hid, hgroup 1 9⟩

end ServerSoc.Iovirt
