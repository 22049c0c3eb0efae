/-
What the loops over the MADT and the RHCT leave in the hart info table.

On well-formed tables the walk is over the list of usable harts: for each of them the fields of its
entry are stored and the ISA strings of its hart info node are put into `isa_string`.
-/
import ServerSoc.Hart.Create

namespace ServerSoc.Hart

open Memory List Option Nat

/-! ## Strings -/

variable {tbl : Mem} {x : Nat} {s : List UInt8}

section

variable {dst i : Nat} {L : List (List UInt8)}

def putString (dst : Nat) (tbl : Mem) (s : List UInt8) : Mem :=
  fun x => if dst ≤ x then (s[x - dst]?).getD (tbl x) else tbl x

theorem putString_outside (h : x < dst ∨ dst + s.length ≤ x) : putString dst tbl s x = tbl x := by
  rw [putString]
  split
  · rw [getElem?_eq_none (by omega), getD_none]
  · rfl

theorem putString_inside (hi : i < s.length) : putString dst tbl s (dst + i) = s[i] := by
  rw [putString, if_pos (Nat.le_add_right dst i), Nat.add_sub_cancel_left,
    getElem?_eq_getElem hi, getD_some]

theorem foldl_putString_outside (h : ∀ s ∈ L, x < dst ∨ dst + s.length ≤ x) :
    L.foldl (putString dst) tbl x = tbl x := by
  induction L generalizing tbl with
  | nil => rfl
  | cons s L ih =>
    rw [foldl_cons, ih (fun s' hs' => h s' (mem_cons_of_mem s hs')),
      putString_outside (h s mem_cons_self)]

theorem foldl_putString_inside (hmem : s ∈ L) (hall : ∀ s' ∈ L, s' = s) (hi : i < s.length) :
    L.foldl (putString dst) tbl (dst + i) = s[i] := by
  induction L generalizing tbl with
  | nil => exact absurd hmem not_mem_nil
  | cons s' L ih =>
    obtain rfl := hall s' mem_cons_self
    by_cases hL : s' ∈ L
    · exact ih hL fun t ht => hall t (mem_cons_of_mem s' ht)
    · -- the list ends here, for every further string would be this one
      have hnil : L = [] := by
        refine eq_nil_iff_forall_not_mem.mpr fun t ht => hL ?_
        rw [← hall t (mem_cons_of_mem s' ht)]
        exact ht
      rw [hnil]
      exact putString_inside hi

end

/-! ## The nodes of a hart -/

variable {rhct : Mem}

section

variable {off a uid e : Nat} {all : List RhctNode} {ptr : Nat} {nodes : List Nat}

def RhctNode.string? (n : RhctNode) : Option (List UInt8) :=
  match n.info with
  | .isaString s => some s
  | _ => none

def nodeStrings (all : List RhctNode) (nodes : List Nat) : List (List UInt8) :=
  nodes.filterMap fun j => (all[j]?).bind RhctNode.string?

def isaStrings (all : List RhctNode) (uid : Nat) (ns : List RhctNode) : List (List UInt8) :=
  ns.flatMap (fun n =>
    match n.info with
    | .hartInfo u nodes => if u = uid then nodeStrings all nodes else []
    | _ => [])

theorem mem_nodeStrings :
    s ∈ nodeStrings all nodes ↔ ∃ j ∈ nodes, ∃ m, all[j]? = some m ∧ m.info = .isaString s := by
  have hstring : ∀ m : RhctNode, m.string? = some s ↔ m.info = .isaString s := by
    intro m
    rw [RhctNode.string?]
    cases m.info with
    | isaString t => simp
    | _ => simp
  simp [nodeStrings, bind_eq_some_iff, hstring]

theorem mem_isaStrings : s ∈ isaStrings all uid all ↔ IsaOf all uid s := by
  simp only [isaStrings, mem_flatMap]
  refine exists_congr fun n => and_congr_right fun _ => ?_
  cases n.info with
  | hartInfo u nodes =>
    by_cases hu : u = uid
    · simp [mem_nodeStrings]
    · simp [hu]
  | _ => simp

theorem visitNode_eq {n : RhctNode} (h : NodeAt rhct off all a n) (tbl : Mem) :
    visitNode rhct ptr tbl a = (n.string?.toList).foldl (putString (ptr + offIsaString)) tbl := by
  obtain ⟨htype, -, hinfo⟩ := h
  rw [visitNode, htype, RhctNode.type, RhctNode.string?]
  cases hn : n.info with
  | isaString s =>
    rw [hn] at hinfo
    obtain ⟨-, hlen, hbytes, -⟩ := hinfo
    funext x
    simp only [if_true, hlen, toList_some, foldl_cons, foldl_nil, copyMem, putString]
    by_cases hx : ptr + offIsaString ≤ x ∧ x < ptr + offIsaString + s.length
    · have hi : x - (ptr + offIsaString) < s.length := by omega
      have hbyte := hbytes.getElem (i := x - (ptr + offIsaString)) (by simpa using hi)
      rw [if_pos hx, if_pos hx.1, getElem?_eq_getElem hi]
      simp only [load, getElem_map, one_mul, mul_zero, add_zero] at hbyte
      exact UInt8.toNat_inj.mp hbyte
    · rw [if_neg hx]
      split
      · rw [getElem?_eq_none (by omega), getD_none]
      · rfl
  | mmu t => rfl
  | hartInfo u nodes => rfl
  | other type =>
    rw [hn] at hinfo
    rw [if_neg hinfo.2.1]
    rfl

theorem visitOffsets_eq (hall : NodesAt rhct off all off all e)
    (hnum : load rhct (a + 6) 2 = nodes.length) (hlt : ∀ j ∈ nodes, j < all.length)
    (hat : NumbersAt rhct 4 (a + 12) (nodes.map (nodeOffset off all))) (tbl : Mem) :
    visitOffsets rhct a ptr tbl =
      (nodeStrings all nodes).foldl (putString (ptr + offIsaString)) tbl := by
  have hoffsets : (range nodes.length).map (fun i => load rhct (a + 12 + 4 * i) 4) =
      nodes.map (nodeOffset off all) := by
    refine ext_getElem (by simp) fun i hi hi' => ?_
    rw [getElem_map, getElem_range]
    exact hat.getElem hi'
  rw [visitOffsets, hnum,
    ← foldl_map (f := fun i => load rhct (a + 12 + 4 * i) 4) (g := visitNode rhct ptr), hoffsets]
  clear hoffsets hat hnum
  induction nodes generalizing tbl with
  | nil => rfl
  | cons j nodes ih =>
    obtain ⟨m, hm⟩ : ∃ m, all[j]? = some m := ⟨_, getElem?_eq_getElem (hlt j mem_cons_self)⟩
    have hnext := ih fun j' hj' => hlt j' (mem_cons_of_mem j hj')
    rw [map_cons, foldl_cons, visitNode_eq (nodeAt_of_nodesAt hall hm), hnext, nodeStrings,
      nodeStrings, filterMap_cons, hm, bind_some]
    cases m.string? with
    | none => rfl
    | some s => rfl

theorem visitNodes_eq {e' : Nat} {ns : List RhctNode} (hall : NodesAt rhct off all off all e)
    (hns : NodesAt rhct off all a ns e') (tbl : Mem) :
    visitNodes rhct uid ptr ns.length a tbl =
      (isaStrings all uid ns).foldl (putString (ptr + offIsaString)) tbl := by
  induction ns generalizing a tbl with
  | nil => rfl
  | cons n ns ih =>
    obtain ⟨⟨htype, hlen, hinfo⟩, hrest⟩ := hns
    have hcons : isaStrings all uid (n :: ns) = _ ++ isaStrings all uid ns := flatMap_cons
    rw [length_cons, visitNodes, hlen, ih hrest, hcons]
    rw [htype, RhctNode.type]
    cases hn : n.info with
    | hartInfo u nodes =>
      rw [hn] at hinfo
      obtain ⟨-, hnum, huid, hlt, hat⟩ := hinfo
      rw [huid]
      by_cases hu : u = uid
      · rw [visitOffsets_eq hall hnum hlt hat]
        simp [hu]
      · simp [hu]
    | isaString s =>
      rfl
    | mmu t =>
      rfl
    | other type =>
      rw [hn] at hinfo
      rw [if_neg (fun h => hinfo.2.2.2 h.1)]
      rfl

end

/-! ## One hart -/

variable {madt : Mem} {ns : List RhctNode} {k : Nat}

section

variable {r : Rintc}

def hartFields (k : Nat) (r : Rintc) : List Field :=
  [⟨offHartId, 8, r.hartId⟩, ⟨offHartNum, 4, k⟩, ⟨offAcpiProcessorUid, 4, r.acpiProcessorUid⟩,
    ⟨offExtIntcId, 4, r.externalIntcId⟩, ⟨offImsicBase, 8, r.imsicBase⟩,
    ⟨offImsicSize, 4, r.imsicSize⟩]

theorem hartFields_disjoint (k : Nat) (r : Rintc) : (hartFields k r).Pairwise Field.Disjoint := by
  simp [hartFields, Field.Disjoint, offHartId, offHartNum, offAcpiProcessorUid, offExtIntcId,
    offImsicBase, offImsicSize]

theorem hartFields_lt (k : Nat) (r : Rintc) :
    ∀ f ∈ hartFields k r, f.off + f.len ≤ offIsaString := by
  simp [hartFields, offHartId, offHartNum, offAcpiProcessorUid, offExtIntcId, offImsicBase,
    offImsicSize, offIsaString]

def putHart (ns : List RhctNode) (k : Nat) (r : Rintc) (tbl : Mem) : Mem :=
  store ((isaStrings ns r.acpiProcessorUid ns).foldl (putString (entryBase k + offIsaString))
    (storeFields tbl (entryBase k) (hartFields k r))) 0 4 (k + 1)

theorem entryBase_succ (k : Nat) : entryBase (k + 1) = entryBase k + entrySize := by
  rw [entryBase, entryBase, mul_succ, add_assoc]

theorem eight_le_entryBase (k : Nat) : 8 ≤ entryBase k := Nat.le_add_right 8 _

theorem load_header_storeFields {fs : List Field} (tbl : Mem) (k : Nat) :
    load (storeFields tbl (entryBase k) fs) 0 4 = load tbl 0 4 :=
  load_congr fun i hi => storeFields_below (by have := eight_le_entryBase k; omega)

theorem load_header_foldl_putString {L : List (List UInt8)} (tbl : Mem) (k : Nat) :
    load (L.foldl (putString (entryBase k + offIsaString)) tbl) 0 4 = load tbl 0 4 := by
  refine load_congr fun i hi => foldl_putString_outside fun s _ => .inl ?_
  have := eight_le_entryBase k
  omega

theorem createHart_eq {entry : Nat} (hr : readRintc madt entry = r) (hrhct : RhctAt rhct ns)
    (hk : load tbl 0 4 = k) :
    createHart madt rhct entry (entryBase k) tbl = putHart ns k r tbl := by
  subst hr
  have hbase := eight_le_entryBase k
  have hnum : load (store tbl (entryBase k + offHartId) 8 (load madt (entry + 8) 8)) 0 4 = k := by
    rw [load_store_of_disjoint (by omega), hk]
  rw [createHart, hnum, hrhct.number, visitNodes_eq hrhct.nodes hrhct.nodes]
  show store _ 0 4 (load (foldl (putString (entryBase k + offIsaString))
    (storeFields tbl (entryBase k) (hartFields k (readRintc madt entry))) _) 0 4 + 1) = _
  rw [load_header_foldl_putString, load_header_storeFields, hk]
  rfl

theorem load_header_putHart (hk : k + 1 < 2 ^ 32) : load (putHart ns k r tbl) 0 4 = k + 1 := by
  rw [putHart, load_store_self]
  exact mod_eq_of_lt hk

theorem putHart_below (h4 : 4 ≤ x) (hx : x < entryBase k) : putHart ns k r tbl x = tbl x := by
  rw [putHart, store_outside (.inr h4), foldl_putString_outside (fun s _ => .inl (by omega)),
    storeFields_below hx]

theorem putHart_above (hfit : ∀ s, IsaOf ns r.acpiProcessorUid s → s.length ≤ isaStringSize)
    (hx : entryBase k + offMmuType ≤ x) : putHart ns k r tbl x = tbl x := by
  have hstring : ∀ s ∈ isaStrings ns r.acpiProcessorUid ns,
      x < entryBase k + offIsaString ∨ entryBase k + offIsaString + s.length ≤ x := by
    intro s hs
    have hlen := hfit s (mem_isaStrings.mp hs)
    rw [isaStringSize] at hlen
    rw [offMmuType] at hx
    rw [offIsaString]
    omega
  have hnone : fieldByte (hartFields k r) (x - entryBase k) = none := by
    refine fieldByte_eq_none fun f hf hc => ?_
    have hlt := hartFields_lt k r f hf
    have hcov := hc.2
    rw [offMmuType] at hx
    rw [offIsaString] at hlt
    omega
  have happly := storeFields_apply (hartFields_disjoint k r) tbl (entryBase k) (x - entryBase k)
  rw [show entryBase k + (x - entryBase k) = x by omega, hnone, getD_none] at happly
  have hbase := eight_le_entryBase k
  rw [putHart, store_outside (by omega), foldl_putString_outside hstring, happly]

theorem load_putHart {f : Field} (hf : f ∈ hartFields k r) (hval : f.val < 256 ^ f.len) :
    load (putHart ns k r tbl) (entryBase k + f.off) f.len = f.val := by
  have hlt := hartFields_lt k r f hf
  have hbase := eight_le_entryBase k
  rw [load_eq_iff hval]
  intro i hi
  have hcov : f.covers (f.off + i) := ⟨Nat.le_add_right _ _, by omega⟩
  rw [putHart, store_outside (by omega), foldl_putString_outside (fun s _ => .inl (by omega)),
    add_assoc, storeFields_apply (hartFields_disjoint k r),
    fieldByte_of_mem (hartFields_disjoint k r) hf hcov, getD_some, Nat.add_sub_cancel_left]

theorem putHart_isa (hrhct : RhctAt rhct ns) (hs : IsaOf ns r.acpiProcessorUid s) {i : Nat}
    (hi : i < s.length) : putHart ns k r tbl (entryBase k + offIsaString + i) = s[i] := by
  rw [putHart, store_outside (by have := eight_le_entryBase k; omega)]
  refine foldl_putString_inside (mem_isaStrings.mpr hs) (fun s' hs' => ?_) hi
  exact hrhct.isa _ s' s (mem_isaStrings.mp hs') hs

end

/-! ## All harts -/

section

variable {rs : List Rintc}

def putHarts (ns : List RhctNode) : Nat → List Rintc → Mem → Mem
  | _, [], tbl => tbl
  | k, r :: rs, tbl => putHarts ns (k + 1) rs (putHart ns k r tbl)

def MadtRecord.rintc? (r : MadtRecord) : Option Rintc :=
  match r.info with
  | .rintc x => some x
  | .other _ => none

def usableHarts (rs : List MadtRecord) : List Rintc :=
  (rs.filterMap MadtRecord.rintc?).filter fun x => Usable x.flags

theorem createHarts_eq (hrhct : RhctAt rhct ns) (fuel : Nat) {a : Nat} {rs : List MadtRecord}
    (hrs : rs ≠ []) (hat : RecordsAt madt a rs (tableLength madt)) (hfuel : rs.length ≤ fuel)
    (tbl : Mem) (hk : load tbl 0 4 = k) (hcount : k + rs.length < 2 ^ 32) :
    createHarts madt rhct fuel a a (entryBase k) tbl =
      some (putHarts ns k (usableHarts rs) tbl) := by
  induction fuel generalizing k a rs tbl with
  | zero => exact absurd (length_eq_zero_iff.mp (le_zero.mp hfuel)) hrs
  | succ fuel ih =>
    cases rs with
    | nil => exact absurd rfl hrs
    | cons r rs =>
      obtain ⟨⟨hlen, hinfo⟩, hrest⟩ := hat
      have hle := le_of_recordsAt hrest
      have hlt : tableLength madt < 2 ^ 32 := load_lt madt 4 4
      rw [length_cons] at hfuel hcount
      -- the loop goes on exactly if there is a record left
      have hgo : ∀ k' tbl', load tbl' 0 4 = k' → k' ≤ k + 1 →
          (if (a + load madt (a + 1) 1) % 2 ^ 32 < tableLength madt then
            createHarts madt rhct fuel (a + load madt (a + 1) 1)
              ((a + load madt (a + 1) 1) % 2 ^ 32) (entryBase k') tbl'
          else some tbl') = some (putHarts ns k' (usableHarts rs) tbl') := by
        intro k' tbl' hk' hle'
        rw [hlen, mod_eq_of_lt (by omega)]
        cases rs with
        | nil =>
          have hend : a + r.length = tableLength madt := hrest
          rw [if_neg (by omega)]
          rfl
        | cons r' rs =>
          rw [length_cons] at hle
          rw [if_pos (by omega)]
          exact ih (cons_ne_nil r' rs) hrest (by omega) tbl' hk' (by omega)
      rw [createHarts]
      cases hr : r.info with
      | other type =>
        rw [hr] at hinfo
        have hno : ¬ (load madt a 1 = typeRintc ∧ Usable (load madt (a + 4) 4)) := by
          rw [hinfo.1]
          exact fun h => hinfo.2.1 h.1
        have hharts : usableHarts (r :: rs) = usableHarts rs := by
          simp [usableHarts, MadtRecord.rintc?, hr]
        simp only [if_neg hno, hharts]
        exact hgo k tbl hk (le_succ k)
      | rintc x =>
        rw [hr] at hinfo
        obtain ⟨htype, -, hx⟩ := hinfo
        have hflags : load madt (a + 4) 4 = x.flags := congrArg Rintc.flags hx
        by_cases hu : Usable x.flags
        · have hyes : load madt a 1 = typeRintc ∧ Usable (load madt (a + 4) 4) := by
            rw [hflags]
            exact ⟨htype, hu⟩
          have hharts : usableHarts (r :: rs) = x :: usableHarts rs := by
            simp [usableHarts, MadtRecord.rintc?, hr, hu]
          simp only [if_pos hyes, hharts, createHart_eq hx hrhct hk, ← entryBase_succ]
          exact hgo (k + 1) _ (load_header_putHart (by omega)) le_rfl
        · have hno : ¬ (load madt a 1 = typeRintc ∧ Usable (load madt (a + 4) 4)) := by
            rw [hflags]
            exact fun h => hu h.2
          have hharts : usableHarts (r :: rs) = usableHarts rs := by
            simp [usableHarts, MadtRecord.rintc?, hr, hu]
          simp only [if_neg hno, hharts]
          exact hgo k tbl hk (le_succ k)

theorem load_header_putHarts (hk : load tbl 0 4 = k) (hcount : k + rs.length < 2 ^ 32) :
    load (putHarts ns k rs tbl) 0 4 = k + rs.length := by
  induction rs generalizing k tbl with
  | nil => exact hk
  | cons r rs ih =>
    rw [length_cons] at hcount ⊢
    rw [putHarts, ih (load_header_putHart (by omega)) (by omega)]
    omega

theorem putHarts_below (h4 : 4 ≤ x) (hx : x < entryBase k) : putHarts ns k rs tbl x = tbl x := by
  induction rs generalizing k tbl with
  | nil => rfl
  | cons r rs ih =>
    have hnext : x < entryBase (k + 1) := by
      rw [entryBase, entrySize] at hx ⊢
      omega
    rw [putHarts, ih hnext, putHart_below h4 hx]

theorem putHarts_entry (tbl : Mem)
    (hfit : ∀ r ∈ rs, ∀ s, IsaOf ns r.acpiProcessorUid s → s.length ≤ isaStringSize) {i : Nat}
    {r : Rintc} (hr : rs[i]? = some r) :
    ∃ tbl', (∀ x, entryBase (k + i) ≤ x → x < entryBase (k + i + 1) →
        putHarts ns k rs tbl x = putHart ns (k + i) r tbl' x) ∧
      ∀ x, entryBase (k + i) ≤ x → tbl' x = tbl x := by
  induction rs generalizing k i tbl with
  | nil => cases hr
  | cons r' rs ih =>
    cases i with
    | zero =>
      cases hr
      refine ⟨tbl, fun x hx hlt => ?_, fun x _ => rfl⟩
      have hbase := eight_le_entryBase (k + 0)
      exact putHarts_below (by omega) hlt
    | succ i =>
      obtain ⟨tbl', hround, hbefore⟩ := ih (k := k + 1) (putHart ns k r' tbl)
        (fun r hr => hfit r (mem_cons_of_mem r' hr)) hr
      rw [show k + 1 + i = k + (i + 1) by omega] at hround hbefore
      refine ⟨tbl', hround, fun x hx => ?_⟩
      rw [hbefore x hx, putHart_above (hfit r' mem_cons_self)]
      have hstep : entryBase (k + (i + 1)) = entryBase k + 552 * (i + 1) := by
        rw [entryBase, entryBase, entrySize]
        omega
      rw [offMmuType]
      omega

end

end ServerSoc.Hart
