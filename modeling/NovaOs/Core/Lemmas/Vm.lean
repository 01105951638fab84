import NovaOs.Core.Vm
import Mathlib.Data.Fintype.Fin

/-!
# The pages handed out and the pages mapped

An allocator stands for the set of pages it has handed out. An address space stands for a finite map: the first
`count` mappings have pairwise distinct virtual pages, so the first match of a lookup is the only one.
-/

namespace NovaOs.Core

open Lib

/-! ## The flags of an allocator -/

namespace NovaPageAllocator

variable (a : NovaPageAllocator) (i j : Fin 128)

@[simp] theorem flag_setFlag (flag : UInt8) : (a.setFlag i flag).flag j = if j = i then flag else a.flag j := by
  simp only [NovaPageAllocator.flag, setFlag, Fin.getElem_fin, Vector.getElem_set, Fin.val_inj, eq_comm]

@[simp] theorem flag_init : (novaVmInit a).flag i = 0 := by
  simp [flag, novaVmInit]

variable {a i j}

theorem mem_held {page : Nat} : page ∈ a.held ↔ ∃ i : Fin 128, a.flag i ≠ 0 ∧ i = page := by
  simp [held]

theorem coe_mem_held : (i : Nat) ∈ a.held ↔ a.flag i ≠ 0 := by
  rw [mem_held]
  constructor
  · rintro ⟨j, hj, hji⟩
    rwa [← Fin.ext hji]
  · intro hi
    exact ⟨i, hi, rfl⟩

theorem lt_of_mem_held {page : Nat} (h : page ∈ a.held) : page < 128 := by
  obtain ⟨i, _, rfl⟩ := mem_held.mp h
  exact i.isLt

theorem held_init (memory : NovaPageAllocator) : (novaVmInit memory).held = ∅ := by
  simp [held]

theorem held_setFlag_of_ne {flag : UInt8} (hflag : flag ≠ 0) : (a.setFlag i flag).held = insert ↑i a.held := by
  ext page
  rw [Finset.mem_insert, mem_held, mem_held]
  constructor
  · rintro ⟨j, hj, rfl⟩
    rcases eq_or_ne j i with rfl | hne
    · exact .inl rfl
    · exact .inr ⟨j, by simpa [hne] using hj, rfl⟩
  · rintro (rfl | ⟨j, hj, rfl⟩)
    · exact ⟨i, by simpa using hflag, rfl⟩
    · refine ⟨j, ?_, rfl⟩
      rw [flag_setFlag]
      split
      · exact hflag
      · exact hj

theorem held_setFlag_zero : (a.setFlag i 0).held = a.held.erase i := by
  ext page
  rw [Finset.mem_erase, mem_held, mem_held]
  constructor
  · rintro ⟨j, hj, rfl⟩
    rcases eq_or_ne j i with rfl | hne
    · simp at hj
    · exact ⟨fun h => hne (Fin.ext h), j, by simpa [hne] using hj, rfl⟩
  · rintro ⟨hne, j, hj, rfl⟩
    have hji : j ≠ i := fun h => hne (congrArg Fin.val h)
    exact ⟨j, by simpa [hji] using hj, rfl⟩

theorem card_held_eq_iff : a.held.card = 128 ↔ ∀ i, a.flag i ≠ 0 := by
  have hcard := Finset.card_eq_iff_eq_univ (Finset.univ.filter fun i => a.flag i ≠ 0)
  rw [Fintype.card_fin] at hcard
  simp only [held, Finset.card_map, hcard, Finset.eq_univ_iff_forall, Finset.mem_filter, Finset.mem_univ, true_and]

theorem firstFree_eq_none_iff : a.firstFree = none ↔ ∀ i, a.flag i ≠ 0 := by
  unfold firstFree
  rw [Fin.find?_eq_none_iff]
  simp only [decide_eq_false_iff_not, ne_eq]

theorem firstFree_eq_some_iff : a.firstFree = some i ↔ a.flag i = 0 ∧ ∀ j < i, a.flag j ≠ 0 := by
  unfold firstFree
  rw [Fin.find?_eq_some_iff]
  simp only [decide_eq_false_iff_not, decide_eq_true_eq, ne_eq]

end NovaPageAllocator

theorem toNat_ofNat_page (i : Fin 128) : (UInt32.ofNat i).toNat = i := by
  rw [UInt32.toNat_ofNat']
  omega

theorem novaVmAllocPage_cases (a : NovaPageAllocator) (page) :
    (a.held.card = 128 ∧ novaVmAllocPage a page = (.full, a, page)) ∨
    ∃ i, a.flag i = 0 ∧ (∀ j < i, a.flag j ≠ 0) ∧
      novaVmAllocPage a page = (.ok, a.setFlag i 1, UInt32.ofNat i) := by
  cases hfree : a.firstFree with
  | none =>
      refine .inl ⟨NovaPageAllocator.card_held_eq_iff.mpr (NovaPageAllocator.firstFree_eq_none_iff.mp hfree), ?_⟩
      simp only [novaVmAllocPage, hfree]
  | some i =>
      obtain ⟨hi, hlt⟩ := NovaPageAllocator.firstFree_eq_some_iff.mp hfree
      exact .inr ⟨i, hi, hlt, by simp only [novaVmAllocPage, hfree]⟩

theorem novaVmFreePage_cases (a : NovaPageAllocator) (page) :
    (page.toNat ∉ a.held ∧ novaVmFreePage a page = (.notFound, a)) ∨
    ∃ i : Fin 128, page.toNat = i ∧ a.flag i ≠ 0 ∧ novaVmFreePage a page = (.ok, a.setFlag i 0) := by
  by_cases hge : page.toNat ≥ 128
  · refine .inl ⟨fun h => absurd (NovaPageAllocator.lt_of_mem_held h) (not_lt.mpr hge), ?_⟩
    simp only [novaVmFreePage, hge, ↓reduceDIte]
  · by_cases hflag : a.flag ⟨page.toNat, not_le.mp hge⟩ = 0
    · refine .inl ⟨?_, by simp only [novaVmFreePage, hge, hflag, ↓reduceDIte, ↓reduceIte]⟩
      rintro hmem
      exact NovaPageAllocator.coe_mem_held.mp hmem hflag
    · refine .inr ⟨⟨page.toNat, not_le.mp hge⟩, rfl, hflag, ?_⟩
      simp only [novaVmFreePage, hge, hflag, ↓reduceDIte, ↓reduceIte]

@[simp] theorem pageMachine_next_alloc (a : NovaPageAllocator) (page) :
    pageMachine.next a (.alloc page) = (novaVmAllocPage a page).2.1 := rfl

@[simp] theorem pageMachine_out_alloc (a : NovaPageAllocator) (page) :
    pageMachine.out a (.alloc page) = ((novaVmAllocPage a page).1, some (novaVmAllocPage a page).2.2) := rfl

@[simp] theorem pageMachine_next_free (a : NovaPageAllocator) (page) :
    pageMachine.next a (.free page) = (novaVmFreePage a page).2 := rfl

@[simp] theorem pageMachine_out_free (a : NovaPageAllocator) (page) :
    pageMachine.out a (.free page) = ((novaVmFreePage a page).1, none) := rfl

/-! ## The history of an allocator -/

/-- The allocator holds what the history handed out and did not free. -/
structure HistoryIs (a : NovaPageAllocator) (h : List (PageOp × NovaResult × Option UInt32)) : Prop where
  outstanding : outstanding h = a.held
  balance : allocs h = frees h + a.held.card

theorem HistoryIs.init (memory : NovaPageAllocator) : HistoryIs (novaVmInit memory) [] := by
  refine ⟨?_, ?_⟩ <;> rw [NovaPageAllocator.held_init] <;> rfl

theorem HistoryIs.next {a : NovaPageAllocator} {h} (hh : HistoryIs a h) (op : PageOp) :
    HistoryIs (pageMachine.next a op) (h ++ [(op, pageMachine.out a op)]) := by
  obtain ⟨hout, hbalance⟩ := hh
  rw [Core.outstanding] at hout
  cases op with
  | alloc page =>
      rw [pageMachine_next_alloc, pageMachine_out_alloc]
      rcases novaVmAllocPage_cases a page with ⟨_, hr⟩ | ⟨i, hi, _, hr⟩ <;> rw [hr]
      · exact ⟨by simp [Core.outstanding, hout, grant], by simpa [allocs, frees] using hbalance⟩
      · have hfresh : (i : Nat) ∉ a.held := by simp [NovaPageAllocator.coe_mem_held, hi]
        have hheld : (a.setFlag i 1).held = insert ↑i a.held := NovaPageAllocator.held_setFlag_of_ne (by decide)
        refine ⟨?_, ?_⟩
        · simp only [Core.outstanding, List.foldl_append, List.foldl_cons, List.foldl_nil, hout, grant,
            toNat_ofNat_page, hheld]
        · rw [hheld, Finset.card_insert_of_notMem hfresh]
          simp only [allocs, frees, List.countP_append, List.countP_singleton] at hbalance ⊢
          simp only [↓reduceIte, Bool.false_eq_true]
          omega
  | free page =>
      rw [pageMachine_next_free, pageMachine_out_free]
      rcases novaVmFreePage_cases a page with ⟨_, hr⟩ | ⟨i, hpage, hi, hr⟩ <;> rw [hr]
      · exact ⟨by simp [Core.outstanding, hout, grant], by simpa [allocs, frees] using hbalance⟩
      · have hmem : (i : Nat) ∈ a.held := NovaPageAllocator.coe_mem_held.mpr hi
        have hheld : (a.setFlag i 0).held = a.held.erase i := NovaPageAllocator.held_setFlag_zero
        have hpos := Finset.card_pos.mpr ⟨_, hmem⟩
        refine ⟨?_, ?_⟩
        · simp only [Core.outstanding, List.foldl_append, List.foldl_cons, List.foldl_nil, hout, grant, hpage, hheld]
        · rw [hheld, Finset.card_erase_of_mem hmem]
          simp only [allocs, frees, List.countP_append, List.countP_singleton] at hbalance ⊢
          simp only [↓reduceIte, Bool.false_eq_true]
          omega

theorem HistoryIs.exec (memory : NovaPageAllocator) (ops : List PageOp) :
    HistoryIs (pageMachine.exec (novaVmInit memory) ops) (pageMachine.trace (novaVmInit memory) ops) :=
  Machine.history_invariant (fun _ _ op h => h.next op) (.init memory) ops

/-! ## The mappings of an address space -/

namespace NovaAddressSpace

variable (s : NovaAddressSpace) (i j : Fin 128)

@[simp] theorem mapping_remap (physicalPage writable) :
    (s.remap i physicalPage writable).mapping j =
      if j = i then ⟨(s.mapping i).virtualPage, physicalPage, writable⟩ else s.mapping j := by
  simp only [mapping, remap, Fin.getElem_fin, Vector.getElem_set, Fin.val_inj, eq_comm]

@[simp] theorem mapping_append (h : s.count ≠ 128) (m) :
    (s.append h m).mapping j = if j = s.count.toNat then m else s.mapping j := by
  simp only [mapping, append, Fin.getElem_fin, Vector.getElem_set, eq_comm]

theorem count_append (h : s.count ≠ 128) (m) : (s.append h m).count.toNat = s.count.toNat + 1 := by
  have hlt := s.count_lt h
  show (s.count + 1).toNat = _
  rw [UInt64.toNat_add, UInt64.toNat_one]
  omega

def lookup (virtualPage : UInt64) : Option (UInt32 × UInt8) :=
  (s.indexOf virtualPage).map fun i => ((s.mapping i).physicalPage, (s.mapping i).writable)

def pages : Finset UInt64 := (Finset.univ.filter fun i : Fin 128 => i < s.count.toNat).image fun i => (s.mapping i).virtualPage

/-- The first `count` mappings have pairwise distinct virtual pages. -/
def Distinct : Prop :=
  ∀ i j : Fin 128, i < s.count.toNat → j < s.count.toNat →
    (s.mapping i).virtualPage = (s.mapping j).virtualPage → i = j

variable {s i j} {v : UInt64}

theorem indexOf_eq_none_iff :
    s.indexOf v = none ↔ ∀ i : Fin 128, i < s.count.toNat → (s.mapping i).virtualPage ≠ v := by
  unfold indexOf
  rw [Fin.find?_eq_none_iff]
  simp only [decide_eq_false_iff_not, not_and, ne_eq]

theorem of_indexOf_eq_some (h : s.indexOf v = some i) : i < s.count.toNat ∧ (s.mapping i).virtualPage = v := by
  unfold indexOf at h
  rw [Fin.find?_eq_some_iff] at h
  simpa only [decide_eq_true_eq] using h.1

/-- The first match is the only match. -/
theorem Distinct.indexOf_eq_some_iff (hs : s.Distinct) :
    s.indexOf v = some i ↔ i < s.count.toNat ∧ (s.mapping i).virtualPage = v := by
  constructor
  · exact of_indexOf_eq_some
  · rintro ⟨hi, hpage⟩
    cases hfind : s.indexOf v with
    | none => exact absurd hpage (indexOf_eq_none_iff.mp hfind i hi)
    | some j =>
        obtain ⟨hj, hpage'⟩ := of_indexOf_eq_some hfind
        rw [hs i j hi hj (hpage.trans hpage'.symm)]

theorem Distinct.lookup_eq_some_iff (hs : s.Distinct) {e : UInt32 × UInt8} :
    s.lookup v = some e ↔ ∃ i : Fin 128, i < s.count.toNat ∧ s.mapping i = ⟨v, e.1, e.2⟩ := by
  rw [lookup, Option.map_eq_some_iff]
  constructor
  · rintro ⟨i, hfind, rfl⟩
    obtain ⟨hi, rfl⟩ := of_indexOf_eq_some hfind
    exact ⟨i, hi, rfl⟩
  · rintro ⟨i, hi, hm⟩
    exact ⟨i, hs.indexOf_eq_some_iff.mpr ⟨hi, by rw [hm]⟩, by rw [hm]⟩

theorem mem_pages : v ∈ s.pages ↔ ∃ i : Fin 128, i < s.count.toNat ∧ (s.mapping i).virtualPage = v := by
  simp [pages]

theorem lookup_eq_none_iff : s.lookup v = none ↔ v ∉ s.pages := by
  rw [lookup, Option.map_eq_none_iff, indexOf_eq_none_iff, mem_pages]
  simp

theorem Distinct.card_pages (hs : s.Distinct) : s.pages.card = s.count.toNat := by
  rw [pages, Finset.card_image_of_injOn]
  · have hcount := s.count_le
    rw [Fin.card_filter_val_lt, min_eq_right hcount]
  · intro i hi j hj hij
    exact hs i j (by simpa using hi) (by simpa using hj) hij

theorem Distinct.init (memory) : (novaVmAddressSpaceInit memory).Distinct := by
  intro i j hi
  simp [novaVmAddressSpaceInit] at hi

theorem pages_init (memory) : (novaVmAddressSpaceInit memory).pages = ∅ := by
  simp [pages, novaVmAddressSpaceInit]

/-! ### A page mapped again -/

theorem virtualPage_remap (physicalPage writable) :
    ((s.remap i physicalPage writable).mapping j).virtualPage = (s.mapping j).virtualPage := by
  rw [mapping_remap]
  split
  · next h => rw [h]
  · rfl

theorem Distinct.remap (hs : s.Distinct) (physicalPage writable) : (s.remap i physicalPage writable).Distinct := by
  intro j k hj hk hjk
  rw [virtualPage_remap, virtualPage_remap] at hjk
  exact hs j k hj hk hjk

theorem pages_remap (physicalPage writable) : (s.remap i physicalPage writable).pages = s.pages := by
  ext w
  simp only [mem_pages, virtualPage_remap]
  rfl

theorem indexOf_remap (physicalPage writable) : (s.remap i physicalPage writable).indexOf v = s.indexOf v := by
  unfold indexOf
  simp only [virtualPage_remap]
  rfl

theorem lookup_remap (hi : s.indexOf v = some i) (physicalPage writable) :
    (s.remap i physicalPage writable).lookup = Function.update s.lookup v (some (physicalPage, writable)) := by
  obtain ⟨hlt, hpage⟩ := of_indexOf_eq_some hi
  funext w
  rcases eq_or_ne w v with rfl | hne
  · rw [Function.update_self, lookup, indexOf_remap, hi]
    simp
  · rw [Function.update_of_ne hne, lookup, lookup, indexOf_remap]
    cases hfind : s.indexOf w with
    | none => rfl
    | some j =>
        have hji : j ≠ i := by
          rintro rfl
          exact hne ((of_indexOf_eq_some hfind).2.symm.trans hpage)
        simp [hji]

/-! ### A new page -/

section

variable (h : s.count ≠ 128) {m : NovaVmMapping}

theorem lt_count_append : i < (s.append h m).count.toNat ↔ i < s.count.toNat ∨ (i : Nat) = s.count.toNat := by
  rw [count_append]
  exact Nat.lt_succ_iff_lt_or_eq

theorem mapping_append_of_lt (hi : i < s.count.toNat) : (s.append h m).mapping i = s.mapping i := by
  rw [mapping_append, if_neg hi.ne]

theorem mapping_append_of_eq (hi : (i : Nat) = s.count.toNat) : (s.append h m).mapping i = m := by
  rw [mapping_append, if_pos hi]

theorem Distinct.append (hs : s.Distinct) (hnew : m.virtualPage ∉ s.pages) : (s.append h m).Distinct := by
  have hfresh : ∀ i : Fin 128, i < s.count.toNat → (s.mapping i).virtualPage ≠ m.virtualPage :=
    fun i hi hpage => hnew (mem_pages.mpr ⟨i, hi, hpage⟩)
  intro i j hi hj hij
  rcases (lt_count_append h).mp hi with hi | hi <;> rcases (lt_count_append h).mp hj with hj | hj
  · rw [mapping_append_of_lt h hi, mapping_append_of_lt h hj] at hij
    exact hs i j hi hj hij
  · rw [mapping_append_of_lt h hi, mapping_append_of_eq h hj] at hij
    exact absurd hij (hfresh i hi)
  · rw [mapping_append_of_eq h hi, mapping_append_of_lt h hj] at hij
    exact absurd hij.symm (hfresh j hj)
  · exact Fin.ext (hi.trans hj.symm)

theorem exists_mapping_append {P : NovaVmMapping → Prop} :
    (∃ i : Fin 128, i < (s.append h m).count.toNat ∧ P ((s.append h m).mapping i)) ↔
      P m ∨ ∃ i : Fin 128, i < s.count.toNat ∧ P (s.mapping i) := by
  constructor
  · rintro ⟨i, hi, hP⟩
    rcases (lt_count_append h).mp hi with hi | hi
    · rw [mapping_append_of_lt h hi] at hP
      exact .inr ⟨i, hi, hP⟩
    · rw [mapping_append_of_eq h hi] at hP
      exact .inl hP
  · rintro (hP | ⟨i, hi, hP⟩)
    · have hlast : (⟨s.count.toNat, s.count_lt h⟩ : Fin 128) < (s.append h m).count.toNat :=
        (lt_count_append h).mpr (.inr rfl)
      exact ⟨_, hlast, by rwa [mapping_append_of_eq h rfl]⟩
    · exact ⟨i, (lt_count_append h).mpr (.inl hi), by rwa [mapping_append_of_lt h hi]⟩

theorem pages_append : (s.append h m).pages = insert m.virtualPage s.pages := by
  ext v
  rw [mem_pages, Finset.mem_insert, mem_pages, exists_mapping_append h (P := fun m => m.virtualPage = v), eq_comm]

theorem Distinct.lookup_append (hs : s.Distinct) (hnew : m.virtualPage ∉ s.pages) :
    (s.append h m).lookup = Function.update s.lookup m.virtualPage (some (m.physicalPage, m.writable)) := by
  have hs' := hs.append h hnew
  funext v
  refine Option.ext fun e => ?_
  rw [hs'.lookup_eq_some_iff, exists_mapping_append h (P := fun m => m = ⟨v, e.1, e.2⟩), ← hs.lookup_eq_some_iff]
  rcases eq_or_ne v m.virtualPage with rfl | hne
  · rw [Function.update_self, lookup_eq_none_iff.mpr hnew]
    simp [NovaVmMapping.ext_iff, Prod.ext_iff]
  · rw [Function.update_of_ne hne]
    simp [NovaVmMapping.ext_iff, hne.symm]

end

end NovaAddressSpace

/-! ## What one call can do -/

open NovaAddressSpace in
theorem novaVmMap_cases {s : NovaAddressSpace} (hs : s.Distinct) (v p w) :
    (v ∉ s.pages ∧ s.pages.card = 128 ∧ novaVmMap s v p w = (.full, s)) ∨
    (¬ (v ∉ s.pages ∧ s.pages.card = 128) ∧ ∃ s', novaVmMap s v p w = (.ok, s') ∧ s'.Distinct ∧
      s'.lookup = Function.update s.lookup v (some (p, w)) ∧ s'.pages = insert v s.pages) := by
  cases hfind : s.indexOf v with
  | some i =>
      have hmem : v ∈ s.pages := mem_pages.mpr ⟨i, of_indexOf_eq_some hfind⟩
      refine .inr ⟨fun h => h.1 hmem, s.remap i p w, by simp only [novaVmMap, hfind], hs.remap p w, ?_⟩
      exact ⟨lookup_remap hfind p w, by rw [pages_remap, Finset.insert_eq_of_mem hmem]⟩
  | none =>
      have hnew : v ∉ s.pages := by
        rw [← lookup_eq_none_iff, lookup, hfind]
        rfl
      by_cases hcount : s.count = 128
      · have hcard : s.pages.card = 128 := by
          rw [hs.card_pages, hcount]
          rfl
        exact .inl ⟨hnew, hcard, by simp only [novaVmMap, hfind, hcount, ↓reduceDIte]⟩
      · have hcard : s.pages.card ≠ 128 := by
          rw [hs.card_pages]
          exact (s.count_lt hcount).ne
        refine .inr ⟨fun h => hcard h.2, s.append hcount ⟨v, p, w⟩, ?_, hs.append hcount hnew, ?_⟩
        · simp only [novaVmMap, hfind, hcount, ↓reduceDIte]
        · exact ⟨hs.lookup_append hcount hnew, pages_append hcount⟩

theorem novaVmTranslate_eq (s : NovaAddressSpace) (v p w) :
    novaVmTranslate s v p w = match s.lookup v with
      | some (physicalPage, writable) => (.ok, physicalPage, writable)
      | none => (.notFound, p, w) := by
  unfold novaVmTranslate NovaAddressSpace.lookup
  cases s.indexOf v <;> rfl

@[simp] theorem spaceMachine_next (s : NovaAddressSpace) (op : MapOp) :
    spaceMachine.next s op = (novaVmMap s op.virtualPage op.physicalPage op.writable).2 := rfl

@[simp] theorem spaceMachine_out (s : NovaAddressSpace) (op : MapOp) :
    spaceMachine.out s op = (novaVmMap s op.virtualPage op.physicalPage op.writable).1 := rfl

/-! ## The history of an address space -/

structure SpaceIs (s : NovaAddressSpace) (h : List (MapOp × NovaResult)) : Prop where
  distinct : s.Distinct
  lookup : s.lookup = lastMapped h
  pages : s.pages = mappedPages h

theorem lastMapped_append (h : List (MapOp × NovaResult)) (op : MapOp) (r) :
    lastMapped (h ++ [(op, r)]) =
      if r = .ok then Function.update (lastMapped h) op.virtualPage (some (op.physicalPage, op.writable))
      else lastMapped h := by
  funext v
  by_cases hr : r = .ok
  · rcases eq_or_ne v op.virtualPage with rfl | hne
    · simp [lastMapped, hr]
    · simp [lastMapped, hr, hne, hne.symm]
  · simp [lastMapped, hr]

theorem mappedPages_append (h : List (MapOp × NovaResult)) (op : MapOp) (r) :
    mappedPages (h ++ [(op, r)]) = if r = .ok then insert op.virtualPage (mappedPages h) else mappedPages h := by
  by_cases hr : r = .ok
  · ext v
    simp [mappedPages, hr]
  · simp [mappedPages, hr]

theorem SpaceIs.init (memory) : SpaceIs (novaVmAddressSpaceInit memory) [] where
  distinct := .init memory
  lookup := by
    funext v
    rw [NovaAddressSpace.lookup_eq_none_iff.mpr (by simp [NovaAddressSpace.pages_init])]
    rfl
  pages := NovaAddressSpace.pages_init memory

theorem SpaceIs.next {s : NovaAddressSpace} {h} (hs : SpaceIs s h) (op : MapOp) :
    SpaceIs (spaceMachine.next s op) (h ++ [(op, spaceMachine.out s op)]) := by
  obtain ⟨hdistinct, hlookup, hpages⟩ := hs
  rw [spaceMachine_next, spaceMachine_out]
  rcases novaVmMap_cases hdistinct op.virtualPage op.physicalPage op.writable with
    ⟨_, _, hr⟩ | ⟨_, s', hr, hdistinct', hlookup', hpages'⟩ <;> rw [hr]
  · exact ⟨hdistinct, by simpa [lastMapped_append] using hlookup, by simpa [mappedPages_append] using hpages⟩
  · refine ⟨hdistinct', ?_, ?_⟩
    · rw [lastMapped_append, if_pos rfl, hlookup', hlookup]
    · rw [mappedPages_append, if_pos rfl, hpages', hpages]

theorem SpaceIs.exec (memory) (ops : List MapOp) :
    SpaceIs (spaceMachine.exec (novaVmAddressSpaceInit memory) ops)
      (spaceMachine.trace (novaVmAddressSpaceInit memory) ops) :=
  Machine.history_invariant (fun _ _ op h => h.next op) (.init memory) ops

end NovaOs.Core
