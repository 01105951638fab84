import NovaOs.Core.Lemmas.Vm

/-!
# What the allocator and the address spaces guarantee

The allocator hands out no page twice, and an address space answers with what was mapped last. Nothing ties the
two together, so a page stays out of a second hand only as long as no caller frees a page that is still mapped.
-/

namespace NovaOs.Core

open Lib

/-! ## The page allocator -/

/-- How an alloc answers when `H` are the pages handed out. -/
structure AllocMeets (a : NovaPageAllocator) (H : Finset Nat) (page : UInt32) : Prop where
  full_iff : (novaVmAllocPage a page).1 = .full ↔ H.card = 128
  full : (novaVmAllocPage a page).1 = .full → (novaVmAllocPage a page).2 = (a, page)
  ok : (novaVmAllocPage a page).1 ≠ .full →
    ∃ new < 128, new ∉ H ∧ (∀ other, other ∉ H → new ≤ other) ∧
      (novaVmAllocPage a page).1 = .ok ∧ (novaVmAllocPage a page).2.2.toNat = new ∧
      (novaVmAllocPage a page).2.1.held = insert new H

/-- How a free answers when `H` are the pages handed out. -/
structure FreeMeets (a : NovaPageAllocator) (H : Finset Nat) (page : UInt32) : Prop where
  notFound_iff : (novaVmFreePage a page).1 = .notFound ↔ page.toNat ∉ H
  notFound : page.toNat ∉ H → (novaVmFreePage a page).2 = a
  ok : page.toNat ∈ H → (novaVmFreePage a page).1 = .ok ∧ (novaVmFreePage a page).2.held = H.erase page.toNat

open NovaPageAllocator in
theorem allocMeets (a : NovaPageAllocator) (page) : AllocMeets a a.held page := by
  rcases novaVmAllocPage_cases a page with ⟨hcard, hr⟩ | ⟨i, hi, hlt, hr⟩
  · exact ⟨by simp [hr, hcard], fun _ => by rw [hr], by simp [hr]⟩
  · have hfresh : (i : Nat) ∉ a.held := by simp [coe_mem_held, hi]
    have hcard : a.held.card ≠ 128 := fun h => card_held_eq_iff.mp h i hi
    have hleast : ∀ other, other ∉ a.held → (i : Nat) ≤ other := by
      intro other hother
      by_contra hlt'
      have hlt'' : other < i := not_le.mp hlt'
      exact hother (coe_mem_held.mpr (hlt ⟨other, hlt''.trans i.isLt⟩ hlt''))
    refine ⟨by simp [hr, hcard], by simp [hr], fun _ => ⟨i, i.isLt, hfresh, hleast, by rw [hr], ?_, ?_⟩⟩
    · rw [hr]
      exact toNat_ofNat_page i
    · rw [hr]
      exact held_setFlag_of_ne (by decide)

open NovaPageAllocator in
theorem freeMeets (a : NovaPageAllocator) (page) : FreeMeets a a.held page := by
  rcases novaVmFreePage_cases a page with ⟨hfree, hr⟩ | ⟨i, hpage, hi, hr⟩
  · exact ⟨by simp [hr, hfree], fun _ => by rw [hr], fun h => absurd h hfree⟩
  · have hmem : page.toNat ∈ a.held := by
      rw [hpage]
      exact coe_mem_held.mpr hi
    refine ⟨by simp [hr, hmem], fun h => absurd hmem h, fun _ => ⟨by rw [hr], ?_⟩⟩
    rw [hr, hpage]
    exact held_setFlag_zero

/-- After any calls on an initialised allocator, it stands for the pages that the calls handed out and did not
take back, and every further call answers for these pages. -/
theorem pages_granted_once (memory : NovaPageAllocator) (ops : List PageOp) :
    let a := pageMachine.exec (novaVmInit memory) ops
    let h := pageMachine.trace (novaVmInit memory) ops
    a.held = outstanding h ∧ outstanding h ⊆ Finset.range 128 ∧
    (∀ page, AllocMeets a (outstanding h) page) ∧
    (∀ page, FreeMeets a (outstanding h) page) ∧
    allocs h = frees h + (outstanding h).card := by
  intro a h
  obtain ⟨hheld, hbalance⟩ : HistoryIs a h := .exec memory ops
  rw [hheld]
  refine ⟨rfl, fun page hpage => ?_, allocMeets a, freeMeets a, hbalance⟩
  exact Finset.mem_range.mpr (NovaPageAllocator.lt_of_mem_held hpage)

/-! ## Address spaces -/

/-- How a map answers when the history `h` led to the address space. -/
structure MapMeets (s : NovaAddressSpace) (h : List (MapOp × NovaResult)) (v : UInt64) (p : UInt32) (w : UInt8) :
    Prop where
  full_iff : (novaVmMap s v p w).1 = .full ↔ lastMapped h v = none ∧ (mappedPages h).card = 128
  full : (novaVmMap s v p w).1 = .full → (novaVmMap s v p w).2 = s
  ok : (novaVmMap s v p w).1 ≠ .full → (novaVmMap s v p w).1 = .ok
  others : ∀ v', v' ≠ v → ∀ p' w', novaVmTranslate (novaVmMap s v p w).2 v' p' w' = novaVmTranslate s v' p' w'

theorem SpaceIs.mapMeets {s h} (hs : SpaceIs s h) (v p w) : MapMeets s h v p w := by
  obtain ⟨hdistinct, hlookup, hpages⟩ := hs
  have hfull : lastMapped h v = none ∧ (mappedPages h).card = 128 ↔ v ∉ s.pages ∧ s.pages.card = 128 := by
    rw [← hlookup, ← hpages, NovaAddressSpace.lookup_eq_none_iff]
  rcases novaVmMap_cases hdistinct v p w with ⟨hnew, hcard, hr⟩ | ⟨hroom, s', hr, _, hlookup', _⟩
  · exact ⟨by simp [hr, hfull, hnew, hcard], fun _ => by rw [hr], by simp [hr], fun v' _ p' w' => by rw [hr]⟩
  · refine ⟨by rw [hr, hfull]; simpa using hroom, by simp [hr], fun _ => by rw [hr], fun v' hne p' w' => ?_⟩
    rw [hr, novaVmTranslate_eq, novaVmTranslate_eq, hlookup', Function.update_of_ne hne]

theorem lastMapped_eq_none_iff {h : List (MapOp × NovaResult)} {v : UInt64} :
    lastMapped h v = none ↔ ∀ op, (op, .ok) ∈ h → op.virtualPage ≠ v := by
  simp only [lastMapped, List.findSome?_eq_none_iff, List.mem_reverse, Prod.forall, ite_eq_right_iff, reduceCtorEq,
    imp_false, not_and, ne_eq]
  constructor
  · intro hall op hop hv
    exact hall op .ok hop hv rfl
  · rintro hall op r hop hv rfl
    exact hall op hop hv

/-- After any maps in an initialised address space, a page translates to what was mapped last, and a map fails
only for a new page of a full space. -/
theorem space_refines_map (memory : Vector NovaVmMapping 128) (ops : List MapOp) :
    let s := spaceMachine.exec (novaVmAddressSpaceInit memory) ops
    let h := spaceMachine.trace (novaVmAddressSpaceInit memory) ops
    (∀ v p w, novaVmTranslate s v p w = match lastMapped h v with
      | some (physicalPage, writable) => (.ok, physicalPage, writable)
      | none => (.notFound, p, w)) ∧
    (∀ v, lastMapped h v = none ↔ ∀ op, (op, .ok) ∈ h → op.virtualPage ≠ v) ∧
    (∀ v p w, MapMeets s h v p w) := by
  intro s h
  have hs : SpaceIs s h := .exec memory ops
  refine ⟨fun v p w => ?_, fun v => lastMapped_eq_none_iff, hs.mapMeets⟩
  have htranslate := novaVmTranslate_eq s v p w
  rw [hs.lookup] at htranslate
  exact htranslate

/-! ## Isolation of the address spaces -/

variable {ι : Type*}

def NovaMemory.Translates (m : NovaMemory ι) (page : UInt32) : Prop :=
  ∃ i v p w, (novaVmTranslate (m.spaces i) v p w).1 = .ok ∧ (novaVmTranslate (m.spaces i) v p w).2.1 = page

/-- The allocator hands out no page that is still mapped, and every mapped page is allocated. -/
structure Isolated (m : NovaMemory ι) : Prop where
  fresh : ∀ page, (novaVmAllocPage m.allocator page).1 = .ok →
    ¬ m.Translates (novaVmAllocPage m.allocator page).2.2
  backed : ∀ page, m.Translates page → page.toNat ∈ m.allocator.held

/-- A mapped page is allocated at that moment. -/
def MapsAllocated (m : NovaMemory ι) : MemoryOp ι → Prop
  | .map _ op => op.physicalPage.toNat ∈ m.allocator.held
  | .page _ => True

/-- The call frees a page that some address space still translates to. -/
def FreesMapped (m : NovaMemory ι) : MemoryOp ι → Prop
  | .page (.free page) => m.Translates page
  | _ => False

def novaMemoryInit (memory : NovaPageAllocator) (mappings : ι → Vector NovaVmMapping 128) : NovaMemory ι where
  allocator := novaVmInit memory
  spaces i := novaVmAddressSpaceInit (mappings i)

theorem translates_iff {m : NovaMemory ι} {page : UInt32} :
    m.Translates page ↔ ∃ i v w, (m.spaces i).lookup v = some (page, w) := by
  constructor
  · rintro ⟨i, v, p, w, hok, hpage⟩
    rw [novaVmTranslate_eq] at hok hpage
    cases hlookup : (m.spaces i).lookup v with
    | none => simp [hlookup] at hok
    | some e =>
        rw [hlookup] at hpage
        exact ⟨i, v, e.2, by rw [hlookup, ← hpage]⟩
  · rintro ⟨i, v, w, hlookup⟩
    refine ⟨i, v, 0, 0, ?_⟩
    rw [novaVmTranslate_eq, hlookup]
    exact ⟨rfl, rfl⟩

theorem exists_mapping_of_translates {m : NovaMemory ι} {page : UInt32} (h : m.Translates page) :
    ∃ (i : ι) (index : Fin 128), index < (m.spaces i).count.toNat ∧ ((m.spaces i).mapping index).physicalPage = page := by
  obtain ⟨i, v, w, hlookup⟩ := translates_iff.mp h
  rw [NovaAddressSpace.lookup, Option.map_eq_some_iff] at hlookup
  obtain ⟨index, hfind, he⟩ := hlookup
  exact ⟨i, index, (NovaAddressSpace.of_indexOf_eq_some hfind).1, congrArg Prod.fst he⟩

/-- Every mapped page is allocated, and no address space maps a page twice. -/
structure MemoryInv (m : NovaMemory ι) : Prop where
  distinct : ∀ i, (m.spaces i).Distinct
  backed : ∀ page, m.Translates page → page.toNat ∈ m.allocator.held

theorem MemoryInv.init (memory) (mappings : ι → Vector NovaVmMapping 128) :
    MemoryInv (novaMemoryInit memory mappings) where
  distinct i := .init (mappings i)
  backed page h := by
    obtain ⟨i, v, w, hlookup⟩ := translates_iff.mp h
    have hnone : (novaVmAddressSpaceInit (mappings i)).lookup v = none := by
      rw [NovaAddressSpace.lookup_eq_none_iff, NovaAddressSpace.pages_init]
      exact Finset.notMem_empty v
    exact absurd (hlookup.symm.trans hnone) (by simp)

theorem MemoryInv.isolated {m : NovaMemory ι} (h : MemoryInv m) : Isolated m := by
  refine ⟨fun page hok htranslates => ?_, h.backed⟩
  obtain ⟨new, _, hnew, _, _, hpage, _⟩ := (allocMeets m.allocator page).ok (by rw [hok]; decide)
  have hheld := h.backed _ htranslates
  rw [hpage] at hheld
  exact hnew hheld

section

variable [DecidableEq ι]

theorem MemoryInv.alloc {m : NovaMemory ι} (h : MemoryInv m) (page) :
    MemoryInv ((memoryMachine ι).next m (.page (.alloc page))) := by
  refine ⟨h.distinct, fun p hp => ?_⟩
  have hheld : p.toNat ∈ m.allocator.held := h.backed p hp
  show p.toNat ∈ (novaVmAllocPage m.allocator page).2.1.held
  rcases novaVmAllocPage_cases m.allocator page with ⟨_, hr⟩ | ⟨i, _, _, hr⟩ <;> rw [hr]
  · exact hheld
  · rw [NovaPageAllocator.held_setFlag_of_ne (by decide)]
    exact Finset.mem_insert_of_mem hheld

theorem MemoryInv.free {m : NovaMemory ι} (h : MemoryInv m) {page} (hpage : ¬ m.Translates page) :
    MemoryInv ((memoryMachine ι).next m (.page (.free page))) := by
  refine ⟨h.distinct, fun p hp => ?_⟩
  have hheld : p.toNat ∈ m.allocator.held := h.backed p hp
  show p.toNat ∈ (novaVmFreePage m.allocator page).2.held
  rcases novaVmFreePage_cases m.allocator page with ⟨_, hr⟩ | ⟨i, hi, _, hr⟩ <;> rw [hr]
  · exact hheld
  · rw [NovaPageAllocator.held_setFlag_zero, Finset.mem_erase]
    refine ⟨fun he => hpage ?_, hheld⟩
    rwa [UInt32.toNat.inj (he.trans hi.symm)] at hp

theorem MemoryInv.map {m : NovaMemory ι} (h : MemoryInv m) (i : ι) {op : MapOp}
    (hop : op.physicalPage.toNat ∈ m.allocator.held) : MemoryInv ((memoryMachine ι).next m (.map i op)) := by
  have hspace : ((memoryMachine ι).next m (.map i op)).spaces =
      Function.update m.spaces i (novaVmMap (m.spaces i) op.virtualPage op.physicalPage op.writable).2 := rfl
  rcases novaVmMap_cases (h.distinct i) op.virtualPage op.physicalPage op.writable with
    ⟨_, _, hr⟩ | ⟨_, s', hr, hdistinct, hlookup, _⟩ <;> rw [hr] at hspace
  · rw [Function.update_eq_self] at hspace
    exact ⟨by rw [hspace]; exact h.distinct, fun p hp => h.backed p (by rwa [NovaMemory.Translates, hspace] at hp)⟩
  · refine ⟨fun j => ?_, fun p hp => ?_⟩
    · rw [hspace]
      rcases eq_or_ne j i with rfl | hne
      · rwa [Function.update_self]
      · rw [Function.update_of_ne hne]
        exact h.distinct j
    · obtain ⟨j, v, w, hp⟩ := translates_iff.mp hp
      rw [hspace] at hp
      rcases eq_or_ne j i with rfl | hne
      · rw [Function.update_self, hlookup] at hp
        rcases eq_or_ne v op.virtualPage with rfl | hv
        · rw [Function.update_self, Option.some.injEq, Prod.mk.injEq] at hp
          rw [← hp.1]
          exact hop
        · rw [Function.update_of_ne hv] at hp
          exact h.backed p (translates_iff.mpr ⟨j, v, w, hp⟩)
      · rw [Function.update_of_ne hne] at hp
        exact h.backed p (translates_iff.mpr ⟨j, v, w, hp⟩)

theorem MemoryInv.next {m : NovaMemory ι} (h : MemoryInv m) {op : MemoryOp ι} (hmaps : MapsAllocated m op)
    (hfrees : ¬ FreesMapped m op) : MemoryInv ((memoryMachine ι).next m op) := by
  cases op with
  | page op =>
      cases op with
      | alloc page => exact h.alloc page
      | free page => exact h.free hfrees
  | map i op => exact h.map i hmaps

theorem not_isolated_of_freesMapped {m : NovaMemory ι} (h : MemoryInv m) {op : MemoryOp ι} (hop : FreesMapped m op) :
    ¬ Isolated ((memoryMachine ι).next m op) := by
  match op, hop with
  | .page (.free page), hop =>
      intro hisolated
      have hheld : page.toNat ∈ (novaVmFreePage m.allocator page).2.held := hisolated.backed page hop
      rw [((freeMeets m.allocator page).ok (h.backed page hop)).2] at hheld
      exact Finset.notMem_erase _ _ hheld

/-- When every mapped page is allocated at that moment, the address spaces stay isolated exactly as long as no
call frees a page that some address space still translates to. -/
theorem isolated_iff_no_mapped_page_freed (memory : NovaPageAllocator) (mappings : ι → Vector NovaVmMapping 128)
    (ops : List (MemoryOp ι)) (hmaps : (memoryMachine ι).Along MapsAllocated (novaMemoryInit memory mappings) ops) :
    (memoryMachine ι).Always Isolated (novaMemoryInit memory mappings) ops ↔
      (memoryMachine ι).Along (fun m op => ¬ FreesMapped m op) (novaMemoryInit memory mappings) ops := by
  have hbreak : ∀ m op, MemoryInv m → MapsAllocated m op → ¬ ¬ FreesMapped m op →
      ¬ Isolated ((memoryMachine ι).next m op) := fun m op h _ hop => not_isolated_of_freesMapped h (not_not.mp hop)
  exact Machine.always_iff_along_of (fun m h => h.isolated) (fun m op h => h.next) hbreak (.init memory mappings) hmaps

end

def zeroedAllocator : NovaPageAllocator := ⟨Vector.replicate 128 0⟩

def twoSpaces : Bool → Vector NovaVmMapping 128 := fun _ => Vector.replicate 128 ⟨0, 0, 0⟩

/-- Page 0 is handed out, mapped, given back while it is mapped, and handed out again. -/
def mappedPageFreed : List (MemoryOp Bool) :=
  [.page (.alloc 0), .map false ⟨4096, 0, 1⟩, .page (.free 0)]

theorem mapped_page_granted_again :
    (memoryMachine Bool).Along MapsAllocated (novaMemoryInit zeroedAllocator twoSpaces) mappedPageFreed ∧
      ¬ Isolated ((memoryMachine Bool).exec (novaMemoryInit zeroedAllocator twoSpaces) mappedPageFreed) := by
  refine ⟨?_, fun h => ?_⟩
  · simp only [mappedPageFreed, Machine.Along, MapsAllocated, true_and, and_true]
    decide +kernel
  · refine h.fresh 7 (by decide +kernel) ⟨false, 4096, 7, 7, ?_⟩
    decide +kernel

theorem isolated_two_spaces :
    (memoryMachine Bool).Always Isolated (novaMemoryInit zeroedAllocator twoSpaces)
      [.page (.alloc 0), .map true ⟨4096, 0, 1⟩, .page (.alloc 0), .page (.free 1), .page (.alloc 0),
        .map false ⟨4096, 1, 0⟩] := by
  refine (isolated_iff_no_mapped_page_freed zeroedAllocator twoSpaces _ ?_).mpr ?_
  · simp only [Machine.Along, MapsAllocated, true_and, and_true]
    decide +kernel
  · simp only [Machine.Along, FreesMapped, not_false_eq_true, true_and, and_true]
    intro h
    exact absurd (exists_mapping_of_translates h) (by decide +kernel)

end NovaOs.Core
