import NovaOs.Core.Basic
import Mathlib.Data.Finset.Card
import Mathlib.Data.Fintype.Card
import Mathlib.Data.Fin.Basic

/-!
# Pages and address spaces (`kernel/core/vm.c`)

`NOVA_VM_MAX_PAGES` and `NOVA_MAX_MAPPINGS` are 128. The allocator and the address spaces know nothing of each
other: a page number passes between them only through their callers.
-/

namespace NovaOs.Core

open Lib

/-! ## The page allocator -/

structure NovaPageAllocator where
  allocated : Vector UInt8 128
  deriving DecidableEq

def NovaPageAllocator.flag (allocator : NovaPageAllocator) (index : Fin 128) : UInt8 := allocator.allocated[index]

def NovaPageAllocator.setFlag (allocator : NovaPageAllocator) (index : Fin 128) (flag : UInt8) : NovaPageAllocator :=
  { allocator with allocated := allocator.allocated.set index flag }

def novaVmInit (allocator : NovaPageAllocator) : NovaPageAllocator :=
  { allocator with allocated := Vector.replicate 128 0 }

/-- The page that the loop of `nova_vm_alloc_page` stops at. -/
@[irreducible] def NovaPageAllocator.firstFree (allocator : NovaPageAllocator) : Option (Fin 128) :=
  Fin.find? fun index => allocator.flag index = 0

def novaVmAllocPage (allocator : NovaPageAllocator) (physicalPage : UInt32) :
    NovaResult × NovaPageAllocator × UInt32 :=
  match allocator.firstFree with
  | none => (.full, allocator, physicalPage)
  | some index => (.ok, allocator.setFlag index 1, UInt32.ofNat index)

def novaVmFreePage (allocator : NovaPageAllocator) (physicalPage : UInt32) : NovaResult × NovaPageAllocator :=
  if h : physicalPage.toNat ≥ 128 then (.notFound, allocator)
  else
    let index : Fin 128 := ⟨physicalPage.toNat, not_le.mp h⟩
    if allocator.flag index = 0 then (.notFound, allocator) else (.ok, allocator.setFlag index 0)

def NovaPageAllocator.held (allocator : NovaPageAllocator) : Finset Nat :=
  (Finset.univ.filter fun index => allocator.flag index ≠ 0).map Fin.valEmbedding

inductive PageOp where
  | alloc (physicalPage : UInt32)
  | free (physicalPage : UInt32)
  deriving DecidableEq, Repr

/-- The calls on an allocator. An alloc also answers what the caller's `physical_page` holds after it. -/
def pageMachine : Machine NovaPageAllocator PageOp (NovaResult × Option UInt32) where
  step
    | a, .alloc physicalPage =>
        let r := novaVmAllocPage a physicalPage
        ((r.1, some r.2.2), r.2.1)
    | a, .free physicalPage =>
        let r := novaVmFreePage a physicalPage
        ((r.1, none), r.2)

/-! ## Address spaces -/

@[ext]
structure NovaVmMapping where
  virtualPage : UInt64
  physicalPage : UInt32
  writable : UInt8
  deriving DecidableEq, Repr

structure NovaAddressSpace where
  mappings : Vector NovaVmMapping 128
  count : UInt64
  count_le : count.toNat ≤ 128
  deriving DecidableEq

def NovaAddressSpace.mapping (space : NovaAddressSpace) (index : Fin 128) : NovaVmMapping := space.mappings[index]

/-- The mappings keep what the memory held. -/
def novaVmAddressSpaceInit (mappings : Vector NovaVmMapping 128) : NovaAddressSpace where
  mappings := mappings
  count := 0
  count_le := by decide

/-- The index that the loop over the first `count` mappings stops at. -/
@[irreducible] def NovaAddressSpace.indexOf (space : NovaAddressSpace) (virtualPage : UInt64) : Option (Fin 128) :=
  Fin.find? fun index => index.val < space.count.toNat ∧ (space.mapping index).virtualPage = virtualPage

def NovaAddressSpace.remap (space : NovaAddressSpace) (index : Fin 128) (physicalPage : UInt32) (writable : UInt8) :
    NovaAddressSpace :=
  { space with
    mappings := space.mappings.set index
      { space.mapping index with physicalPage := physicalPage, writable := writable } }

theorem NovaAddressSpace.count_lt (space : NovaAddressSpace) (h : space.count ≠ 128) : space.count.toNat < 128 := by
  have hne : space.count.toNat ≠ 128 := fun he => h (UInt64.toNat.inj he)
  have hle := space.count_le
  omega

def NovaAddressSpace.append (space : NovaAddressSpace) (h : space.count ≠ 128) (mapping : NovaVmMapping) :
    NovaAddressSpace where
  mappings := space.mappings.set space.count.toNat mapping (space.count_lt h)
  count := space.count + 1
  count_le := by
    have hlt := space.count_lt h
    rw [UInt64.toNat_add, UInt64.toNat_one]
    omega

def novaVmMap (space : NovaAddressSpace) (virtualPage : UInt64) (physicalPage : UInt32) (writable : UInt8) :
    NovaResult × NovaAddressSpace :=
  match space.indexOf virtualPage with
  | some index => (.ok, space.remap index physicalPage writable)
  | none =>
      if h : space.count = 128 then (.full, space)
      else (.ok, space.append h ⟨virtualPage, physicalPage, writable⟩)

def novaVmTranslate (space : NovaAddressSpace) (virtualPage : UInt64) (physicalPage : UInt32) (writable : UInt8) :
    NovaResult × UInt32 × UInt8 :=
  match space.indexOf virtualPage with
  | some index => (.ok, (space.mapping index).physicalPage, (space.mapping index).writable)
  | none => (.notFound, physicalPage, writable)

structure MapOp where
  virtualPage : UInt64
  physicalPage : UInt32
  writable : UInt8
  deriving DecidableEq, Repr

def spaceMachine : Machine NovaAddressSpace MapOp NovaResult where
  step s op := novaVmMap s op.virtualPage op.physicalPage op.writable

/-! ## One allocator and many address spaces -/

/-- An allocator and the address spaces that its callers fill with its pages. -/
structure NovaMemory (ι : Type*) where
  allocator : NovaPageAllocator
  spaces : ι → NovaAddressSpace

inductive MemoryOp (ι : Type*) where
  | page (op : PageOp)
  | map (space : ι) (op : MapOp)
  deriving DecidableEq, Repr

def memoryMachine (ι : Type*) [DecidableEq ι] : Machine (NovaMemory ι) (MemoryOp ι) (NovaResult × Option UInt32) where
  step
    | m, .page op =>
        let r := pageMachine.step m.allocator op
        (r.1, { m with allocator := r.2 })
    | m, .map space op =>
        let r := spaceMachine.step (m.spaces space) op
        ((r.1, none), { m with spaces := Function.update m.spaces space r.2 })

/-! ## What a history says -/

/-- The pages handed out and not yet freed after one more call. -/
def grant (outstanding : Finset Nat) : PageOp × NovaResult × Option UInt32 → Finset Nat
  | (.alloc _, .ok, some page) => insert page.toNat outstanding
  | (.free page, .ok, _) => outstanding.erase page.toNat
  | _ => outstanding

/-- The pages that a history handed out and did not free. -/
def outstanding (h : List (PageOp × NovaResult × Option UInt32)) : Finset Nat := h.foldl grant ∅

def allocs (h : List (PageOp × NovaResult × Option UInt32)) : Nat :=
  h.countP fun
    | (.alloc _, .ok, _) => true
    | _ => false

def frees (h : List (PageOp × NovaResult × Option UInt32)) : Nat :=
  h.countP fun
    | (.free _, .ok, _) => true
    | _ => false

/-- The physical page and the writable flag of the last successful map of a virtual page. -/
def lastMapped (h : List (MapOp × NovaResult)) (virtualPage : UInt64) : Option (UInt32 × UInt8) :=
  h.reverse.findSome? fun (op, result) =>
    if op.virtualPage = virtualPage ∧ result = .ok then some (op.physicalPage, op.writable) else none

def mappedPages (h : List (MapOp × NovaResult)) : Finset UInt64 :=
  ((h.filter fun call => call.2 = .ok).map fun call => call.1.virtualPage).toFinset

end NovaOs.Core
