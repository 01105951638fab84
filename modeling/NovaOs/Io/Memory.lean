import NovaOs.Io.Basic

/-!
# The memory of the devices (`kernel/io/io_stack.c`)

`nova_io_shutdown` frees the devices in the registry. A device object of the pool is allocated or it is not, and a call
that looks at, writes to or frees one that is not has no result.
-/

namespace NovaOs.Io

open Lib

variable {pool : Nat}

/-- The I/O stack and the device objects that are allocated. -/
structure IoMemory (pool : Nat) where
  io : IoStack pool
  live : Finset (DevPtr pool)

/-- The devices that a walk over the registry to the first device with `p` looks at. -/
def IoStack.walked (io : IoStack pool) (p : DevPtr pool → Bool) : List (DevPtr pool) :=
  visited io.next p (Fintype.card (DevPtr pool)) io.registry

/-- The devices that a call looks at or writes to. -/
def IoStack.touched (io : IoStack pool) : IoOp pool → List (DevPtr pool)
  | .init => []
  | .register none => []
  | .register (some dev) => if (io.name dev).bytes = [] then [dev] else dev :: io.registry.toList
  | .unregister none => []
  | .unregister (some dev) =>
      let walked := io.walked fun curr => curr = dev
      walked ++ if dev ∈ walked then (io.next dev).toList else []
  | .find none => []
  | .find (some path) => io.walked fun curr => (io.devices curr).path = path
  | .getByMajorMinor major minor =>
      io.walked fun curr => (io.devices curr).major = major ∧ (io.devices curr).minor = minor

def novaIoShutdown (m : IoMemory pool) : Option (Int × IoMemory pool) :=
  if m.io.initialized then
    (lockRegistry m.io).bind fun io =>
      (freeChain io.next (Fintype.card (DevPtr pool)) io.registry m.live).map fun live =>
        (0, ⟨{ unlockRegistry { io with registry := none } with initialized := false }, live⟩)
  else some (0, m)

/-! ## Runs -/

/-- With `alloc` and `free` the owner of a device gets its object, sets it up, and gives it back. -/
inductive MemoryOp (pool : Nat) where
  | alloc (dev : DevPtr pool) (device : NovaDevice pool)
  | free (dev : DevPtr pool)
  | call (op : IoOp pool)
  | shutdown

def memoryStep (m : IoMemory pool) : MemoryOp pool → Option (Option (IoAnswer pool) × IoMemory pool)
  | .alloc dev device => some (none, ⟨m.io.setDevice dev device, insert dev m.live⟩)
  | .free dev => if dev ∈ m.live then some (none, { m with live := m.live.erase dev }) else none
  | .call op =>
      if ∀ dev ∈ m.io.touched op, dev ∈ m.live then
        (ioStep m.io op).map fun r => (some r.1, { m with io := r.2 })
      else none
  | .shutdown => (novaIoShutdown m).map fun r => (some (.int r.1), r.2)

def memoryMachine (pool : Nat) : Machine (Option (IoMemory pool)) (MemoryOp pool) (Option (Option (IoAnswer pool))) :=
  .ofPartial memoryStep

/-- The program as it starts, with no device allocated. -/
def memoryStart (devices : DevPtr pool → NovaDevice pool) : IoMemory pool := ⟨programStart devices, ∅⟩

end NovaOs.Io
