import NovaOs.Lib.Chain
import NovaOs.Lib.CString
import NovaOs.Lib.Machine

/-!
# The registry of devices (`kernel/io/io_stack.h`, `kernel/io/io_stack.c`)

A definition has the name of the C function, type or constant it models, in camel case. The device objects are a pool
and a pointer to a device is an index into it; a null pointer is `none`. A call that does not end has no result.
`struct nova_device` is given the `prev` pointer that the code uses.
-/

namespace NovaOs.Io

open Lib

abbrev DevPtr (pool : Nat) := Fin pool

/-- A pointer to the `struct nova_block_ops` of a driver. -/
abbrev OpsPtr := Nat

inductive NovaDeviceType where
  | block
  | char
  | network
  | framebuffer
  | input
  | audio
  deriving DecidableEq, Repr

structure NovaDevice (pool : Nat) where
  name : CString
  path : CString
  type : NovaDeviceType
  major : UInt32
  minor : UInt32
  blockOps : Option OpsPtr
  next : Option (DevPtr pool)
  prev : Option (DevPtr pool)
  deriving DecidableEq

/-- The device objects and the static variables `g_device_registry`, `g_next_major`, `g_io_initialized` and
`g_registry_lock`. -/
structure IoStack (pool : Nat) where
  devices : DevPtr pool → NovaDevice pool
  registry : Option (DevPtr pool)
  nextMajor : UInt32
  initialized : Bool
  registryLock : Bool

variable {pool : Nat}

namespace IoStack

variable (io : IoStack pool)

def setDevice (dev : DevPtr pool) (device : NovaDevice pool) : IoStack pool :=
  { io with devices := Function.update io.devices dev device }

def setNext (dev : DevPtr pool) (next : Option (DevPtr pool)) : IoStack pool :=
  io.setDevice dev { io.devices dev with next := next }

def setPrev (dev : DevPtr pool) (prev : Option (DevPtr pool)) : IoStack pool :=
  io.setDevice dev { io.devices dev with prev := prev }

def setMajor (dev : DevPtr pool) (major : UInt32) : IoStack pool :=
  io.setDevice dev { io.devices dev with major := major }

def next (dev : DevPtr pool) : Option (DevPtr pool) := (io.devices dev).next

def prev (dev : DevPtr pool) : Option (DevPtr pool) := (io.devices dev).prev

def name (dev : DevPtr pool) : CString := (io.devices dev).name

def path (dev : DevPtr pool) : CString := (io.devices dev).path

end IoStack

/-- The state when the program starts. -/
def programStart (devices : DevPtr pool → NovaDevice pool) : IoStack pool where
  devices := devices
  registry := none
  nextMajor := 1
  initialized := false
  registryLock := false

/-! ## The lock -/

/-- A lock that is held is waited for without end: nobody else runs. -/
def lockRegistry (io : IoStack pool) : Option (IoStack pool) :=
  if io.registryLock then none else some { io with registryLock := true }

def unlockRegistry (io : IoStack pool) : IoStack pool := { io with registryLock := false }

/-! ## The calls -/

variable (io : IoStack pool)

def novaIoInit : Int × IoStack pool :=
  if io.initialized then (0, io)
  else (0, { io with registry := none, nextMajor := 1, initialized := true })

/-- `dev->major = g_next_major++`, unless the device has a number. -/
def assignMajor (dev : DevPtr pool) : IoStack pool :=
  if (io.devices dev).major = 0 then { io.setMajor dev io.nextMajor with nextMajor := io.nextMajor + 1 } else io

def novaDeviceRegister : Option (DevPtr pool) → Option (Int × IoStack pool)
  | none => some (-1, io)
  | some dev =>
      if (io.name dev).bytes = [] then some (-1, io)
      else
        (lockRegistry io).map fun io =>
          let io := assignMajor io dev
          let io := io.setNext dev io.registry
          let io := match io.registry with
            | some head => io.setPrev head (some dev)
            | none => io
          (0, unlockRegistry { io with registry := some dev })

def novaDeviceUnregister : Option (DevPtr pool) → Option (Int × IoStack pool)
  | none => some (-1, io)
  | some dev =>
      (lockRegistry io).bind fun io =>
        (locate io.next dev (Fintype.card (DevPtr pool)) none io.registry).map fun
          | none => (-1, unlockRegistry io)
          | some prev =>
              let io := match prev with
                | some before => io.setNext before (io.next dev)
                | none => { io with registry := io.next dev }
              let io := match io.next dev with
                | some after => io.setPrev after prev
                | none => io
              (0, unlockRegistry io)

/-- The loop over the registry to the first device with `p`. -/
def searchRegistry (p : NovaDevice pool → Bool) : Option (Option (DevPtr pool) × IoStack pool) :=
  (lockRegistry io).bind fun io =>
    (search io.next (fun dev => p (io.devices dev)) (Fintype.card (DevPtr pool)) io.registry).map fun dev =>
      (dev, unlockRegistry io)

def novaDeviceFind : Option CString → Option (Option (DevPtr pool) × IoStack pool)
  | none => some (none, io)
  | some path => searchRegistry io fun device => device.path = path

def novaDeviceGetByMajorMinor (major minor : UInt32) : Option (Option (DevPtr pool) × IoStack pool) :=
  searchRegistry io fun device => device.major = major ∧ device.minor = minor

/-! ## Runs -/

inductive IoOp (pool : Nat) where
  | init
  | register (dev : Option (DevPtr pool))
  | unregister (dev : Option (DevPtr pool))
  | find (path : Option CString)
  | getByMajorMinor (major minor : UInt32)
  deriving DecidableEq

inductive IoAnswer (pool : Nat) where
  | int (result : Int)
  | device (dev : Option (DevPtr pool))
  deriving DecidableEq

def ioStep : IoStack pool → IoOp pool → Option (IoAnswer pool × IoStack pool)
  | io, .init => some (.int (novaIoInit io).1, (novaIoInit io).2)
  | io, .register dev => (novaDeviceRegister io dev).map fun r => (.int r.1, r.2)
  | io, .unregister dev => (novaDeviceUnregister io dev).map fun r => (.int r.1, r.2)
  | io, .find path => (novaDeviceFind io path).map fun r => (.device r.1, r.2)
  | io, .getByMajorMinor major minor => (novaDeviceGetByMajorMinor io major minor).map fun r => (.device r.1, r.2)

def ioMachine (pool : Nat) : Machine (Option (IoStack pool)) (IoOp pool) (Option (IoAnswer pool)) := .ofPartial ioStep

end NovaOs.Io
