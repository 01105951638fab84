import NovaOs.Io.Basic

/-!
# What the registry of devices is for

The registry without its pointers and its lock: the devices that are registered, the one that was registered last in
front, and their numbers. What is searched for is found in the device that was registered last of those that match.
-/

namespace NovaOs.Io

open Lib

variable {pool : Nat}

/-- The registered devices, the newest first, and the numbers given so far. -/
structure Directory (pool : Nat) where
  devs : List (DevPtr pool)
  major : DevPtr pool → UInt32
  nextMajor : UInt32
  initialized : Bool

namespace Directory

def empty (devices : DevPtr pool → NovaDevice pool) : Directory pool where
  devs := []
  major dev := (devices dev).major
  nextMajor := 1
  initialized := false

variable (d : Directory pool)

def add (dev : DevPtr pool) : Directory pool :=
  if d.major dev = 0 then
    { d with devs := dev :: d.devs, major := Function.update d.major dev d.nextMajor, nextMajor := d.nextMajor + 1 }
  else { d with devs := dev :: d.devs }

end Directory

/-- The names, paths and minor numbers of the devices are those that they come with. -/
def directoryMachine (devices : DevPtr pool → NovaDevice pool) :
    Machine (Directory pool) (IoOp pool) (IoAnswer pool) where
  step
    | d, .init => (.int 0, if d.initialized then d else { d with devs := [], nextMajor := 1, initialized := true })
    | d, .register none => (.int (-1), d)
    | d, .register (some dev) => if (devices dev).name.bytes = [] then (.int (-1), d) else (.int 0, d.add dev)
    | d, .unregister none => (.int (-1), d)
    | d, .unregister (some dev) =>
        if d.devs.contains dev then (.int 0, { d with devs := d.devs.erase dev }) else (.int (-1), d)
    | d, .find none => (.device none, d)
    | d, .find (some path) => (.device (d.devs.find? fun dev => (devices dev).path = path), d)
    | d, .getByMajorMinor major minor =>
        (.device (d.devs.find? fun dev => d.major dev = major ∧ (devices dev).minor = minor), d)

/-- The call registers no device that is registered. -/
def Directory.Fresh (d : Directory pool) (op : IoOp pool) : Prop := ∀ dev ∈ d.devs, op ≠ .register (some dev)

instance (d : Directory pool) (op : IoOp pool) : Decidable (d.Fresh op) :=
  List.decidableBAll (fun dev => op ≠ .register (some dev)) d.devs

end NovaOs.Io
