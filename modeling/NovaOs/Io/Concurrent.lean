import NovaOs.Io.Basic
import NovaOs.Lib.Monitor

/-!
# Threads on the registry (`kernel/io/io_stack.c`)

The calls that take the lock of the registry, one statement at a time, so that threads can be anywhere in them. A step
writes to one variable at most. `nova_io_init` takes no lock and is over before there are threads.
-/

namespace NovaOs.Io

open Lib

variable {pool : Nat}

/-- The calls of a thread. -/
inductive RegistryOp (pool : Nat) where
  | register (dev : Option (DevPtr pool))
  | unregister (dev : Option (DevPtr pool))
  | find (path : Option CString)
  | getByMajorMinor (major minor : UInt32)
  deriving DecidableEq

def RegistryOp.toIoOp : RegistryOp pool → IoOp pool
  | .register dev => .register dev
  | .unregister dev => .unregister dev
  | .find path => .find path
  | .getByMajorMinor major minor => .getByMajorMinor major minor

/-- The next statement of a thread that holds the lock, with its local variables. -/
inductive Point (pool : Nat) where
  | registerStart (dev : DevPtr pool)
  | registerNumber (dev : DevPtr pool)
  | registerMajor (dev : DevPtr pool) (number : UInt32)
  | registerNext (dev : DevPtr pool)
  | registerBack (dev : DevPtr pool)
  | registerHead (dev : DevPtr pool)
  | unregisterStart (dev : DevPtr pool)
  | unregisterLoop (dev : DevPtr pool) (prev curr : Option (DevPtr pool))
  | unregisterDetach (dev : DevPtr pool) (prev : Option (DevPtr pool))
  | unregisterBack (dev : DevPtr pool) (prev : Option (DevPtr pool))
  | searchStart (p : NovaDevice pool → Bool)
  | searchLoop (p : NovaDevice pool → Bool) (curr : Option (DevPtr pool))
  | unlock (answer : IoAnswer pool)

/-- The checks of a call before `lock_registry`. -/
def registryEnter : RegistryOp pool → IoStack pool → Option (IoAnswer pool)
  | .register none, _ => some (.int (-1))
  | .register (some dev), io => if (io.name dev).bytes = [] then some (.int (-1)) else none
  | .unregister none, _ => some (.int (-1))
  | .unregister (some _), _ => none
  | .find none, _ => some (.device none)
  | .find (some _), _ => none
  | .getByMajorMinor _ _, _ => none

/-- The first statement behind `lock_registry`. A call with a null pointer does not get there. -/
def registryStart : RegistryOp pool → Point pool
  | .register none => .unlock (.int (-1))
  | .register (some dev) => .registerStart dev
  | .unregister none => .unlock (.int (-1))
  | .unregister (some dev) => .unregisterStart dev
  | .find none => .unlock (.device none)
  | .find (some path) => .searchStart fun device => device.path = path
  | .getByMajorMinor major minor => .searchStart fun device => device.major = major ∧ device.minor = minor

def registryStep : Point pool → IoStack pool → Point pool × IoStack pool
  | .registerStart dev, io => (if (io.devices dev).major = 0 then .registerNumber dev else .registerNext dev, io)
  | .registerNumber dev, io => (.registerMajor dev io.nextMajor, { io with nextMajor := io.nextMajor + 1 })
  | .registerMajor dev number, io => (.registerNext dev, io.setMajor dev number)
  | .registerNext dev, io => (.registerBack dev, io.setNext dev io.registry)
  | .registerBack dev, io =>
      (.registerHead dev, match io.registry with
        | some head => io.setPrev head (some dev)
        | none => io)
  | .registerHead dev, io => (.unlock (.int 0), { io with registry := some dev })
  | .unregisterStart dev, io => (.unregisterLoop dev none io.registry, io)
  | .unregisterLoop _ _ none, io => (.unlock (.int (-1)), io)
  | .unregisterLoop dev prev (some curr), io =>
      (if curr = dev then .unregisterDetach dev prev else .unregisterLoop dev (some curr) (io.next curr), io)
  | .unregisterDetach dev prev, io =>
      (.unregisterBack dev prev, match prev with
        | some before => io.setNext before (io.next dev)
        | none => { io with registry := io.next dev })
  | .unregisterBack dev prev, io =>
      (.unlock (.int 0), match io.next dev with
        | some after => io.setPrev after prev
        | none => io)
  | .searchStart p, io => (.searchLoop p io.registry, io)
  | .searchLoop _ none, io => (.unlock (.device none), io)
  | .searchLoop p (some curr), io =>
      (if p (io.devices curr) then .unlock (.device (some curr)) else .searchLoop p (io.next curr), io)
  | .unlock answer, io => (.unlock answer, io)

/-- A call returns once it has freed the lock. -/
def registryAnswer : Point pool → Option (IoAnswer pool)
  | .unlock answer => some answer
  | _ => none

theorem IoStack.name_setDevice {io : IoStack pool} {dev : DevPtr pool} {device : NovaDevice pool}
    (h : device.name = io.name dev) (d : DevPtr pool) : (io.setDevice dev device).name d = io.name d := by
  have hdevice : (io.setDevice dev device).devices d = if d = dev then device else io.devices d :=
    Function.update_apply ..
  rw [IoStack.name, hdevice]
  split
  · next he => rw [h, he]
  · rfl

/-- A step of a critical section changes neither the lock nor a name. -/
theorem registryStep_frame (point : Point pool) (io : IoStack pool) :
    (registryStep point io).2.registryLock = io.registryLock ∧
      ∀ dev, (registryStep point io).2.name dev = io.name dev := by
  cases point with
  | registerStart dev => exact ⟨rfl, fun _ => rfl⟩
  | registerNumber dev => exact ⟨rfl, fun _ => rfl⟩
  | registerMajor dev number => exact ⟨rfl, IoStack.name_setDevice rfl⟩
  | registerNext dev => exact ⟨rfl, IoStack.name_setDevice rfl⟩
  | registerBack dev =>
      rw [registryStep]
      cases io.registry with
      | none => exact ⟨rfl, fun _ => rfl⟩
      | some head => exact ⟨rfl, IoStack.name_setDevice rfl⟩
  | registerHead dev => exact ⟨rfl, fun _ => rfl⟩
  | unregisterStart dev => exact ⟨rfl, fun _ => rfl⟩
  | unregisterLoop dev prev curr => cases curr <;> exact ⟨rfl, fun _ => rfl⟩
  | unregisterDetach dev prev =>
      cases prev with
      | none => exact ⟨rfl, fun _ => rfl⟩
      | some before => exact ⟨rfl, IoStack.name_setDevice rfl⟩
  | unregisterBack dev prev =>
      rw [registryStep]
      cases io.next dev with
      | none => exact ⟨rfl, fun _ => rfl⟩
      | some after => exact ⟨rfl, IoStack.name_setDevice rfl⟩
  | searchStart p => exact ⟨rfl, fun _ => rfl⟩
  | searchLoop p curr => cases curr <;> exact ⟨rfl, fun _ => rfl⟩
  | unlock answer => exact ⟨rfl, fun _ => rfl⟩

theorem registryEnter_congr (op : RegistryOp pool) (io io' : IoStack pool) (h : ∀ dev, io'.name dev = io.name dev) :
    registryEnter op io' = registryEnter op io := by
  cases op with
  | register dev? =>
      cases dev? with
      | none => rfl
      | some dev => rw [registryEnter, registryEnter, h]
  | unregister dev? => cases dev? <;> rfl
  | find path? => cases path? <;> rfl
  | getByMajorMinor major minor => rfl

/-- `__sync_lock_test_and_set` tests the lock and takes it in one step. -/
def registryMonitor (pool : Nat) : Monitor (IoStack pool) (Point pool) (RegistryOp pool) (IoAnswer pool) where
  enter := registryEnter
  start := registryStart
  step := registryStep
  answer := registryAnswer
  held io := io.registryLock
  acquire io := { io with registryLock := true }
  release io := unlockRegistry io
  held_acquire _ := rfl
  held_step point io := (registryStep_frame point io).1
  held_release _ := rfl
  enter_acquire op io := registryEnter_congr op io _ fun _ => rfl
  enter_step op point io := registryEnter_congr op io _ (registryStep_frame point io).2
  enter_release op io := registryEnter_congr op io _ fun _ => rfl

end NovaOs.Io
