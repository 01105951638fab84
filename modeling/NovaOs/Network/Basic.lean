import NovaOs.Lib.Heap
import NovaOs.Lib.Chain
import Mathlib.Data.Fintype.Sum
import Mathlib.Tactic.DeriveFintype
import Mathlib.Data.UInt

/-!
# The state of the network stack and its two drivers (`kernel/network`)

A definition has the name of the C function, type or constant it models, in camel case. The state holds the
globals of `network_stack.c`, `loopback.c` and `nic_stub.c`, and the sockets and packet buffers that are allocated.
A null pointer is `none`. A call that reads or frees a dead object, or follows a cyclic chain of devices, has no
result.
-/

namespace NovaOs.Network

open Lib

/-- A device object: `lo_dev`, `nic_dev` or one of a pool of others. -/
inductive DevPtr (pool : Nat) where
  | lo
  | nic
  | other (n : Fin pool)
  deriving DecidableEq, Repr, Fintype

/-- The table of hooks a device points to: `lo_ops`, `nic_ops` or that of another driver. -/
inductive OpsPtr where
  | lo
  | nic
  | other (n : Nat)
  deriving DecidableEq, Repr

abbrev SockPtr := Nat

abbrev SkbPtr := Nat

/-- The counters of `struct nova_net_stats` that the stack changes. -/
structure NovaNetStats where
  rxBytes : UInt64
  rxPackets : UInt64
  txBytes : UInt64
  txPackets : UInt64
  deriving DecidableEq, Repr

variable {pool : Nat}

structure NovaNetDevice (pool : Nat) where
  name : String
  mac : Vector UInt8 6
  mtu : UInt32
  flags : UInt32
  ops : Option OpsPtr
  stats : NovaNetStats
  next : Option (DevPtr pool)
  deriving DecidableEq

/-- The stack sets `ops` and `private_data` to null and reads neither. -/
structure NovaSocket (pool : Nat) where
  family : Int
  type : Int
  protocol : Int
  state : Int
  flags : Int
  dev : Option (DevPtr pool)
  deriving DecidableEq, Repr

/-- The bytes that `data` points to live and die with the packet. -/
structure NovaSkBuff (pool : Nat) where
  data : List UInt8
  len : UInt64
  headroom : UInt64
  tailroom : UInt64
  dev : Option (DevPtr pool)
  hash : UInt32
  protocol : UInt16
  priority : UInt8
  error : Int
  deriving DecidableEq, Repr

/-- The hooks that a device's life consists of. -/
inductive DeviceHook where
  | openDev
  | stop
  deriving DecidableEq, Repr

/-- A call of a hook, with what it returned. -/
structure HookCall (pool : Nat) where
  dev : DevPtr pool
  hook : DeviceHook
  result : Int
  deriving DecidableEq, Repr

/-- The state. `hookCalls` is no data of the program: it records the hooks of devices that were called, the last one
first. -/
structure Net (pool : Nat) where
  devices : DevPtr pool → NovaNetDevice pool
  registry : Option (DevPtr pool)
  socketTable : Vector (Option SockPtr) 64
  nextSocketFd : Nat
  initialized : Bool
  sockets : Heap (NovaSocket pool)
  skbs : Heap (NovaSkBuff pool)
  hookCalls : List (HookCall pool)

namespace Net

variable (net : Net pool)

def setDevice (dev : DevPtr pool) (device : NovaNetDevice pool) : Net pool :=
  { net with devices := Function.update net.devices dev device }

def setSocket (sock : SockPtr) (socket : NovaSocket pool) : Net pool :=
  { net with sockets := net.sockets.write sock socket }

def setSkb (skb : SkbPtr) (buff : NovaSkBuff pool) : Net pool :=
  { net with skbs := net.skbs.write skb buff }

def countTx (dev : DevPtr pool) (len : UInt64) : Net pool :=
  let device := net.devices dev
  net.setDevice dev
    { device with
      stats :=
        { device.stats with
          txPackets := device.stats.txPackets + 1, txBytes := device.stats.txBytes + len } }

def countRx (dev : DevPtr pool) (len : UInt64) : Net pool :=
  let device := net.devices dev
  net.setDevice dev
    { device with
      stats :=
        { device.stats with
          rxPackets := device.stats.rxPackets + 1, rxBytes := device.stats.rxBytes + len } }

end Net

/-- Whether a `calloc` of `size` bytes succeeds, when memory is there or not. No object is larger than
`PTRDIFF_MAX` bytes. -/
def calloc (memory : Bool) (size : Nat) : Bool := memory && size < 2 ^ 63

/-! ## Packets -/

/-- The two flags say whether there is memory for the packet and for its bytes. -/
def novaAllocSkb (net : Net pool) (size : UInt64) (memSkb memData : Bool) : Option (Option SkbPtr × Net pool) :=
  if memSkb then
    let skb := net.skbs.fresh
    let bytes := if size = 0 then 1 else size.toNat
    let buff : NovaSkBuff pool :=
      { data := List.replicate bytes 0, len := size, headroom := 0, tailroom := 0, dev := none, hash := 0,
        protocol := 0, priority := 0, error := 0 }
    let skbs := net.skbs.alloc buff
    if calloc memData bytes then some (some skb, { net with skbs := skbs })
    else (skbs.free skb).map fun skbs => (none, { net with skbs := skbs })
  else some (none, net)

def novaFreeSkb (net : Net pool) : Option SkbPtr → Option (Net pool)
  | none => some net
  | some skb => (net.skbs.free skb).map fun skbs => { net with skbs := skbs }

def novaNetifReceiveSkb (net : Net pool) : Option SkbPtr → Option (Int × Net pool)
  | none => some (-1, net)
  | some skb =>
      (net.skbs.get skb).map fun buff =>
        let net := match buff.dev with
          | none => net
          | some dev => net.countRx dev buff.len
        (0, net.setSkb skb { buff with error := 0 })

/-! ## Drivers -/

/-- The hooks of `struct nova_net_device_ops` of a device's life and its transmissions. -/
structure NovaNetDeviceOps (pool : Nat) where
  openDev : Option (Net pool → DevPtr pool → Option (Int × Net pool))
  stop : Option (Net pool → DevPtr pool → Option (Int × Net pool))
  startXmit : Option (Net pool → Option (DevPtr pool) → Option SkbPtr → Option (Int × Net pool))

def novaIffUp : UInt32 := 0x1

def novaIffLoopback : UInt32 := 0x8

def novaIffRunning : UInt32 := 0x40

def Net.raiseFlags (net : Net pool) (dev : DevPtr pool) (flags : UInt32) : Net pool :=
  net.setDevice dev { net.devices dev with flags := (net.devices dev).flags ||| flags }

def Net.lowerFlags (net : Net pool) (dev : DevPtr pool) (flags : UInt32) : Net pool :=
  net.setDevice dev { net.devices dev with flags := (net.devices dev).flags &&& ~~~flags }

def loOpen (net : Net pool) (dev : DevPtr pool) : Option (Int × Net pool) :=
  some (0, net.raiseFlags dev (novaIffRunning ||| novaIffLoopback))

def loStop (net : Net pool) (dev : DevPtr pool) : Option (Int × Net pool) :=
  some (0, net.lowerFlags dev novaIffRunning)

def loStartXmit (net : Net pool) : Option (DevPtr pool) → Option SkbPtr → Option (Int × Net pool)
  | _, none => some (-1, net)
  | none, some _ => none
  | some dev, some skb =>
      (net.skbs.get skb).bind fun buff =>
        let net := (net.countTx dev buff.len).countRx dev buff.len
        (novaNetifReceiveSkb net (some skb)).map fun r => (0, r.2)

def nicOpen (net : Net pool) (dev : DevPtr pool) : Option (Int × Net pool) :=
  some (0, net.raiseFlags dev novaIffRunning)

def nicStop (net : Net pool) (dev : DevPtr pool) : Option (Int × Net pool) :=
  some (0, net.lowerFlags dev novaIffRunning)

def nicStartXmit (net : Net pool) : Option (DevPtr pool) → Option SkbPtr → Option (Int × Net pool)
  | none, _ => some (-1, net)
  | _, none => some (-1, net)
  | some dev, some skb =>
      (net.skbs.get skb).bind fun buff =>
        (novaFreeSkb (net.countTx dev buff.len) (some skb)).map fun net => (0, net)

def loOps : NovaNetDeviceOps pool := ⟨some loOpen, some loStop, some loStartXmit⟩

def nicOps : NovaNetDeviceOps pool := ⟨some nicOpen, some nicStop, some nicStartXmit⟩

/-- The hook, with a record of its call. A driver does not write to the record. -/
def recorded (hook : DeviceHook) (call : Net pool → DevPtr pool → Option (Int × Net pool)) (net : Net pool)
    (dev : DevPtr pool) : Option (Int × Net pool) :=
  (call net dev).map fun r => (r.1, { r.2 with hookCalls := ⟨dev, hook, r.1⟩ :: net.hookCalls })

def NovaNetDeviceOps.recorded (ops : NovaNetDeviceOps pool) : NovaNetDeviceOps pool where
  openDev := ops.openDev.map (Network.recorded .openDev)
  stop := ops.stop.map (Network.recorded .stop)
  startXmit := ops.startXmit

/-- The table of hooks at a pointer, when `drivers` are the tables of the other drivers. -/
def OpsPtr.table (drivers : Nat → NovaNetDeviceOps pool) : OpsPtr → NovaNetDeviceOps pool
  | .lo => loOps
  | .nic => nicOps
  | .other n => drivers n

/-- The hooks a device points to. Whoever calls them, the calls are recorded. -/
def opsOf (drivers : Nat → NovaNetDeviceOps pool) (ops : OpsPtr) : NovaNetDeviceOps pool := (ops.table drivers).recorded

end NovaOs.Network
