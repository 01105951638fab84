import NovaOs.Network.Stack

/-!
# The rest of the network API (`kernel/network/network_stack.c`)

Shutting the stack down, taking a device out of the registry, and the calls on descriptors beside those of the data
path. The calls of the whole interface are then the steps of one machine.
-/

namespace NovaOs.Network

open Lib

variable {pool : Nat} (drivers : Nat → NovaNetDeviceOps pool) (net : Net pool)

/-! ## Devices -/

abbrev Net.next (dev : DevPtr pool) : Option (DevPtr pool) := (net.devices dev).next

abbrev Net.name (dev : DevPtr pool) : String := (net.devices dev).name

def Net.setNext (dev : DevPtr pool) (next : Option (DevPtr pool)) : Net pool :=
  net.setDevice dev { net.devices dev with next := next }

/-- The loop of `nova_network_shutdown`: a device's pointer is read before it is cleared. -/
def Net.clearNext : Nat → Option (DevPtr pool) → Net pool → Option (Net pool)
  | _, none, net => some net
  | 0, some _, _ => none
  | fuel + 1, some dev, net => clearNext fuel (net.next dev) (net.setNext dev none)

/-- The table of sockets stays as it is. -/
def novaNetworkShutdown : Option (Int × Net pool) :=
  (Net.clearNext (Fintype.card (DevPtr pool)) net.registry net).map fun net =>
    (0, { net with registry := none, initialized := false })

def novaNetdevUnregister : Option (DevPtr pool) → Option (Int × Net pool)
  | none => some (-1, net)
  | some dev =>
      (locate net.next dev (Fintype.card (DevPtr pool)) none net.registry).map fun
        | none => (-1, net)
        | some prev =>
            let unlinked := match prev with
              | none => { net with registry := net.next dev }
              | some prev => net.setNext prev (net.next dev)
            (0, unlinked.setNext dev none)

/-! ## Sockets -/

/-- A call that looks its descriptor up, fails when nothing is open there, and otherwise ends with `result`. -/
def Net.checkSocket (sockfd : Int) (result : Int) : Int :=
  match novaSocketLookup net sockfd with
  | none => -1
  | some _ => result

/-- A call that sets the state of its socket. -/
def Net.setState (sockfd : Int) (state : Int) : Option (Int × Net pool) :=
  match novaSocketLookup net sockfd with
  | none => some (-1, net)
  | some sock => (net.sockets.get sock).map fun socket => (0, net.setSocket sock { socket with state := state })

def novaBind (sockfd : Int) : Int := net.checkSocket sockfd 0

def novaListen (sockfd : Int) : Option (Int × Net pool) := net.setState sockfd 2

/-- It fails on an open descriptor, too. -/
def novaAccept (sockfd : Int) : Int := net.checkSocket sockfd (-1)

/-- The bytes of the caller's buffer are zeroed, none is received. -/
def novaRecv (sockfd : Int) (buf : Option (Nat → UInt8)) (len : UInt64) : Int × Option (Nat → UInt8) :=
  match novaSocketLookup net sockfd, buf with
  | some _, some buf =>
      if len = 0 then (-1, some buf)
      else (len.toInt64.toInt, some fun k => if k < len.toNat then 0 else buf k)
  | _, buf => (-1, buf)

def novaShutdown (sockfd : Int) : Option (Int × Net pool) := net.setState sockfd 0

def novaGetsockopt (sockfd : Int) : Int := net.checkSocket sockfd 0

def novaSetsockopt (sockfd : Int) : Int := net.checkSocket sockfd 0

/-! ## Calls -/

/-- The calls on the registry. With `edit` the owner of a device of the pool writes to its object. -/
inductive RegistryOp (pool : Nat) where
  | init
  | shutdown
  | register (dev : Option (DevPtr pool))
  | unregister (dev : Option (DevPtr pool))
  | find (name : Option String)
  | edit (n : Fin pool) (device : NovaNetDevice pool)

inductive RegistryAnswer (pool : Nat) where
  | int (result : Int)
  | dev (dev : Option (DevPtr pool))
  | void
  deriving DecidableEq, Repr

def registryStep : RegistryOp pool → Option (RegistryAnswer pool × Net pool)
  | .init => let r := novaNetworkInit net; some (.int r.1, r.2)
  | .shutdown => (novaNetworkShutdown net).map fun r => (.int r.1, r.2)
  | .register dev => (novaNetdevRegister drivers net dev).map fun r => (.int r.1, r.2)
  | .unregister dev => (novaNetdevUnregister net dev).map fun r => (.int r.1, r.2)
  | .find name => (novaNetdevFind net name).map fun dev => (.dev dev, net)
  | .edit n device => some (.void, net.setDevice (.other n) device)

/-- The socket interface. Addresses, options and flags are left out: no call looks at them. -/
inductive SocketOp where
  | socket (domain type protocol : Int) (memory : Bool)
  | bind (sockfd : Int)
  | connect (sockfd : Int)
  | listen (sockfd : Int)
  | accept (sockfd : Int)
  | send (c : SendCall)
  | recv (sockfd : Int) (buf : Option (Nat → UInt8)) (len : UInt64)
  | shutdown (sockfd : Int)
  | getsockopt (sockfd : Int)
  | setsockopt (sockfd : Int)
  | close (sockfd : Int)

def socketStep : SocketOp → Option (Int × Net pool)
  | .socket domain type protocol memory => novaSocket net domain type protocol memory
  | .bind sockfd => some (novaBind net sockfd, net)
  | .connect sockfd => novaConnect net sockfd
  | .listen sockfd => novaListen net sockfd
  | .accept sockfd => some (novaAccept net sockfd, net)
  | .send c => novaSend drivers net c
  | .recv sockfd buf len => some ((novaRecv net sockfd buf len).1, net)
  | .shutdown sockfd => novaShutdown net sockfd
  | .getsockopt sockfd => some (novaGetsockopt net sockfd, net)
  | .setsockopt sockfd => some (novaSetsockopt net sockfd, net)
  | .close sockfd => novaClose net sockfd

inductive StackOp (pool : Nat) where
  | registry (op : RegistryOp pool)
  | socket (op : SocketOp)

def stackStep : StackOp pool → Option (RegistryAnswer pool × Net pool)
  | .registry op => registryStep drivers net op
  | .socket op => (socketStep drivers net op).map fun r => (.int r.1, r.2)

/-- The calls of a boot sequence: those on the registry and the two constructors. -/
inductive BootOp (pool : Nat) where
  | registry (op : RegistryOp pool)
  | loopbackInit
  | nicStubInit

def bootStep : BootOp pool → Option (RegistryAnswer pool × Net pool)
  | .registry op => registryStep drivers net op
  | .loopbackInit => (novaLoopbackInit drivers net).map fun r => (.int r.1, r.2)
  | .nicStubInit => (novaNicStubInit drivers net).map fun r => (.int r.1, r.2)

/-! ## Runs -/

def registryMachine : Machine (Option (Net pool)) (RegistryOp pool) (Option (RegistryAnswer pool)) :=
  .ofPartial (registryStep drivers)

def socketMachine : Machine (Option (Net pool)) SocketOp (Option Int) := .ofPartial (socketStep drivers)

def stackMachine : Machine (Option (Net pool)) (StackOp pool) (Option (RegistryAnswer pool)) :=
  .ofPartial (stackStep drivers)

def bootMachine : Machine (Option (Net pool)) (BootOp pool) (Option (RegistryAnswer pool)) :=
  .ofPartial (bootStep drivers)

/-- The program as it starts, with device objects that their owners have set up in some way. -/
def programStart (devices : DevPtr pool → NovaNetDevice pool) : Net pool := { zeroNet pool with devices := devices }

/-- The program as it starts: `lo_dev` and `nic_dev` are zero, the other objects are their owners'. -/
def bootStart (others : Fin pool → NovaNetDevice pool) : Net pool :=
  programStart fun
    | .other n => others n
    | dev => (zeroNet pool).devices dev

end NovaOs.Network
