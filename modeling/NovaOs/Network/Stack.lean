import NovaOs.Network.Basic
import NovaOs.Lib.Machine
import Mathlib.Data.Vector.Basic

/-!
# The network stack (`kernel/network/network_stack.c`)

The registry of devices, the descriptors of sockets and the way of a packet from a socket to a driver.
`NOVA_SOCKET_TABLE_SIZE` is 64.
-/

namespace NovaOs.Network

open Lib

variable {pool : Nat} (drivers : Nat → NovaNetDeviceOps pool) (net : Net pool)

/-! ## Devices -/

/-- The loop over the registry to the device of a name. -/
def Net.searchName (name : String) : Option (Option (DevPtr pool)) :=
  search (fun dev => (net.devices dev).next) (fun dev => (net.devices dev).name = name)
    (Fintype.card (DevPtr pool)) net.registry

def novaNetdevFind : Option String → Option (Option (DevPtr pool))
  | none => some none
  | some name => net.searchName name

/-- What `open` answers is not looked at. -/
def novaNetdevRegister : Option (DevPtr pool) → Option (Int × Net pool)
  | none => some (-1, net)
  | some dev =>
      if (net.devices dev).name = "" then some (-1, net)
      else
        (net.searchName (net.devices dev).name).bind fun
          | some _ => some (-1, net)
          | none =>
              let net := { net.setDevice dev { net.devices dev with next := net.registry } with registry := some dev }
              match (net.devices dev).ops.bind fun ops => (opsOf drivers ops).openDev with
              | none => some (0, net)
              | some openDev => (openDev net dev).map fun r => (0, r.2)

/-! ## The stack and its two devices -/

def novaNetworkInit : Int × Net pool :=
  (0, { net with
    socketTable := Vector.replicate 64 none
    nextSocketFd := 1
    initialized := true
    registry := none })

def novaLoopbackInit : Option (Int × Net pool) :=
  novaNetdevRegister drivers
    (net.setDevice .lo
      { name := "lo", mac := Vector.replicate 6 0, mtu := 65536, flags := novaIffLoopback ||| novaIffUp,
        ops := some .lo, stats := ⟨0, 0, 0, 0⟩, next := none })
    (some .lo)

def novaNicStubInit : Option (Int × Net pool) :=
  novaNetdevRegister drivers
    (net.setDevice .nic
      { name := "nic0", mac := #v[0x02, 0x00, 0x00, 0x00, 0x00, 0x01], mtu := 1500,
        flags := novaIffUp ||| novaIffRunning, ops := some .nic, stats := ⟨0, 0, 0, 0⟩, next := none })
    (some .nic)

/-! ## Sockets -/

/-- The entry of the table that a descriptor names, unless `sockfd <= 0 || sockfd >= NOVA_SOCKET_TABLE_SIZE`. -/
def entryOf (sockfd : Int) : Option (Fin 64) :=
  if h : sockfd ≤ 0 ∨ sockfd ≥ 64 then none else some ⟨sockfd.toNat, by omega⟩

def Net.entry (fd : Fin 64) : Option SockPtr := net.socketTable[fd]

def Net.setEntry (fd : Fin 64) (sock : Option SockPtr) : Net pool :=
  { net with socketTable := net.socketTable.set fd sock }

def novaSocketLookup (sockfd : Int) : Option SockPtr := (entryOf sockfd).bind net.entry

/-- `NOVA_AF_UNSPEC`, `NOVA_AF_UNIX`, `NOVA_AF_INET` and `NOVA_AF_INET6`. -/
def novaDomains : List Int := [0, 1, 2, 10]

/-- `NOVA_SOCK_STREAM`, `NOVA_SOCK_DGRAM`, `NOVA_SOCK_RAW` and `NOVA_SOCK_SEQPACKET`. -/
def novaSockTypes : List Int := [1, 2, 3, 5]

/-- The flag `memory` says whether there is memory for the socket. -/
def novaSocket (domain type protocol : Int) (memory : Bool) : Option (Int × Net pool) :=
  let net := if net.initialized then net else (novaNetworkInit net).2
  if domain ∉ novaDomains then some (-1, net)
  else if type ∉ novaSockTypes then some (-1, net)
  else if h : net.nextSocketFd ≥ 64 then some (-1, net)
  else
    let fd : Fin 64 := ⟨net.nextSocketFd, not_le.mp h⟩
    let net := { net with nextSocketFd := net.nextSocketFd + 1 }
    if memory then
      (novaNetdevFind net (some "lo")).map fun dev =>
        let socket : NovaSocket pool :=
          { family := domain, type := type, protocol := protocol, state := 0, flags := 0, dev := dev }
        (fd, { net.setEntry fd (some net.sockets.fresh) with sockets := net.sockets.alloc socket })
    else some (-1, net)

def Net.routeSocket (sock : SockPtr) : Option (Net pool) :=
  (net.sockets.get sock).bind fun socket =>
    match socket.dev with
    | some _ => some net
    | none => (novaNetdevFind net (some "lo")).map fun dev => net.setSocket sock { socket with dev := dev }

/-- The address is not looked at. -/
def novaConnect (sockfd : Int) : Option (Int × Net pool) :=
  match novaSocketLookup net sockfd with
  | none => some (-1, net)
  | some sock =>
      (net.sockets.get sock).bind fun socket =>
        ((net.setSocket sock { socket with state := 1 }).routeSocket sock).map fun net => (0, net)

/-- The private data it frees is null. -/
def novaClose (sockfd : Int) : Option (Int × Net pool) :=
  match entryOf sockfd with
  | none => some (-1, net)
  | some fd =>
      match net.entry fd with
      | none => some (-1, net)
      | some sock =>
          (net.sockets.free sock).map fun sockets =>
            (0, { net.setEntry fd none with sockets := sockets })

/-! ## Transmission -/

/-- The hook `dev->ops->start_xmit`, when none of the three pointers is null. -/
def Net.startXmit (dev : Option (DevPtr pool)) :
    Option (Net pool → Option (DevPtr pool) → Option SkbPtr → Option (Int × Net pool)) :=
  dev.bind fun dev => (net.devices dev).ops.bind fun ops => (opsOf drivers ops).startXmit

def novaDevQueueXmit : Option SkbPtr → Option (Int × Net pool)
  | none => some (-1, net)
  | some skb =>
      (net.skbs.get skb).bind fun buff =>
        match net.startXmit drivers buff.dev with
        | none => some (-1, net)
        | some startXmit => startXmit net buff.dev (some skb)

def NovaSkBuff.load (buff : NovaSkBuff pool) (buf : Nat → UInt8) (len : UInt64) (dev : Option (DevPtr pool)) :
    NovaSkBuff pool :=
  { buff with data := (List.range len.toNat).map buf ++ buff.data.drop len.toNat, len := len, dev := dev }

/-- The end of `nova_send`: transmit, and free the packet that was not taken. -/
def novaSendSkb (skb : SkbPtr) (len : UInt64) : Option (Int × Net pool) :=
  (novaDevQueueXmit drivers net (some skb)).bind fun r =>
    if r.1 ≠ 0 then (novaFreeSkb r.2 (some skb)).map fun net => (-1, net) else some (len.toInt64.toInt, r.2)

/-- The arguments of a send: `buf k` is the byte `k` of the buffer. The two flags say whether there is memory for
the packet and for its bytes. -/
structure SendCall where
  sockfd : Int
  buf : Option (Nat → UInt8)
  len : UInt64
  memSkb : Bool
  memData : Bool

/-- The part of `nova_send` from the allocation of the packet on. -/
def novaSendPacket (buf : Nat → UInt8) (c : SendCall) (dev : Option (DevPtr pool)) : Option (Int × Net pool) :=
  (novaAllocSkb net c.len c.memSkb c.memData).bind fun r =>
    match r.1 with
    | none => some (-1, r.2)
    | some skb =>
        (r.2.skbs.get skb).bind fun buff => novaSendSkb drivers (r.2.setSkb skb (buff.load buf c.len dev)) skb c.len

/-- The flags of the caller are not looked at. -/
def novaSend (c : SendCall) : Option (Int × Net pool) :=
  match novaSocketLookup net c.sockfd, c.buf with
  | some sock, some buf =>
      if c.len = 0 then some (-1, net)
      else
        (net.routeSocket sock).bind fun net =>
          (net.sockets.get sock).bind fun socket =>
            if (net.startXmit drivers socket.dev).isNone then some (-1, net)
            else novaSendPacket drivers net buf c socket.dev
  | _, _ => some (-1, net)

/-- The zero-initialised program, in which nothing has been called. -/
def zeroNet (pool : Nat) : Net pool where
  devices _ := ⟨"", Vector.replicate 6 0, 0, 0, none, ⟨0, 0, 0, 0⟩, none⟩
  registry := none
  socketTable := Vector.replicate 64 none
  nextSocketFd := 1
  initialized := false
  sockets := .empty
  skbs := .empty
  hookCalls := []

def noDrivers : Nat → NovaNetDeviceOps pool := fun _ => ⟨none, none, none⟩

/-! ## Runs -/

/-- A call of the stack's users. A user fills in the packet it has allocated with `fillSkb`. -/
inductive NetOp (pool : Nat) where
  | socket (domain type protocol : Int) (memory : Bool)
  | connect (sockfd : Int)
  | send (c : SendCall)
  | queueXmit (skb : Option SkbPtr)
  | close (sockfd : Int)
  | allocSkb (size : UInt64) (memSkb memData : Bool)
  | fillSkb (skb : SkbPtr) (data : List UInt8) (len : UInt64) (dev : Option (DevPtr pool))
  | freeSkb (skb : Option SkbPtr)

inductive NetAnswer where
  | int (result : Int)
  | skb (skb : Option SkbPtr)
  | void
  deriving DecidableEq, Repr

def netStep : NetOp pool → Option (NetAnswer × Net pool)
  | .socket domain type protocol memory =>
      (novaSocket net domain type protocol memory).map fun r => (.int r.1, r.2)
  | .connect sockfd => (novaConnect net sockfd).map fun r => (.int r.1, r.2)
  | .send c => (novaSend drivers net c).map fun r => (.int r.1, r.2)
  | .queueXmit skb => (novaDevQueueXmit drivers net skb).map fun r => (.int r.1, r.2)
  | .close sockfd => (novaClose net sockfd).map fun r => (.int r.1, r.2)
  | .allocSkb size memSkb memData => (novaAllocSkb net size memSkb memData).map fun r => (.skb r.1, r.2)
  | .fillSkb skb data len dev =>
      (net.skbs.get skb).map fun buff => (.void, net.setSkb skb { buff with data := data, len := len, dev := dev })
  | .freeSkb skb => (novaFreeSkb net skb).map fun net => (.void, net)

def netMachine : Machine (Option (Net pool)) (NetOp pool) (Option NetAnswer) := .ofPartial (netStep drivers)

def sendMachine : Machine (Option (Net pool)) SendCall (Option Int) := .ofPartial (novaSend drivers)

end NovaOs.Network
