import NovaOs.Core.Basic
import NovaOs.Lib.Fifo

/-!
# IPC endpoints (`kernel/core/ipc.c`)

`NOVA_IPC_QUEUE_LENGTH` is 16 and `NOVA_IPC_PAYLOAD_SIZE` is 64. The indices `head` and `tail` range over
the slots of `messages`, so no access leaves the array. `size_t` is `Nat`: the counter stays at most 16, and a
length is only compared and cast.
-/

namespace NovaOs.Core

open Lib

@[ext]
structure NovaIpcMessage where
  sender : UInt32
  length : UInt16
  payload : Vector UInt8 64
  deriving DecidableEq

structure NovaIpcEndpoint where
  messages : Vector NovaIpcMessage 16
  head : Fin 16
  tail : Fin 16
  count : Nat
  deriving DecidableEq

def NovaIpcEndpoint.message (endpoint : NovaIpcEndpoint) (slot : Fin 16) : NovaIpcMessage := endpoint.messages[slot]

def zeroedEndpoint : NovaIpcEndpoint where
  messages := Vector.replicate 16 ⟨0, 0, Vector.replicate 64 0⟩
  head := 0
  tail := 0
  count := 0

/-- The messages keep what the memory held. -/
def novaIpcEndpointInit (endpoint : NovaIpcEndpoint) : NovaIpcEndpoint :=
  { endpoint with head := 0, tail := 0, count := 0 }

/-- The message that a send leaves in a slot: the payload bytes from `length` on are those of the slot. -/
def NovaIpcMessage.fill (slot : NovaIpcMessage) (sender : UInt32) (payload : Nat → UInt8) (length : Nat) :
    NovaIpcMessage where
  sender := sender
  length := UInt16.ofNat length
  payload := memcpy slot.payload payload length

def NovaIpcEndpoint.put (endpoint : NovaIpcEndpoint) (sender : UInt32) (payload : Nat → UInt8) (length : Nat) :
    NovaIpcEndpoint :=
  { endpoint with
    messages := endpoint.messages.set endpoint.tail ((endpoint.message endpoint.tail).fill sender payload length)
    tail := Fin.ofNat 16 (endpoint.tail + 1)
    count := endpoint.count + 1 }

/-- `payload k` is the byte `k` that the caller's pointer addresses. -/
def novaIpcSend (endpoint : NovaIpcEndpoint) (sender : UInt32) (payload : Nat → UInt8) (length : Nat) :
    NovaResult × NovaIpcEndpoint :=
  if length > 64 then (.err, endpoint)
  else if endpoint.count = 16 then (.full, endpoint)
  else (.ok, endpoint.put sender payload length)

def NovaIpcEndpoint.drop (endpoint : NovaIpcEndpoint) : NovaIpcEndpoint :=
  { endpoint with head := Fin.ofNat 16 (endpoint.head + 1), count := endpoint.count - 1 }

/-- The message is copied whole. -/
def novaIpcReceive (endpoint : NovaIpcEndpoint) (message : NovaIpcMessage) :
    NovaResult × NovaIpcEndpoint × NovaIpcMessage :=
  if endpoint.count = 0 then (.empty, endpoint, message)
  else (.ok, endpoint.drop, endpoint.message endpoint.head)

/-! ## Single accesses -/

/-- A write through the pointer `message` of a send. Nobody else moves `tail`, so it is the slot `tail` until then. -/
def NovaIpcEndpoint.write (endpoint : NovaIpcEndpoint) (f : NovaIpcMessage → NovaIpcMessage) : NovaIpcEndpoint :=
  { endpoint with messages := endpoint.messages.set endpoint.tail (f (endpoint.message endpoint.tail)) }

/-- The slot after a slot of the ring. -/
def nextSlot (slot : Fin 16) : Fin 16 := Fin.ofNat 16 (slot + 1)

/-! ## Runs -/

inductive IpcOp where
  | send (sender : UInt32) (payload : Nat → UInt8) (length : Nat)
  | receive (message : NovaIpcMessage)

/-- The calls on an endpoint. A receive also answers what the caller's message holds after it. -/
def ipcMachine : Machine NovaIpcEndpoint IpcOp (NovaResult × Option NovaIpcMessage) where
  step
    | e, .send sender payload length =>
        let r := novaIpcSend e sender payload length
        ((r.1, none), r.2)
    | e, .receive message =>
        let r := novaIpcReceive e message
        ((r.1, some r.2.2), r.2.1)

/-! ## The queue of messages an endpoint stands for -/

/-- What a receiver is entitled to: the sender and the bytes that were sent. -/
abbrev Datagram := UInt32 × List UInt8

def fifoMachine : Machine (BoundedFifo Datagram 16) IpcOp (NovaResult × Option Datagram) where
  step
    | q, .send sender payload length =>
        if length > 64 then ((.err, none), q)
        else match q.push (sender, bytes payload length) with
          | none => ((.full, none), q)
          | some q' => ((.ok, none), q')
    | q, .receive _ =>
        match q.pop with
        | none => ((.empty, none), q)
        | some (d, q') => ((.ok, some d), q')

def NovaIpcMessage.datagram (message : NovaIpcMessage) : Datagram :=
  (message.sender, message.payload.toList.take message.length.toNat)

/-- The messages of an endpoint, the oldest first. -/
def NovaIpcEndpoint.queued (endpoint : NovaIpcEndpoint) : List NovaIpcMessage :=
  ring endpoint.messages endpoint.head endpoint.count

/-! ## What went in and what came out -/

/-- The datagrams of the accepted sends of a history, the oldest first. -/
def accepted (h : List (IpcOp × NovaResult × Option NovaIpcMessage)) : List Datagram :=
  h.filterMap fun
    | (.send sender payload length, .ok, _) => some (sender, bytes payload length)
    | _ => none

/-- The messages written to receivers, the oldest first. -/
def delivered (h : List (IpcOp × NovaResult × Option NovaIpcMessage)) : List NovaIpcMessage :=
  h.filterMap fun
    | (.receive _, .ok, message) => message
    | _ => none

end NovaOs.Core
