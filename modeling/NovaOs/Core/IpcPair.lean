import NovaOs.Core.Ipc

/-!
# An endpoint between two threads

`ipc.c` takes no lock. One thread sends on an endpoint and another receives from it, and they take their statements in
any order. An access of the endpoint is a step of its own: messages are copied byte by byte, and `count++` and `count--`
load the counter and store it. A statement that touches nothing shared, such as the test of the length or a `return`,
goes with the access before or after it.
-/

namespace NovaOs.Core

open Lib

structure SendCall where
  sender : UInt32
  payload : Nat → UInt8
  length : Nat

def SendCall.op (call : SendCall) : IpcOp := .send call.sender call.payload call.length

/-- The access that a send comes to next. -/
inductive SendPoint where
  | test
  | setSender
  | setLength
  | copy (k : Nat)
  | advance
  | load
  | store (loaded : Nat)
  deriving DecidableEq

/-- The access that a receive comes to next. -/
inductive ReceivePoint where
  | test
  | copySender
  | copyLength
  | copy (k : Nat)
  | advance
  | load
  | store (loaded : Nat)
  deriving DecidableEq

/-- One access of `nova_ipc_send`: the point after it, or what the call returns. -/
def NovaIpcEndpoint.sendStep (e : NovaIpcEndpoint) (call : SendCall) :
    SendPoint → NovaIpcEndpoint × (SendPoint ⊕ NovaResult)
  | .test =>
      if call.length > 64 then (e, .inr .err)
      else if e.count = 16 then (e, .inr .full)
      else (e, .inl .setSender)
  | .setSender => (e.write fun message => { message with sender := call.sender }, .inl .setLength)
  | .setLength => (e.write fun message => { message with length := UInt16.ofNat call.length }, .inl (.copy 0))
  | .copy k =>
      if k < call.length then
        (e.write fun message => { message with payload := message.payload.setIfInBounds k (call.payload k) },
          .inl (.copy (k + 1)))
      else (e, .inl .advance)
  | .advance => ({ e with tail := nextSlot e.tail }, .inl .load)
  | .load => (e, .inl (.store e.count))
  | .store loaded => ({ e with count := loaded + 1 }, .inr .ok)

/-- One access of `nova_ipc_receive`, with what the caller's message holds after it. -/
def NovaIpcEndpoint.receiveStep (e : NovaIpcEndpoint) (message : NovaIpcMessage) :
    ReceivePoint → NovaIpcEndpoint × NovaIpcMessage × (ReceivePoint ⊕ NovaResult)
  | .test => if e.count = 0 then (e, message, .inr .empty) else (e, message, .inl .copySender)
  | .copySender => (e, { message with sender := (e.message e.head).sender }, .inl .copyLength)
  | .copyLength => (e, { message with length := (e.message e.head).length }, .inl (.copy 0))
  | .copy k =>
      if h : k < 64 then
        (e, { message with payload := message.payload.set k (e.message e.head).payload[k] }, .inl (.copy (k + 1)))
      else (e, message, .inl .advance)
  | .advance => ({ e with head := nextSlot e.head }, message, .inl .load)
  | .load => (e, message, .inl (.store e.count))
  | .store loaded => ({ e with count := loaded - 1 }, message, .inr .ok)

/-! ## The two threads -/

inductive Sender where
  | idle
  | sending (call : SendCall) (point : SendPoint)

/-- A receive has been given `buffer`, and `message` is what it has made of it. -/
inductive Receiver where
  | idle
  | receiving (buffer message : NovaIpcMessage) (point : ReceivePoint)

structure Pair where
  endpoint : NovaIpcEndpoint
  sender : Sender
  receiver : Receiver

/-- Whose step it is, and the call that the thread makes if it is idle. -/
inductive Turn where
  | sender (call : SendCall)
  | receiver (buffer : NovaIpcMessage)

/-- A call with its answer. -/
abbrev IpcAnswer := IpcOp × NovaResult × Option NovaIpcMessage

def Pair.sendTurn (s : Pair) (next : SendCall) : Option IpcAnswer × Pair :=
  match s.sender with
  | .idle => (none, { s with sender := .sending next .test })
  | .sending call point =>
      match s.endpoint.sendStep call point with
      | (e, .inl point') => (none, { s with endpoint := e, sender := .sending call point' })
      | (e, .inr result) => (some (call.op, result, none), { s with endpoint := e, sender := .idle })

def Pair.receiveTurn (s : Pair) (next : NovaIpcMessage) : Option IpcAnswer × Pair :=
  match s.receiver with
  | .idle => (none, { s with receiver := .receiving next next .test })
  | .receiving buffer message point =>
      match s.endpoint.receiveStep message point with
      | (e, message', .inl point') => (none, { s with endpoint := e, receiver := .receiving buffer message' point' })
      | (e, message', .inr result) =>
          (some (.receive buffer, result, some message'), { s with endpoint := e, receiver := .idle })

def pairMachine : Machine Pair Turn (Option IpcAnswer) where
  step
    | s, .sender call => s.sendTurn call
    | s, .receiver buffer => s.receiveTurn buffer

def pairStart (memory : NovaIpcEndpoint) : Pair := ⟨novaIpcEndpointInit memory, .idle, .idle⟩

/-! ## Stores of the counter -/

/-- The value from which the turn stores the counter. -/
def Pair.loaded (s : Pair) : Turn → Option Nat
  | .sender _ =>
      match s.sender with
      | .sending _ (.store loaded) => some loaded
      | _ => none
  | .receiver _ =>
      match s.receiver with
      | .receiving _ _ (.store loaded) => some loaded
      | _ => none

/-- A store of the counter is from the value that the counter has. -/
def Pair.StoresFresh (s : Pair) (turn : Turn) : Prop := ∀ loaded ∈ s.loaded turn, loaded = s.endpoint.count

instance (s : Pair) (turn : Turn) : Decidable (s.StoresFresh turn) := by unfold Pair.StoresFresh; infer_instance

end NovaOs.Core
