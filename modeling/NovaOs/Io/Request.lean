import NovaOs.Io.Basic

/-!
# The requests of the I/O stack (`kernel/io/io_stack.h`, `kernel/io/io_stack.c`)

A request is passed by its pointer: a call returns the request as it leaves it, and `none` is the null pointer. The
drivers and what they keep for themselves are parameters; a driver that does not return has no result.
-/

namespace NovaOs.Io

open Lib

variable {pool : Nat} {σ : Type*}

abbrev BufPtr := Nat

inductive NovaIoType where
  | read
  | write
  | ioctl
  | flush
  | discard
  deriving DecidableEq, Repr

inductive NovaIoStatus where
  | pending
  | success
  | error
  | cancelled
  deriving DecidableEq, Repr

/-- The type of a request that is all zero is none of the types. -/
structure NovaIoRequest (pool : Nat) where
  type : Option NovaIoType
  status : NovaIoStatus
  device : Option (DevPtr pool)
  offset : UInt64
  buffer : Option BufPtr
  length : UInt64
  flags : UInt32
  timeoutMs : UInt64
  errorCode : Int
  deriving DecidableEq

/-- The I/O stack, and what the drivers keep. -/
structure World (pool : Nat) (σ : Type*) where
  io : IoStack pool
  drivers : σ

/-- The hooks of `struct nova_block_ops` that the I/O stack reads; `get_geometry` is never called. -/
structure NovaBlockOps (pool : Nat) (σ : Type*) where
  submitIo : Option (World pool σ → DevPtr pool → NovaIoRequest pool →
    Option (Int × World pool σ × NovaIoRequest pool))

variable (ops : OpsPtr → NovaBlockOps pool σ)

/-! ## The life of a request -/

/-- The flag `memory` says whether there is memory for the request. -/
def novaIoRequestAlloc (memory : Bool) : Option (NovaIoRequest pool) :=
  if memory then
    some
      { type := none, status := .pending, device := none, offset := 0, buffer := none, length := 0, flags := 0
        timeoutMs := 5000, errorCode := 0 }
  else none

/-- What the switch over the type of the device calls, if anything. -/
def World.submitHook (w : World pool σ) (dev : DevPtr pool) :
    Option (World pool σ → DevPtr pool → NovaIoRequest pool → Option (Int × World pool σ × NovaIoRequest pool)) :=
  match (w.io.devices dev).type with
  | .block => (w.io.devices dev).blockOps.bind fun p => (ops p).submitIo
  | _ => none

def novaIoSubmit (w : World pool σ) :
    Option (NovaIoRequest pool) → Option (Int × World pool σ × Option (NovaIoRequest pool))
  | none => some (-1, w, none)
  | some req =>
      match req.device, req.buffer with
      | some dev, some _ =>
          match w.submitHook ops dev with
          | some submitIo => (submitIo w dev req).map fun r => (r.1, r.2.1, some r.2.2)
          | none => some (-1, w, some { req with status := .error, errorCode := -1 })
      | _, _ => some (-1, w, some req)

/-- There is nothing to wait for yet. -/
def novaIoWait (req : Option (NovaIoRequest pool)) (_timeoutMs : UInt32) : Int × Option (NovaIoRequest pool) := (0, req)

def novaIoCancel : Option (NovaIoRequest pool) → Int × Option (NovaIoRequest pool)
  | none => (-1, none)
  | some req => if req.status ≠ .pending then (-1, some req) else (0, some { req with status := .cancelled })

/-- What a caller writes into a request before it submits it. -/
def NovaIoRequest.fill (req : NovaIoRequest pool) (type : NovaIoType) (device : Option (DevPtr pool)) (offset : UInt64)
    (buffer : Option BufPtr) (length : UInt64) : NovaIoRequest pool :=
  { req with type := some type, device := device, offset := offset, buffer := buffer, length := length }

/-! ## Block devices -/

/-- The end of the two functions below, up to where the request is freed. What the wait answers is not looked at. -/
def submitAndWait (w : World pool σ) (req : Option (NovaIoRequest pool)) :
    Option (Int × World pool σ × Option (NovaIoRequest pool)) :=
  (novaIoSubmit ops w req).bind fun r =>
    if r.1 = 0 then
      r.2.2.bind fun req =>
        (novaIoWait (some req) req.timeoutMs.toUInt32).2.map fun req =>
          (if req.status = .success then 0 else req.errorCode, r.2.1, some req)
    else some r

/-- The condition on `dev->block_ops->get_geometry` reads the pointer and chooses between two equal lengths. -/
def novaBlockReadSectors (w : World pool σ) (dev : Option (DevPtr pool)) (sector : UInt64) (buf : Option BufPtr)
    (count : UInt32) (memory : Bool) : Option (Int × World pool σ) :=
  match dev, buf with
  | some dev, some buf =>
      if count = 0 then some (-1, w)
      else
        match novaIoRequestAlloc memory with
        | none => some (-1, w)
        | some req =>
            if (w.io.devices dev).blockOps = none then none
            else
              let req := req.fill .read (some dev) sector (some buf) (count * 512).toUInt64
              (submitAndWait ops w (some req)).map fun r => (r.1, r.2.1)
  | _, _ => some (-1, w)

def novaBlockWriteSectors (w : World pool σ) (dev : Option (DevPtr pool)) (sector : UInt64) (buf : Option BufPtr)
    (count : UInt32) (memory : Bool) : Option (Int × World pool σ) :=
  match dev, buf with
  | some dev, some buf =>
      if count = 0 then some (-1, w)
      else
        match novaIoRequestAlloc memory with
        | none => some (-1, w)
        | some req =>
            let req := req.fill .write (some dev) sector (some buf) (count * 512).toUInt64
            (submitAndWait ops w (some req)).map fun r => (r.1, r.2.1)
  | _, _ => some (-1, w)

/-! ## Runs -/

/-- What happens to one request: its caller writes to it, submits it or cancels it. -/
inductive RequestOp (pool : Nat) where
  | fill (type : NovaIoType) (device : Option (DevPtr pool)) (offset : UInt64) (buffer : Option BufPtr) (length : UInt64)
  | submit
  | cancel
  deriving DecidableEq

abbrev RequestState (pool : Nat) (σ : Type*) := World pool σ × Option (NovaIoRequest pool)

def requestStep : RequestState pool σ → RequestOp pool → Option (Option Int × RequestState pool σ)
  | (w, req), .fill type device offset buffer length =>
      some (none, (w, req.map fun req => req.fill type device offset buffer length))
  | (w, req), .submit => (novaIoSubmit ops w req).map fun r => (some r.1, (r.2.1, r.2.2))
  | (w, req), .cancel => some (some (novaIoCancel req).1, (w, (novaIoCancel req).2))

def requestMachine : Machine (Option (RequestState pool σ)) (RequestOp pool) (Option (Option Int)) :=
  .ofPartial (requestStep ops)

end NovaOs.Io
