import NovaOs.Lib.CString
import NovaOs.Lib.Machine

/-!
# The NovaKit device registry (`kernel/novakit`)

A definition has the name of the C function, type or constant it models, in camel case.
`NOVAKIT_MAX_DEVICES` is 64 and `NOVAKIT_NAME_LENGTH` is 48.
-/

namespace NovaOs.Novakit

open Lib

inductive NovakitDeviceClass where
  | storage
  | network
  | gpu
  | input
  | audio
  | bus
  deriving DecidableEq, Repr

inductive NovakitDeviceState where
  | detached
  | attached
  deriving DecidableEq, Repr

structure NovakitDevice where
  id : UInt32
  vendorId : UInt16
  deviceId : UInt16
  deviceClass : NovakitDeviceClass
  state : NovakitDeviceState
  name : Vector UInt8 48
  deriving DecidableEq

structure NovakitRegistry where
  devices : Vector NovakitDevice 64
  count : Nat
  count_le : count ≤ 64
  deriving DecidableEq

namespace NovakitRegistry

variable (registry : NovakitRegistry)

def device (slot : Fin 64) : NovakitDevice := registry.devices.get slot

def setDevice (slot : Fin 64) (device : NovakitDevice) : NovakitRegistry :=
  { registry with devices := registry.devices.setIfInBounds slot device }

/-- The registry with one device more, in the slot that is next. -/
def append (slot : Fin 64) (next : slot.val = registry.count) (device : NovakitDevice) : NovakitRegistry :=
  { registry.setDevice slot device with count := registry.count + 1, count_le := by omega }

end NovakitRegistry

/-- The registry is cleared, whatever was there. -/
def novakitRegistryInit : NovakitRegistry where
  devices := Vector.replicate 64 ⟨0, 0, 0, .storage, .detached, Vector.replicate 48 0⟩
  count := 0
  count_le := Nat.zero_le 64

/-- What a device is registered with. -/
structure Registration where
  vendorId : UInt16
  deviceId : UInt16
  deviceClass : NovakitDeviceClass
  name : CString
  deriving DecidableEq

/-- The second part of the answer is what the caller's `device_id` holds after the call. -/
def novakitRegisterDevice (registry : NovakitRegistry) (r : Registration) (deviceIdOut : UInt32) :
    (Int × UInt32) × NovakitRegistry :=
  if h : registry.count = 64 then ((-1, deviceIdOut), registry)
  else
    let slot : Fin 64 := ⟨registry.count, lt_of_le_of_ne registry.count_le h⟩
    let device : NovakitDevice :=
      { id := UInt32.ofNat registry.count + 1
        vendorId := r.vendorId
        deviceId := r.deviceId
        deviceClass := r.deviceClass
        state := .detached
        name := (strncpy (registry.device slot).name r.name 47).set 47 0 }
    ((0, device.id), registry.append slot rfl device)

theorem toNat_sub_one {deviceId : UInt32} (h : deviceId ≠ 0) : (deviceId - 1).toNat = deviceId.toNat - 1 := by
  have hpos : deviceId.toNat ≠ 0 := fun he => h (UInt32.toNat_inj.mp he)
  exact UInt32.toNat_sub_of_le deviceId 1 (UInt32.le_iff_toNat_le.mpr (Nat.one_le_iff_ne_zero.mpr hpos))

/-- The slot `device_id - 1`, unless `device_id == 0 || device_id > registry->count`. -/
def NovakitRegistry.slotOf (registry : NovakitRegistry) (deviceId : UInt32) : Option (Fin 64) :=
  if h : deviceId = 0 ∨ deviceId.toNat > registry.count then none
  else
    some ⟨(deviceId - 1).toNat, by
      have hle := registry.count_le
      have hpos : deviceId.toNat ≠ 0 := fun he => h (.inl (UInt32.toNat_inj.mp he))
      rw [toNat_sub_one fun he => h (.inl he)]
      omega⟩

def novakitSetState (registry : NovakitRegistry) (deviceId : UInt32) (state : NovakitDeviceState) :
    Int × NovakitRegistry :=
  match registry.slotOf deviceId with
  | none => (-1, registry)
  | some slot => (0, registry.setDevice slot { registry.device slot with state := state })

def novakitFind (registry : NovakitRegistry) (deviceId : UInt32) : Option NovakitDevice :=
  (registry.slotOf deviceId).map registry.device

/-! ## Runs -/

inductive NovakitOp where
  | registerDevice (r : Registration) (deviceIdOut : UInt32)
  | setState (deviceId : UInt32) (state : NovakitDeviceState)
  deriving DecidableEq

/-- A registration also answers what the caller's `device_id` holds after it. -/
def novakitMachine : Machine NovakitRegistry NovakitOp (Int × Option UInt32) where
  step
    | registry, .registerDevice r deviceIdOut =>
        let answer := novakitRegisterDevice registry r deviceIdOut
        ((answer.1.1, some answer.1.2), answer.2)
    | registry, .setState deviceId state =>
        let answer := novakitSetState registry deviceId state
        ((answer.1, none), answer.2)

end NovaOs.Novakit
