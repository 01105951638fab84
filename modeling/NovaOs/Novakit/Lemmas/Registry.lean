import NovaOs.Novakit.Registry

/-!
# What the calls on the NovaKit registry do

The history of the calls says which ids were returned, what for, and which state a device has. `RegistryIs` says
that the registry holds exactly that.
-/

namespace NovaOs.Novakit

open Lib

variable {registry : NovakitRegistry} {deviceId : UInt32} {slot : Fin 64}

/-! ## Slots -/

namespace NovakitRegistry

theorem device_setDevice (registry : NovakitRegistry) (slot record slot') :
    (registry.setDevice slot record).device slot' = if slot' = slot then record else registry.device slot' := by
  show (registry.devices.setIfInBounds slot record)[slot'.val] = if slot' = slot then record else registry.devices[slot'.val]
  simp only [Vector.getElem_setIfInBounds, Fin.val_inj, eq_comm]

theorem device_append (registry : NovakitRegistry) (slot next record slot') :
    (registry.append slot next record).device slot' = if slot' = slot then record else registry.device slot' :=
  device_setDevice registry slot record slot'

theorem slotOf_eq_some_iff :
    registry.slotOf deviceId = some slot ↔ deviceId.toNat = slot.val + 1 ∧ slot.val < registry.count := by
  unfold slotOf
  split
  · next h =>
      simp only [reduceCtorEq, false_iff, not_and, not_lt]
      intro hid
      cases h with
      | inl hzero =>
          subst hzero
          cases hid
      | inr hgt => omega
  · next h =>
      obtain ⟨hzero, hle⟩ := not_or.mp h
      have hpos : deviceId.toNat ≠ 0 := fun he => hzero (UInt32.toNat_inj.mp he)
      rw [Option.some.injEq, Fin.ext_iff]
      simp only [toNat_sub_one hzero]
      omega

end NovakitRegistry

/-! ## One call -/

/-- The record is the one that `r` was registered for under the id. -/
structure NovakitDevice.Is (device : NovakitDevice) (id : UInt32) (r : Registration) (state : NovakitDeviceState) :
    Prop where
  id : device.id = id
  vendorId : device.vendorId = r.vendorId
  deviceId : device.deviceId = r.deviceId
  deviceClass : device.deviceClass = r.deviceClass
  state : device.state = state
  name : Holds device.name.toList (r.name.cut 47)

/-- A registration is refused when the registry is full. Otherwise the next slot gets the record. -/
theorem novakitRegisterDevice_cases (registry : NovakitRegistry) (r : Registration) (deviceIdOut : UInt32) :
    (registry.count = 64 ∧ novakitRegisterDevice registry r deviceIdOut = ((-1, deviceIdOut), registry)) ∨
    (∃ slot, ∃ next : slot.val = registry.count, ∃ id device, id.toNat = slot.val + 1 ∧ device.Is id r .detached ∧
      novakitRegisterDevice registry r deviceIdOut = ((0, id), registry.append slot next device)) := by
  by_cases h : registry.count = 64
  · exact .inl ⟨h, dif_pos h⟩
  · have hlt : registry.count < 64 := lt_of_le_of_ne registry.count_le h
    refine .inr ⟨⟨registry.count, hlt⟩, rfl, UInt32.ofNat registry.count + 1, _, ?_, ?_, dif_neg h⟩
    · rw [UInt32.toNat_add, UInt32.toNat_ofNat', UInt32.toNat_one]
      simp only
      omega
    · exact ⟨rfl, rfl, rfl, rfl, rfl, holds_strncpy _ _ (by decide)⟩

theorem novakitSetState_cases (registry : NovakitRegistry) (deviceId : UInt32) (state : NovakitDeviceState) :
    (registry.slotOf deviceId = none ∧ novakitSetState registry deviceId state = (-1, registry)) ∨
    (∃ slot, registry.slotOf deviceId = some slot ∧
      novakitSetState registry deviceId state =
        (0, registry.setDevice slot { registry.device slot with state := state })) := by
  cases h : registry.slotOf deviceId with
  | none => exact .inl ⟨rfl, by simp only [novakitSetState, h]⟩
  | some slot => exact .inr ⟨slot, rfl, by simp only [novakitSetState, h]⟩

/-! ## The history of a run -/

abbrev NovakitHistory := List (NovakitOp × (Int × Option UInt32))

/-- What a call registered, and under which id. -/
def granted : NovakitOp × (Int × Option UInt32) → Option (UInt32 × Registration)
  | (.registerDevice r _, (0, some id)) => some (id, r)
  | _ => none

/-- The ids that were returned, in order. -/
def returned (h : NovakitHistory) : List (UInt32 × Registration) := h.filterMap granted

/-- The state of a device after one more call. -/
def stateAfter (id : UInt32) (state : NovakitDeviceState) : NovakitOp × (Int × Option UInt32) → NovakitDeviceState
  | (.setState id' state', (0, _)) => if id' = id then state' else state
  | _ => state

/-- The state that the last successful `novakit_set_state` on the id asked for. -/
def lastState (h : NovakitHistory) (id : UInt32) : NovakitDeviceState := h.foldl (stateAfter id) .detached

theorem returned_append (h : NovakitHistory) (e) : returned (h ++ [e]) = returned h ++ (granted e).toList := by
  cases he : granted e <;> simp [returned, he]

theorem lastState_append (h : NovakitHistory) (e id) : lastState (h ++ [e]) id = stateAfter id (lastState h id) e := by
  simp [lastState]

/-- The registry holds what the history says. -/
structure RegistryIs (registry : NovakitRegistry) (h : NovakitHistory) : Prop where
  count : (returned h).length = registry.count
  id : ∀ k id r, (returned h)[k]? = some (id, r) → id.toNat = k + 1
  record : ∀ slot id r, (returned h)[slot.val]? = some (id, r) → (registry.device slot).Is id r (lastState h id)
  unset : ∀ id, registry.count < id.toNat → lastState h id = .detached

variable {h : NovakitHistory}

theorem RegistryIs.init : RegistryIs novakitRegistryInit [] where
  count := rfl
  id k id r hk := by simp [returned] at hk
  record slot id r hslot := by simp [returned] at hslot
  unset id _ := rfl

theorem RegistryIs.refused (hreg : RegistryIs registry h) {e : NovakitOp × (Int × Option UInt32)} (he : e.2.1 = -1) :
    RegistryIs registry (h ++ [e]) := by
  have hgranted : granted e = none := by
    unfold granted
    split
    · cases he
    · rfl
  have hstate : ∀ id state, stateAfter id state e = state := by
    intro id state
    unfold stateAfter
    split
    · cases he
    · rfl
  have hreturned : returned (h ++ [e]) = returned h := by simp [returned_append, hgranted]
  have hlast : ∀ id, lastState (h ++ [e]) id = lastState h id := by simp [lastState_append, hstate]
  refine ⟨?_, ?_, ?_, ?_⟩
  · rw [hreturned, hreg.count]
  · rw [hreturned]
    exact hreg.id
  · intro slot id r hslot
    rw [hreturned] at hslot
    rw [hlast]
    exact hreg.record slot id r hslot
  · intro id hid
    rw [hlast]
    exact hreg.unset id hid

theorem RegistryIs.append (hreg : RegistryIs registry h) {slot : Fin 64} (next : slot.val = registry.count) {id device r}
    (hid : id.toNat = slot.val + 1) (hdevice : NovakitDevice.Is device id r .detached) (deviceIdOut : UInt32) :
    RegistryIs (registry.append slot next device) (h ++ [(.registerDevice r deviceIdOut, (0, some id))]) := by
  have hreturned : returned (h ++ [(.registerDevice r deviceIdOut, (0, some id))]) = returned h ++ [(id, r)] := by
    rw [returned_append]
    rfl
  have hlast : ∀ id', lastState (h ++ [(.registerDevice r deviceIdOut, (0, some id))]) id' = lastState h id' := by
    intro id'
    rw [lastState_append]
    rfl
  have hcount := hreg.count
  -- An entry is an old one, or the one of this call.
  have hentry : ∀ k id' r', (returned h ++ [(id, r)])[k]? = some (id', r') →
      (k < registry.count ∧ (returned h)[k]? = some (id', r')) ∨ (k = registry.count ∧ id' = id ∧ r' = r) := by
    intro k id' r' hk
    by_cases hlt : k < (returned h).length
    · rw [List.getElem?_append_left hlt] at hk
      exact .inl ⟨by omega, hk⟩
    · rw [List.getElem?_append_right (not_lt.mp hlt), List.getElem?_singleton] at hk
      split at hk
      · simp only [Option.some.injEq, Prod.mk.injEq] at hk
        exact .inr ⟨by omega, hk.1.symm, hk.2.symm⟩
      · cases hk
  refine ⟨?_, ?_, ?_, ?_⟩
  · rw [hreturned, List.length_append, hcount]
    rfl
  · intro k id' r' hk
    rw [hreturned] at hk
    rcases hentry k id' r' hk with ⟨_, hold⟩ | ⟨rfl, rfl, _⟩
    · exact hreg.id k id' r' hold
    · rw [hid, next]
  · intro slot' id' r' hslot
    rw [hreturned] at hslot
    rw [NovakitRegistry.device_append, hlast]
    rcases hentry slot' id' r' hslot with ⟨hlt, hold⟩ | ⟨heq, rfl, rfl⟩
    · rw [if_neg (by rintro rfl; omega)]
      exact hreg.record slot' id' r' hold
    · rw [if_pos (Fin.ext (by omega)), hreg.unset id' (by omega)]
      exact hdevice
  · intro id' hlt
    have hlt' : registry.count + 1 < id'.toNat := hlt
    rw [hlast]
    exact hreg.unset id' (by omega)

theorem RegistryIs.setState (hreg : RegistryIs registry h) (hslot : registry.slotOf deviceId = some slot)
    (state : NovakitDeviceState) :
    RegistryIs (registry.setDevice slot { registry.device slot with state := state })
      (h ++ [(.setState deviceId state, (0, none))]) := by
  obtain ⟨hid, hlt⟩ := NovakitRegistry.slotOf_eq_some_iff.mp hslot
  have hreturned : returned (h ++ [(.setState deviceId state, (0, none))]) = returned h := by
    rw [returned_append]
    simp [granted]
  have hlast : ∀ id, lastState (h ++ [(.setState deviceId state, (0, none))]) id =
      if deviceId = id then state else lastState h id := by
    intro id
    rw [lastState_append]
    rfl
  refine ⟨?_, ?_, ?_, ?_⟩
  · rw [hreturned]
    exact hreg.count
  · rw [hreturned]
    exact hreg.id
  · intro slot' id r hslot'
    rw [hreturned] at hslot'
    have hid' := hreg.id slot' id r hslot'
    have hold := hreg.record slot' id r hslot'
    rw [NovakitRegistry.device_setDevice, hlast]
    by_cases he : slot' = slot
    · subst he
      have hsame : deviceId = id := UInt32.toNat_inj.mp (by omega)
      rw [if_pos rfl, if_pos hsame]
      exact ⟨hold.id, hold.vendorId, hold.deviceId, hold.deviceClass, rfl, hold.name⟩
    · have hother : deviceId ≠ id := by
        rintro rfl
        exact he (Fin.ext (by omega))
      rw [if_neg he, if_neg hother]
      exact hold
  · intro id hgt
    have hgt' : registry.count < id.toNat := hgt
    rw [hlast, if_neg]
    · exact hreg.unset id hgt'
    · rintro rfl
      omega

theorem RegistryIs.next (hreg : RegistryIs registry h) (op : NovakitOp) :
    RegistryIs (novakitMachine.next registry op) (h ++ [(op, novakitMachine.out registry op)]) := by
  cases op with
  | registerDevice r deviceIdOut =>
      rcases novakitRegisterDevice_cases registry r deviceIdOut with ⟨_, hcall⟩ | ⟨slot, next, id, device, hid, hdevice, hcall⟩
      · simp only [Machine.next, Machine.out, novakitMachine, hcall]
        exact hreg.refused rfl
      · simp only [Machine.next, Machine.out, novakitMachine, hcall]
        exact hreg.append next hid hdevice deviceIdOut
  | setState deviceId state =>
      rcases novakitSetState_cases registry deviceId state with ⟨_, hcall⟩ | ⟨slot, hslot, hcall⟩
      · simp only [Machine.next, Machine.out, novakitMachine, hcall]
        exact hreg.refused rfl
      · simp only [Machine.next, Machine.out, novakitMachine, hcall]
        exact hreg.setState hslot state

theorem RegistryIs.exec (ops : List NovakitOp) :
    RegistryIs (novakitMachine.exec novakitRegistryInit ops) (novakitMachine.trace novakitRegistryInit ops) :=
  Machine.history_invariant (fun _ _ op hreg => hreg.next op) .init ops

end NovaOs.Novakit
