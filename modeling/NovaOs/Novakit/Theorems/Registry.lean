import NovaOs.Novakit.Lemmas.Registry

/-!
# The NovaKit registry is an append-only directory

What was registered under an id stays there, and only its state changes.
-/

namespace NovaOs.Novakit

open Lib

variable {registry : NovakitRegistry} {h : NovakitHistory}

/-- The registry answers for the devices of the history. -/
structure DirectoryMeets (registry : NovakitRegistry) (h : NovakitHistory) : Prop where
  distinct : ((returned h).map Prod.fst).Nodup
  ids : ∀ id, (∃ r, (id, r) ∈ returned h) ↔ 1 ≤ id.toNat ∧ id.toNat ≤ (returned h).length
  register_full : (returned h).length = 64 →
    ∀ r deviceIdOut, novakitRegisterDevice registry r deviceIdOut = ((-1, deviceIdOut), registry)
  register : (returned h).length ≠ 64 →
    ∀ r deviceIdOut, (novakitRegisterDevice registry r deviceIdOut).1.1 = 0 ∧
      ∀ r', ((novakitRegisterDevice registry r deviceIdOut).1.2, r') ∉ returned h
  find : ∀ id r, (id, r) ∈ returned h → ∃ device, novakitFind registry id = some device ∧ device.Is id r (lastState h id)
  find_none : ∀ id, novakitFind registry id = none ↔ ∀ r, (id, r) ∉ returned h
  setState_fails : ∀ id state, (∀ r, (id, r) ∉ returned h) → novakitSetState registry id state = (-1, registry)
  setState : ∀ id r state, (id, r) ∈ returned h → (novakitSetState registry id state).1 = 0 ∧
    ∀ id', id' ≠ id → novakitFind (novakitSetState registry id state).2 id' = novakitFind registry id'

theorem length_returned_le (hreg : RegistryIs registry h) : (returned h).length ≤ 64 :=
  hreg.count.trans_le registry.count_le

theorem RegistryIs.exists_slot (hreg : RegistryIs registry h) {id r} (hid : (id, r) ∈ returned h) :
    ∃ slot : Fin 64, (returned h)[slot.val]? = some (id, r) ∧ registry.slotOf id = some slot := by
  obtain ⟨k, hk⟩ := List.mem_iff_getElem?.mp hid
  have hlt : k < (returned h).length := (List.getElem?_eq_some_iff.mp hk).1
  have hle := length_returned_le hreg
  have hcount := hreg.count
  have htoNat := hreg.id k id r hk
  refine ⟨⟨k, by omega⟩, hk, NovakitRegistry.slotOf_eq_some_iff.mpr ⟨htoNat, ?_⟩⟩
  simp only
  omega

theorem RegistryIs.exists_of_slotOf (hreg : RegistryIs registry h) {id slot} (hslot : registry.slotOf id = some slot) :
    ∃ r, (returned h)[slot.val]? = some (id, r) := by
  obtain ⟨htoNat, hlt⟩ := NovakitRegistry.slotOf_eq_some_iff.mp hslot
  have hcount := hreg.count
  have hlt' : slot.val < (returned h).length := by omega
  obtain ⟨⟨id', r⟩, hentry⟩ : ∃ entry, (returned h)[slot.val]? = some entry := ⟨_, List.getElem?_eq_getElem hlt'⟩
  have hsame : id' = id := UInt32.toNat_inj.mp ((hreg.id slot id' r hentry).trans htoNat.symm)
  exact ⟨r, by rw [hentry, hsame]⟩

theorem RegistryIs.slotOf_eq_none_iff (hreg : RegistryIs registry h) {id} :
    registry.slotOf id = none ↔ ∀ r, (id, r) ∉ returned h := by
  constructor
  · intro hnone r hid
    obtain ⟨slot, _, hslot⟩ := hreg.exists_slot hid
    rw [hnone] at hslot
    cases hslot
  · intro hnot
    cases hslot : registry.slotOf id with
    | none => rfl
    | some slot =>
        obtain ⟨r, hentry⟩ := hreg.exists_of_slotOf hslot
        exact absurd (List.mem_of_getElem? hentry) (hnot r)

theorem RegistryIs.nodup (hreg : RegistryIs registry h) : ((returned h).map Prod.fst).Nodup := by
  rw [List.nodup_iff_getElem?_ne_getElem?]
  intro i j hij hj he
  simp only [List.getElem?_map] at he
  rw [List.length_map] at hj
  obtain ⟨⟨idᵢ, rᵢ⟩, hentryᵢ⟩ : ∃ entry, (returned h)[i]? = some entry := ⟨_, List.getElem?_eq_getElem (hij.trans hj)⟩
  obtain ⟨⟨idⱼ, rⱼ⟩, hentryⱼ⟩ : ∃ entry, (returned h)[j]? = some entry := ⟨_, List.getElem?_eq_getElem hj⟩
  have htoNatᵢ := hreg.id i idᵢ rᵢ hentryᵢ
  have htoNatⱼ := hreg.id j idⱼ rⱼ hentryⱼ
  simp only [hentryᵢ, hentryⱼ, Option.map_some, Option.some.injEq] at he
  subst he
  omega

theorem RegistryIs.ids (hreg : RegistryIs registry h) (id) :
    (∃ r, (id, r) ∈ returned h) ↔ 1 ≤ id.toNat ∧ id.toNat ≤ (returned h).length := by
  have hcount := hreg.count
  constructor
  · rintro ⟨r, hid⟩
    obtain ⟨slot, _, hslot⟩ := hreg.exists_slot hid
    obtain ⟨htoNat, hlt⟩ := NovakitRegistry.slotOf_eq_some_iff.mp hslot
    omega
  · rintro ⟨hpos, hle⟩
    have hle' := length_returned_le hreg
    have hslot : registry.slotOf id = some ⟨id.toNat - 1, by omega⟩ := by
      rw [NovakitRegistry.slotOf_eq_some_iff]
      simp only
      omega
    obtain ⟨r, hentry⟩ := hreg.exists_of_slotOf hslot
    exact ⟨r, List.mem_of_getElem? hentry⟩

theorem RegistryIs.meets (hreg : RegistryIs registry h) : DirectoryMeets registry h where
  distinct := hreg.nodup
  ids := hreg.ids
  register_full hfull r deviceIdOut := by
    have hcount := hreg.count
    rcases novakitRegisterDevice_cases registry r deviceIdOut with ⟨_, hcall⟩ | ⟨slot, next, _⟩
    · exact hcall
    · have hlt := slot.isLt
      omega
  register hroom r deviceIdOut := by
    have hcount := hreg.count
    rcases novakitRegisterDevice_cases registry r deviceIdOut with ⟨hfull, _⟩ | ⟨slot, next, id, device, hid, _, hcall⟩
    · omega
    · rw [hcall]
      refine ⟨rfl, fun r' hmem => ?_⟩
      have hold := (hreg.ids id).mp ⟨r', hmem⟩
      omega
  find id r hid := by
    obtain ⟨slot, hentry, hslot⟩ := hreg.exists_slot hid
    exact ⟨registry.device slot, by rw [novakitFind, hslot, Option.map_some], hreg.record slot id r hentry⟩
  find_none id := by
    rw [← hreg.slotOf_eq_none_iff, novakitFind, Option.map_eq_none_iff]
  setState_fails id state hnot := by
    rcases novakitSetState_cases registry id state with ⟨_, hcall⟩ | ⟨slot, hslot, _⟩
    · exact hcall
    · rw [hreg.slotOf_eq_none_iff.mpr hnot] at hslot
      cases hslot
  setState id r state hid := by
    rcases novakitSetState_cases registry id state with ⟨hnone, _⟩ | ⟨slot, hslot, hcall⟩
    · exact absurd hid (hreg.slotOf_eq_none_iff.mp hnone r)
    · rw [hcall]
      refine ⟨rfl, fun id' hne => ?_⟩
      show (registry.slotOf id').map _ = (registry.slotOf id').map _
      cases hslot' : registry.slotOf id' with
      | none => rfl
      | some slot' =>
          have hother : slot' ≠ slot := by
            rintro rfl
            have htoNat := (NovakitRegistry.slotOf_eq_some_iff.mp hslot).1
            have htoNat' := (NovakitRegistry.slotOf_eq_some_iff.mp hslot').1
            exact hne (UInt32.toNat_inj.mp (by omega))
          rw [Option.map_some, Option.map_some, NovakitRegistry.device_setDevice, if_neg hother]

/-- After any registrations and changes of state, the registry is the directory that the history of the calls
says. -/
theorem novakit_append_only (ops : List NovakitOp) :
    DirectoryMeets (novakitMachine.exec novakitRegistryInit ops) (novakitMachine.trace novakitRegistryInit ops) :=
  (RegistryIs.exec ops).meets

end NovaOs.Novakit
